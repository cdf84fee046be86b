import MailMerge.Package.Path
import MailMerge.Storage.Basic

/-! A folder given by its files. It answers for the paths below it; nothing else is known.
-/
namespace MailMerge

/-- A folder at an absolute path, with its files by the names on the way to them. -/
structure Folder where
  path : String := ""
  files : List (List String × ByteArray) := []
  deriving Inhabited

namespace Folder

/-- A folder with files by their paths in it. -/
def ofList (path : String) (files : List (String × ByteArray)) : Folder :=
  { path := path, files := files.map fun (name, data) => (Path.steps name, data) }

/-- The longest name of a file or folder, in bytes. -/
def maxName : Nat := 255

/-- Names that a file system takes: without zero characters and not too long. -/
def isName (name : String) : Bool :=
  name.utf8ByteSize ≤ maxName && !name.toList.contains '\x00'

/-- What names lead to. -/
def leads (f : Folder) (names : List String) : Stored :=
  match f.files.lookup names with
  | some data => .file data
  | none => if names.isEmpty || f.files.any fun e => names.isPrefixOf e.1 then .folder else .nothing

/-- The part of a path below the folder. A relative path counts from the folder. -/
def below? (f : Folder) (path : String) : Option String :=
  match if f.path == "" then none else Text.after? f.path.toList path.toList with
  | some [] => some ""
  | some ('/' :: rest) => some (String.ofList rest)
  | _ => if Text.startsWith ['/'] path.toList then none else some path

/-- Follows names one by one from a place in the folder. Every name but the last must lead to a
folder; a dot stays there and two dots go back. -/
def follow (find : List String → Stored) : List String → List String → Stored
  | place, [] => find place
  | place, name :: rest =>
    match find place with
    | .folder =>
      if name == "" || name == "." then follow find place rest
      else if name == ".." then
        if place.isEmpty then .nothing else follow find place.dropLast rest
      else if isName name then follow find (place ++ [name]) rest
      else .nothing
    | _ => .nothing

/-- The names of a path, empty ones included. -/
def names (path : String) : List String :=
  (Text.splitOn '/' path.toList).map String.ofList

/-- What a path leads to. -/
def find (f : Folder) (path : String) : Stored :=
  if path == "" then .nothing
  else match f.below? path with
    | some inner => follow f.leads [] (names inner)
    | none => .nothing

/-- Why a folder cannot be made, with all folders on the way; `done` are the names before. -/
def blocked? (f : Folder) (done : List String) : List String → Option Breakdown
  | [] => none
  | name :: rest =>
    if name.toList.contains '\x00' then some .value
    else if !isName name then some .badPath
    else match f.leads (done ++ [name]) with
      | .file _ => some (if rest.isEmpty then .occupied else .notAFolder)
      | _ => f.blocked? (done ++ [name]) rest

/-- What a path leads to once the folders on the way to it are made. -/
def made (f : Folder) (folder : List String) (names : List String) : Stored :=
  match f.leads names with
  | .nothing => if names.isPrefixOf folder then .folder else .nothing
  | found => found

/-- Why a document cannot be stored at a path. -/
def obstacle? (f : Folder) (path : String) : Option Breakdown :=
  match f.below? path with
  | none => none
  | some inner =>
    let folder := (Path.steps inner).dropLast
    match f.blocked? [] folder with
    | some cause => some cause
    | none =>
      let on := (names inner).dropLast
      let last := (names inner).getLast?.getD ""
      match follow (f.made folder) [] on with
      | .folder =>
        if last.toList.contains '\x00' then some .value
        else if !isName last then some .badPath
        else match follow (f.made folder) [] (on ++ [last]) with
          | .folder => some .folder
          | _ => none
      | .file _ => some .notAFolder
      | .nothing => some .notFound

/-- The folder as a view of stored files. -/
def storage (f : Folder) : Storage :=
  { current := f.path
    find := f.find
    obstacle := fun path => (f.obstacle? path).map .breakdown }

end Folder
end MailMerge
