import MailMerge.Text.Search

/-! Names of parts and files as paths: folders are separated by slashes.
-/
namespace MailMerge.Path
open Text

/-- Drops the slashes at the end, unless there is nothing else. -/
def trimSlashes (path : List Char) : List Char :=
  if path.all (· == '/') then path else (path.reverse.dropWhile (· == '/')).reverse

/-- The name after the last slash. -/
def base (path : String) : String :=
  match cutLast? '/' path.toList with
  | some (_, name) => String.ofList name
  | none => path

/-- The folder before the last slash, empty when there is none. -/
def folder (path : String) : String :=
  match cutLast? '/' path.toList with
  | some (head, _) => String.ofList (trimSlashes (head ++ ['/']))
  | none => ""

/-- A name inside a folder; a name that begins with a slash stands alone. -/
def join (folder name : String) : String :=
  if startsWith ['/'] name.toList || folder == "" then name
  else if endsWith ['/'] folder.toList then folder ++ name
  else folder ++ "/" ++ name

/-- The ending of the last name from its last dot on, empty when there is none. Dots at the
beginning of the name do not count. -/
def ending (path : String) : String :=
  match cutLast? '.' ((base path).toList.dropWhile (· == '.')) with
  | some (_, tail) => String.ofList ('.' :: tail)
  | none => ""

/-- The names along a path. A single dot stays in place and a double dot goes one back. -/
def steps (path : String) : List String :=
  ((splitOn '/' path.toList).map String.ofList).foldl (fun done name =>
    if name == "" || name == "." then done
    else if name == ".." then done.dropLast
    else done ++ [name]) []

/-- The path without redundant steps, absolute ones from the root. -/
def plain (path : String) : String :=
  (if startsWith ['/'] path.toList then "/" else "") ++ "/".intercalate (steps path)

/-- Drops what two lists of names have in common at their beginning. -/
def withoutCommon : List String → List String → List String × List String
  | a :: as, b :: bs => if a == b then withoutCommon as bs else (a :: as, b :: bs)
  | as, bs => (as, bs)

/-- The way to a path from a folder. -/
def relative (path folder : String) : String :=
  let (up, down) := withoutCommon (steps folder) (steps path)
  match up.map (fun _ => "..") ++ down with
  | [] => "."
  | names => "/".intercalate names

/-- The part that holds the relationships of a part. -/
def relationships (part : String) : String :=
  join (join (folder part) "_rels") (base part ++ ".rels")

end MailMerge.Path
