import MailMerge.Data.FrontMatter
import MailMerge.Data.Text
import MailMerge.Package.Path
import MailMerge.Storage.Basic
import MailMerge.Text.Lower

/-! Data from files: structured text, or the front matter of a document of any other kind. The
ending of the name decides.
-/
namespace MailMerge.DataFile

/-- All line ends as one character. -/
def uniformLines : List Char → List Char
  | '\r' :: '\n' :: rest => '\n' :: uniformLines rest
  | '\r' :: rest => '\n' :: uniformLines rest
  | c :: rest => c :: uniformLines rest
  | [] => []

/-- The text of a file. -/
def text (found : Stored) : Except Fault String :=
  match found with
  | .file data =>
    match Text.decode? data with
    | some s => .ok (String.ofList (uniformLines s.toList))
    | none => .error (.breakdown .decoding)
  | .folder => .error (.breakdown .folder)
  | .nothing => .error (.breakdown .notFound)

/-- The file holds structured text. -/
def isStructured (path : String) : Bool :=
  Text.lower (Path.ending path) == ".json"

/-- The front matter of a file. -/
def matter (path : String) (found : Stored) : Except Fault Value :=
  let value? := match found with
    | .file data => FrontMatter.ofBytes? data
    | _ => none
  match value? with
  | some v => .ok v
  | none => .error (.malformedFrontMatter path)

/-- The data in the file at a path. -/
def load (storage : Storage) (path : String) : Except Fault Value := do
  let found := storage.find path
  if !found.isSomething then throw (.dataNotFound path)
  let value ←
    if isStructured path then DataText.readJson (← text found) (.malformedDataFile path)
    else matter path found
  DataText.requireMap value (.dataFileNotObject path)

end MailMerge.DataFile
