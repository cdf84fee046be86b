import MailMerge.Command.Run

/-! The short form of the command: a template, a file with data of any kind, and the path of the
document. It prints what became of the document and keeps no journal.
-/
namespace MailMerge.Command

/-- What comes out of the short form: a text to print, and a document with its path. -/
structure Printed where
  text : String := ""
  stored : Option (String × Archive.Entries) := none
  deriving Inhabited

/-- The lines about a document that was generated. -/
def filledLines (report : Report) (template output : String) : String :=
  let failed := report.failures.map fun o =>
    s!"  failed {o.kind.label} '{o.key.bare}': {o.reason}\n"
  s!"Successfully filled '{template}' into '{output}'.\n" ++ String.join failed

/-- The template at a path. -/
def templateAt (storage : Storage) (path : String) : Source :=
  match storage.find path with
  | .file data => .bytes data
  | .folder => .unreadable (.breakdown .folder)
  | .nothing => .missing path

/-- Reads data of any kind from a file. -/
def looseData (storage : Storage) (path : String) : Except Fault Value := do
  DataText.readJson (← DataFile.text (storage.find path)) fun _ => .breakdown .json

/-- Fills the template at one path with the data at another, for a document at a third. -/
def fillPaths (setup : Setup) (storage : Storage) (template data output : String) :
    Except Fault Printed := do
  match [template, data].find? fun path => !(storage.find path).isSomething with
  | some path => return { text := s!"Error: Input file '{path}' not found.\n" }
  | none =>
    let value ← looseData storage data
    let (options, folder) := placed storage.current output none none none
    let report ← generate { setup with data := value } (templateAt storage template) options
      (fun name => some (destination storage folder name))
    match report.document, report.path with
    | some entries, some path =>
      return { text := filledLines report template output, stored := some (path, entries) }
    | _, _ =>
      let reason := (report.error.map Fault.message).getD ""
      return { text := s!"An error occurred during generation: {reason}\n" }

/-- Carries out the short form, which takes exactly three words. -/
def fill (setup : Setup) (storage : Storage) (texts : List String) : Except Fault Printed :=
  match texts with
  | [template, data, output] => fillPaths setup storage template data output
  | _ => .error (.breakdown .kind)

end MailMerge.Command
