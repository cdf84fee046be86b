import MailMerge.Command.Request
import MailMerge.Data.File
import MailMerge.Generate

/-! Carrying out a command: the template and the data are looked up, the document is generated and
handed over with the path where it belongs, and the journal tells what happened.
-/
namespace MailMerge.Command

/-- What comes out of a command. -/
structure Result where
  exit : Nat
  printed : String := ""
  journal : List Note := []
  /-- a document and the path to store it at -/
  stored : Option (String × Archive.Entries) := none
  deriving Inhabited

/-- The name and the number of this program. -/
def versionLine : String :=
  "json2docx 0.1.0\n"

/-- A short reminder of how the command is written. -/
def usage : String :=
  "usage: json2docx [-h] [-o OUTPUT] [--header HEADER] [--footer FOOTER] " ++
    "[--watermark WATERMARK] [--blank] [-v] [--verbose] [-q] [template] data_file\n"

/-- The least level of the messages that a request wants to see. -/
def Request.level (r : Request) : Level :=
  if r.quiet then .error else if r.verbose then .debug else .info

/-- The template of a request, with a warning if its name looks wrong; or why there is none. The
blank template is made at a moment. -/
def Request.source (r : Request) (storage : Storage) (moment : String) :
    Except String (Source × Journal) :=
  match r.blank, r.template with
  | true, some _ => .error "TEMPLATE and --blank are mutually exclusive"
  | true, none => .ok (.bytes (Archive.write (Package.blankParts moment "")), #[])
  | false, none => .error "A template file is required (or pass --blank)"
  | false, some path =>
    let warnings : Journal :=
      if Text.lower (Path.ending path) == ".docx" then #[]
      else #[⟨.warning, "Template does not have a .docx extension: " ++ path⟩]
    match storage.find path with
    | .nothing => .error ("Template file not found: " ++ path)
    | .file data => .ok (.bytes data, warnings)
    | .folder => .ok (.unreadable (.breakdown .folder), warnings)

/-- The absolute form of a path, seen from a folder. -/
def absolute (current path : String) : String :=
  Path.plain (if Text.startsWith ['/'] path.toList then path else current ++ "/" ++ path)

/-- The options and the folder of a document that is stored at a path. -/
def placed (current path : String) (header footer watermark : Option String) : Value × String :=
  let text (t : Option String) : Value := (t.map Value.text).getD .null
  (.map [(.text "file_name", .text (Path.base path)), (.text "header", text header),
    (.text "footer", text footer), (.text "watermark", text watermark)],
    Path.folder (absolute current path))

/-- A destination in a folder. -/
def destination (storage : Storage) (folder fileName : String) : Destination :=
  let path := Path.join folder fileName
  { path := path, obstacle := storage.obstacle path }

/-- The last messages about a document that was generated. -/
def closing (report : Report) (path : String) : Journal :=
  let failed := report.failures.map fun o =>
    Note.mk .warning
      s!"Failed {o.kind.label} directive '{o.key.bare}' ({o.part}): {o.reason}"
  (failed ++ [Note.mk .info
    s!"Successfully generated {path} ({report.applied.length} directive(s) applied)"]).toArray

/-- Carries out a request. A fault of the data that the engine does not know ends everything. -/
def Request.run (r : Request) (setup : Setup) (storage : Storage) (moment : String) :
    Except Fault Result :=
  let finish (exit : Nat) (journal : Journal) (stored : Option (String × Archive.Entries)) :
      Result :=
    { exit := exit, journal := journal.atLeast r.level, stored := stored }
  match r.source storage moment with
  | .error message => .ok (finish 1 #[⟨.error, message⟩] none)
  | .ok (source, journal) =>
    match DataFile.load storage r.dataFile with
    | .error fault =>
      if fault.isOwn then .ok (finish 1 (journal.log .error fault.message) none)
      else .error fault
    | .ok data => do
      let output := match r.output with
        | some path => if path == "" then setup.settings.fileName else path
        | none => setup.settings.fileName
      let (options, folder) := placed storage.current output r.header r.footer r.watermark
      let report ← generate { setup with data := data } source options
        (fun name => some (destination storage folder name))
      let journal := journal ++ report.journal
      match report.document, report.path with
      | some entries, some path =>
        return finish 0 (journal ++ closing report path) (some (path, entries))
      | _, _ =>
        let reason := (report.error.map Fault.message).getD ""
        return finish 1 (journal.log .error ("Generation failed: " ++ reason)) none

/-- Carries out the words of a command. -/
def run (setup : Setup) (storage : Storage) (moment : String) (texts : List String) :
    Except Fault Result :=
  match read texts with
  | .help => .ok { exit := 0, printed := usage }
  | .version => .ok { exit := 0, printed := versionLine }
  | .misuse => .ok { exit := 2 }
  | .request r => r.run setup storage moment

end MailMerge.Command
