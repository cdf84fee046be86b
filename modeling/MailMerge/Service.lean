import MailMerge.Data.Text
import MailMerge.Generate

/-! The service: a form with a template and data is answered with the document. Nothing is stored.
-/
namespace MailMerge.Service

/-- The fields of a form. -/
structure Form where
  template : Option ByteArray := none
  data : Option String := none
  fileName : Option String := none
  header : Option String := none
  footer : Option String := none
  watermark : Option String := none
  deriving Inhabited

/-- How a request is made. -/
inductive Request where
  | get
  | post (form : Form)
  deriving Inhabited

/-- What answers a request. -/
inductive Response where
  /-- the service is there -/
  | healthy
  | document (entries : Archive.Entries) (fileName : String) (failures : Nat) (contentType : String)
  /-- data that cannot be read -/
  | badData (fault : Fault)
  /-- a generation without a document -/
  | noDocument (fault : Fault)
  /-- a form without a template -/
  | incomplete
  | noSuchPath
  | wrongMethod
  deriving Inhabited

namespace Response

/-- The number that tells how a request went. -/
def status : Response → Nat
  | healthy | document .. => 200
  | badData _ => 400
  | noSuchPath => 404
  | wrongMethod => 405
  | incomplete => 422
  | noDocument _ => 500

/-- What an answer says when it carries no document. -/
def detail : Response → String
  | badData fault | noDocument fault => fault.message
  | noSuchPath => "Not Found"
  | wrongMethod => "Method Not Allowed"
  | _ => ""

/-- The file name as a header carries it: basic Latin characters without quotes, and the usual
name when nothing is left. -/
def safeName (s : Settings) (name : String) : String :=
  let safe := String.ofList (name.toList.filter fun c => c.toNat < 0x80 && c != '"')
  if safe == "" then s.fileName else safe

/-- The header that names the document. -/
def disposition (s : Settings) (name : String) : String :=
  s!"attachment; filename=\"{safeName s name}\""

end Response

/-- A field of a form; an empty one counts as absent. -/
def Form.field (text : Option String) : Value :=
  match text with
  | some t => if t == "" then .null else .text t
  | none => .null

/-- The options in a form. -/
def Form.options (f : Form) : Value :=
  .map [(.text "file_name", field f.fileName), (.text "header", field f.header),
    (.text "footer", field f.footer), (.text "watermark", field f.watermark)]

/-- Answers a form. -/
def fill (setup : Setup) (f : Form) : Except Fault Response :=
  match f.template with
  | none => .ok .incomplete
  | some template =>
    match DataText.parse (f.data.getD "") with
    | .error fault => if fault.isOwn then .ok (.badData fault) else .error fault
    | .ok data => do
      let report ← generate { setup with data := data } (.bytes template) f.options fun _ => none
      match report.document, report.error with
      | some entries, none =>
        return .document entries report.fileName report.failures.length
          setup.settings.documentType
      | _, fault => return .noDocument (fault.getD .notAnArchive)

/-- The paths of the service. -/
inductive Place where
  | health
  | generation
  deriving DecidableEq, Repr

/-- The place at a path. -/
def Place.named? : String → Option Place
  | "/health" => some health
  | "/generate" | "/api/generate" => some generation
  | _ => none

/-- The place at a path, which may end in slashes. -/
def Place.ofPath? (path : String) : Option Place :=
  match named? path with
  | some place => some place
  | none =>
    if Text.endsWith ['/'] path.toList then
      named? (String.ofList (path.toList.reverse.dropWhile (· == '/')).reverse)
    else none

/-- Answers a request at a path. -/
def respond (setup : Setup) (path : String) (request : Request) : Except Fault Response :=
  match Place.ofPath? path, request with
  | none, _ => .ok .noSuchPath
  | some .health, .get => .ok .healthy
  | some .generation, .post form => fill setup form
  | some _, _ => .ok .wrongMethod

end MailMerge.Service
