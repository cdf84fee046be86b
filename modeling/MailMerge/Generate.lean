import MailMerge.Fill.Document
import MailMerge.Package.Blank

/-! Generating a document: the template is opened, filled and saved. Whatever goes wrong ends in
the report; only options that cannot be read are refused.
-/
namespace MailMerge

/-- Where the bytes of a template come from. -/
inductive Source where
  | bytes (data : ByteArray)
  /-- a path at which there is no file -/
  | missing (path : String)
  /-- a file that cannot be read -/
  | unreadable (fault : Fault)
  /-- a stream of text -/
  | textStream
  /-- a value of a kind that is no template -/
  | other (kind : String)
  deriving Inhabited

/-- The bytes of a template. -/
def Source.read : Source → Except Fault ByteArray
  | .bytes data => .ok data
  | .missing path => .error (.templateNotFound path)
  | .unreadable fault => .error fault
  | .textStream => .error .templateIsText
  | .other kind => .error (.unsupportedTemplate kind)

/-- Where a document is saved, and what stands in the way if anything does. -/
structure Destination where
  path : String
  obstacle : Option Fault := none
  deriving Repr, Inhabited

/-- What became of a generation. -/
structure Report where
  fileName : String
  document : Option Archive.Entries := none
  /-- where the document was saved -/
  path : Option String := none
  error : Option Fault := none
  outcomes : List Outcome := []
  journal : Journal := #[]
  deriving Inhabited

namespace Report

/-- There is a document and no error. -/
def succeeded (r : Report) : Bool :=
  r.document.isSome && r.error.isNone

/-- The outcomes with a status. -/
def withStatus (r : Report) (status : Status) : List Outcome :=
  r.outcomes.filter (·.status == status)

/-- The directives that failed. -/
def failures (r : Report) : List Outcome :=
  r.withStatus .failed

/-- The directives that were applied. -/
def applied (r : Report) : List Outcome :=
  r.withStatus .applied

/-- The outcomes of one kind. -/
def ofKind (r : Report) (kind : Directive.Kind) : List Outcome :=
  r.outcomes.filter (·.kind == kind)

end Report

namespace Generate

/-- Null data is no data. -/
def dataOf : Value → Value
  | .null => .map []
  | v => v

/-- Fills an opened package and gives the entries of the document, with the state at the end. -/
def fill (setup : Setup) (o : Options) (p : Package) : Except Fault Archive.Entries × Session :=
  let steps : Generation Archive.Entries := do
    Fill.document o
    Generation.onPackage Packaging.save
  match steps { setup with data := dataOf setup.data } { package := p } with
  | .ok entries s => (.ok entries, s)
  | .error fault s => (.error fault, s)

/-- Saves a document at a destination. -/
def save (destination : Option Destination) (entries : Archive.Entries) (journal : Journal) :
    Except Fault (Option String) × Journal :=
  match destination with
  | none => (.ok none, journal)
  | some ⟨_, some obstacle⟩ => (.error obstacle, journal)
  | some ⟨path, none⟩ =>
    let size := (Archive.write entries).size
    (.ok (some path), journal.log .info s!"Saved {path} ({size} bytes)")

/-- The report of a generation that failed. A breakdown has no message of its own, so the journal
only tells that there was one. -/
def failed (r : Report) (fault : Fault) : Report :=
  let message := if fault.isOwn then ": " ++ fault.message else ""
  { r with
    document := none
    path := none
    error := some fault
    journal := r.journal.log .error ("Error generating document" ++ message) }

/-- The report of a generation that came to its end. -/
def finished (r : Report) (entries : Archive.Entries) (path : Option String) : Report :=
  { r with
    document := some entries
    path := path
    journal := r.journal.log .info (s!"Document generation completed successfully: {r.fileName} " ++
      s!"({r.failures.length} failed directive(s))") }

/-- Generates a document under a file name. -/
def named (setup : Setup) (source : Source) (o : Options) (fileName : String)
    (destination : Option Destination) : Report :=
  let r : Report := { fileName := fileName }
  match source.read >>= (Package.load · setup.settings.maxTemplateSize) with
  | .error fault => failed r fault
  | .ok p =>
    match fill setup o p with
    | (.error fault, s) =>
      failed { r with outcomes := s.outcomes, journal := s.package.journal } fault
    | (.ok entries, s) =>
      match save destination entries s.package.journal with
      | (.error fault, journal) =>
        failed { r with outcomes := s.outcomes, journal := journal } fault
      | (.ok path, journal) =>
        finished { r with outcomes := s.outcomes, journal := journal } entries path

end Generate

/-- Generates a document. The destination depends on the file name. -/
def generate (setup : Setup) (source : Source) (options : Value)
    (destination : String → Option Destination) : Except Fault Report := do
  let o ← Options.ofValue options
  let fileName ← o.resolvedFileName setup.settings
  return Generate.named setup source o fileName (destination fileName)

end MailMerge
