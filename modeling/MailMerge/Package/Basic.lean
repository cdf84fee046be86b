import MailMerge.Archive.Writer
import MailMerge.Docx.Vocabulary
import MailMerge.Journal
import MailMerge.Package.Path
import MailMerge.Text.Pattern
import MailMerge.Tree.Basic
import MailMerge.Xml.Reader
import MailMerge.Xml.RootTag
import MailMerge.Xml.Writer

/-! Packages: the named parts of a document, with the trees of those parts that have been read.
A tree that was asked for counts as touched and is written back when the package is flushed.
-/
namespace MailMerge
open Xml

/-- The tree of a part, with the opening tag that the part had and the namespace it declared as
the default. -/
structure PartTree where
  root : NodeId
  tag : List Char := []
  defaultSpace : String := ""
  deriving Repr, Inhabited

/-- A package. -/
structure Package where
  parts : Archive.Entries := []
  /-- the names of the entries that the package was opened with -/
  order : List String := []
  forest : Forest := {}
  trees : List (String × PartTree) := []
  touched : List String := []
  /-- the roots of the relationship manifests in use, by the names of their parts -/
  manifests : List (String × NodeId) := []
  /-- the root of the manifest of content types, once in use -/
  types : Option NodeId := none
  prefixes : Registry := Docx.knownPrefixes
  journal : Journal := #[]
  deriving Inhabited

/-- Operations on a package. What was done before a fault stays done. -/
abbrev Packaging := EStateM Fault Package

namespace Package

/-- The name of the manifest of content types. -/
def typesPart : String := "[Content_Types].xml"

/-- The name of the document's main part. -/
def documentPart : String := "word/document.xml"

/-- The declaration at the start of every part that is written. -/
def declaration : String := "<?xml version=\"1.0\" encoding=\"UTF-8\" standalone=\"yes\"?>\n"

/-- Puts an entry in the place of the one with its name, or at the end. -/
def store (entries : List (String × α)) (name : String) (value : α) : List (String × α) :=
  if entries.any (·.1 == name) then
    entries.map fun entry => if entry.1 == name then (name, value) else entry
  else entries ++ [(name, value)]

/-- The contents of a part. -/
def part? (p : Package) (name : String) : Option ByteArray :=
  p.parts.lookup name

/-- Whether there is a part with a name. -/
def hasPart (p : Package) (name : String) : Bool :=
  p.parts.any (·.1 == name)

/-- The names of the parts, in order. -/
def names (p : Package) : List String :=
  p.parts.map (·.1)

/-- Adds a message to the journal. -/
def log (p : Package) (level : Level) (message : String) : Package :=
  { p with journal := p.journal.log level message }

/-- Replaces the contents of a part. The tree of the former contents is forgotten. -/
def write (p : Package) (name : String) (data : ByteArray) : Package :=
  { p with
    parts := store p.parts name data
    trees := p.trees.filter (·.1 != name)
    touched := p.touched.filter (· != name) }

/-- Marks the tree of a part as touched. -/
def touch (p : Package) (name : String) : Package :=
  { p with touched := if p.touched.contains name then p.touched else p.touched ++ [name] }

/-- Gives a part a tree made in memory. -/
def setTree (p : Package) (name : String) (root : NodeId) (defaultSpace : String) : Package :=
  { p with
    parts := store p.parts name .empty
    trees := store p.trees name ⟨root, [], defaultSpace⟩ }.touch name

/-- Registers the prefixes that a part declares. -/
def registerAll (p : Package) (declared : List (String × String)) : Package :=
  declared.foldl (fun p (label, space) =>
    if label == "" then p
    else if Registry.isReserved label then
      p.log .debug ("Cannot register reserved prefix " ++ label)
    else { p with prefixes := p.prefixes.register label space }) p

/-- Names sorted by code points. -/
def sorted (names : List String) : List String :=
  Text.sortedBy (fun a b => !(b < a)) names

/-- The names of the parts that a pattern matches, sorted. -/
def find (p : Package) (pattern : String) : Except Fault (List String) :=
  match Text.Pattern.ofText? pattern with
  | some pattern => .ok (sorted (p.names.filter pattern.startsText))
  | none => .error (.breakdown .stream)

/-- The element written with its default namespace declared and not prefixed. -/
def unprefixed (e : Element) (space : String) : Element :=
  let e := e.mapNames fun name => if name.space == some space then .bare name.stem else name
  .mk e.name ((.bare "xmlns", space) :: e.attributes) e.text e.children e.tail

/-- The text of a part with a given root, the opening tag that the part had and its default
namespace. -/
def partText (prefixes : Registry) (tag : List Char) (defaultSpace : String) (e : Element) :
    List Char :=
  let e := if defaultSpace != "" && e.name.space == some defaultSpace then
      unprefixed e defaultSpace
    else e
  let body := e.markup prefixes
  let body := if tag.isEmpty || RootTag.isClosed tag then body else RootTag.restore tag body
  declaration.toList ++ body

/-- The text of a part with a given tree. -/
def treeText (prefixes : Registry) (forest : Forest) (t : PartTree) : List Char :=
  partText prefixes t.tag t.defaultSpace (forest.element t.root)

/-- Writes every touched tree into its part. -/
def flush (p : Package) : Package :=
  let parts := (sorted p.touched).foldl (fun parts name =>
    match p.trees.lookup name with
    | some t => store parts name (Text.encode (String.ofList (treeText p.prefixes p.forest t)))
    | none => parts) p.parts
  { p with parts := parts, touched := [] }

/-- The order in which parts are saved: those that the package was opened with, then the others;
the manifest of content types comes before all of them. -/
def savedNames (p : Package) : List String :=
  let names := p.order.filter p.hasPart ++ p.names.filter fun name => !p.order.contains name
  if names.contains typesPart then typesPart :: names.erase typesPart else names

/-- The entries of the archive that a flushed package is saved as. Every entry has a name. -/
def entries (p : Package) : Except Fault Archive.Entries :=
  p.savedNames.mapM fun name =>
    let short := Archive.shortName name
    if short == "" then .error (.breakdown .position)
    else .ok (short, (p.part? name).getD .empty)

end Package

namespace Packaging
open Package

/-- Adds a message to the journal. -/
def log (level : Level) (message : String) : Packaging Unit :=
  modify (·.log level message)

/-- Changes the forest. -/
def grow (change : Forest → α × Forest) : Packaging α :=
  modifyGet fun p => let (a, f) := change p.forest; (a, { p with forest := f })

/-- Changes the forest without a result. -/
def edit (change : Forest → Forest) : Packaging Unit :=
  modify fun p => { p with forest := change p.forest }

/-- The breakdown that contents lead to which cannot be read. -/
def misread : Misreading → Breakdown
  | .malformed => .markup
  | .unknownEncoding => .naming
  | .wideEncoding => .value

/-- Reads the tree of some contents. The prefixes declared before a mistake are registered. -/
def readTree (data : ByteArray) : Packaging PartTree := do
  let reading := readBytes data
  modify (·.registerAll reading.declared)
  match reading.root with
  | .error problem => throw (.breakdown (misread problem))
  | .ok e =>
    let root ← grow (·.plant e)
    let tag := RootTag.find (Text.decodeReplacing data)
    return ⟨root, tag, String.ofList (RootTag.defaultSpace tag)⟩

/-- The root of a part's tree, which counts as touched from then on. -/
def root? (name : String) : Packaging (Option NodeId) := do
  match (← get).trees.lookup name with
  | some t =>
    modify (·.touch name)
    return some t.root
  | none =>
    match (← get).part? name with
    | none => return none
    | some data =>
      let t ← readTree data
      modify fun p => { p with trees := store p.trees name t }.touch name
      return some t.root

/-- The root of the document. -/
def document : Packaging NodeId := do
  match ← root? documentPart with
  | some root => return root
  | none => throw .missingDocument

/-- Flushes the package and gives the entries of its archive. -/
def save : Packaging Archive.Entries := do
  modify (·.flush)
  match (← get).entries with
  | .ok entries => return entries
  | .error fault => throw fault

end Packaging

namespace Package

/-- Opens a package from the bytes of an archive no larger than a limit. -/
def load (data : ByteArray) (limit : Int) : Except Fault Package :=
  if limit < data.size then .error (.templateTooLarge data.size limit)
  else do
    let parts ← Archive.read data
    let p : Package := { parts := parts, order := parts.map (·.1) }
    if !p.hasPart documentPart then throw .missingDocument
    return p.log .debug s!"Loaded {parts.length} parts from template"

end Package
end MailMerge
