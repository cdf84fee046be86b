import MailMerge.Fill.Paragraph
import MailMerge.Options

/-! Filling a whole document: headers and footers, watermarks, page breaks, then the paragraphs
outside tables and the tables of the body. What is filled is listed beforehand, so that what a
directive brings in is not searched for directives.
-/
namespace MailMerge.Fill
open Docx

/-- Fills paragraphs one after the other. -/
def paragraphs (ids : List NodeId) : Generation Unit := do
  for id in ids do
    let _ ← paragraph id

/-- Binds a table to its rows and styles them. -/
def tableRows (id : NodeId) : Generation Unit := do
  if let some items ← Table.bind id true then Table.applyRules id items true

/-- Fills a table: binds its rows, then fills its paragraphs, not those of tables in its cells. -/
def table (id : NodeId) : Generation Unit := do
  tableRows id
  paragraphs ((← Generation.forest).outside id paragraphName tableName)

/-- The first paragraph that stands directly below an element, put in front of all else when there
is none. -/
def firstParagraph (root : NodeId) : Generation NodeId := do
  match (← Generation.forest).childNamed? root paragraphName with
  | some first => return first
  | none =>
    let first ← Generation.plant (Docx.paragraph [])
    Generation.edit (·.insertAt root 0 first)
    return first

/-- Fills the tree of a header or footer. Only tables that stand directly in the part are filled. -/
def marginTree (root : NodeId) : Generation Unit := do
  Generation.indexTree root
  let f ← Generation.forest
  paragraphs (f.outside root paragraphName tableName)
  for t in f.childrenNamed root tableName do
    table t

/-- Puts a text into the first paragraph of a header or footer, then fills the part. -/
def marginPart (kind : Directive.Kind) (text : Value) (part : String) : Generation Unit := do
  if let some root ← Generation.onPackage (Packaging.root? part) then
    Generation.moveTo part
    let first ← firstParagraph root
    let text ← Generation.ofExcept text.written
    Generation.edit (·.setParagraphText first text)
    marginTree root
    Generation.record kind (.text part) .applied
    Generation.log .debug s!"Updated {kind.label} part {part}"

/-- Fills all headers or all footers with a text. -/
def margins (kind : Directive.Kind) (pattern : String) (text : Value) : Generation Unit := do
  match ← Generation.ofExcept ((← get).package.find pattern) with
  | [] =>
    Generation.log .warning s!"No {kind.label} files found in the template"
    Generation.moveTo ""
    Generation.record kind (.text kind.label) .skipped s!"template has no {kind.label} parts"
  | parts => for part in parts do marginPart kind text part

/-- The numbers of the drawings in a tree. Those that are not made of digits do not
count; digits that form no numeral are a fault. -/
def drawingNumbers (f : Forest) (root : NodeId) : Except Fault (List Nat) :=
  let ids := (f.named root (place "docPr")).map fun id => (f.attribute? id (.bare "id")).getD ""
  (ids.filter fun id => id != "" && id.toList.all Text.isDigitLike).mapM fun id =>
    match Number.readInt? id.toList with
    | some n => .ok n.toNat
    | none => .error (.breakdown .value)

/-- The number of the next watermark whose drawing number is free, looking at no more than `fuel`
numbers. -/
def freeWatermark (base : Int) (used : List Int) (fuel n : Nat) : Nat :=
  Embed.firstFree (fun n => used.contains (base + n)) fuel n

/-- Puts the watermark into one header; `used` are the drawing numbers that are taken. -/
def watermarkPart (text : Value) (used : List Int) (part : String) : Generation (List Int) := do
  match ← Generation.onPackage (Packaging.root? part) with
  | none => return used
  | some root =>
    Generation.moveTo part
    let s := (← read).settings
    let n := freeWatermark s.watermarkBase used (used.length + 1) ((← get).watermarks + 1)
    modify fun state => { state with watermarks := n }
    let number := s.watermarkBase + n
    let element ← Generation.ofExcept (watermark s text (toString number))
    let id ← Generation.plant element
    Generation.log .debug s!"Watermark paragraph built for '{text.bare}'"
    Generation.edit (·.insertAt root 0 id)
    Generation.record .watermark text .applied
    return number :: used

/-- The drawing numbers in the trees of some parts. -/
def usedNumbers : List String → Generation (List Int)
  | [] => return []
  | part :: parts => do
    let here ← match ← Generation.onPackage (Packaging.root? part) with
      | some root => Generation.ofExcept (drawingNumbers (← Generation.forest) root)
      | none => pure []
    return here.map Int.ofNat ++ (← usedNumbers parts)

/-- Puts a watermark into all headers. -/
def watermarks (text : Value) : Generation Unit := do
  match ← Generation.ofExcept ((← get).package.find (← read).settings.headerPattern) with
  | [] =>
    Generation.log .warning "No header files found to add watermark"
    Generation.moveTo ""
    Generation.record .watermark text .skipped "template has no header parts"
  | parts => do
    let mut used ← usedNumbers (Package.documentPart :: parts)
    for part in parts do
      used ← watermarkPart text used part
    Generation.log .info s!"Watermark added to {parts.length} header part(s)"

/-- Puts page breaks in the place of the paragraphs that ask for one. -/
def pageBreaks (root : NodeId) : Generation Unit := do
  for p in (← Generation.forest).named root paragraphName do
    if Directive.isPageBreak ((← Generation.forest).paragraphText p) then
      let new ← Generation.plant pageBreak
      let _ ← Generation.replace p new
      Generation.record .pageBreak (.text "pagebreak") .applied

/-- Fills the body of a document. -/
def body (id : NodeId) : Generation Unit := do
  let f ← Generation.forest
  paragraphs (f.outside id paragraphName tableName)
  for t in f.named id tableName do
    if ← Generation.isAttached t then table t

/-- Fills headers and footers and puts the watermarks in; gives the root of the document. -/
def opening (o : Options) : Generation NodeId := do
  let s := (← read).settings
  let root ← Generation.onPackage Packaging.document
  let types ← Generation.onPackage Packaging.contentTypes
  let entries := (← Generation.forest).children types
  Generation.log .debug s!"Content types loaded ({entries.length} entries)"
  if o.header.isTruthy then margins .header s.headerPattern o.header
  if o.footer.isTruthy then margins .footer s.footerPattern o.footer
  if o.watermark.isTruthy then watermarks o.watermark
  return root

/-- Goes on to the document and puts the page breaks in its tree. -/
def prepare (root : NodeId) : Generation Unit := do
  Generation.moveTo Package.documentPart
  Generation.indexTree root
  pageBreaks root

/-- Fills the tree of the document. -/
def bodyPass (root : NodeId) : Generation Unit := do
  prepare root
  match (← Generation.forest).childNamed? root bodyName with
  | none => Generation.log .warning "Document has no w:body; nothing to fill"
  | some id => do
    body id
    modify fun state => { state with package := state.package.flush }

/-- Fills a document. -/
def document (o : Options) : Generation Unit := do
  bodyPass (← opening o)

end MailMerge.Fill
