import MailMerge.Data.Whole
import MailMerge.Docx.Chart
import MailMerge.Docx.Watermark
import MailMerge.Image.Format
import MailMerge.Session

/-! Embedding images and charts: the data becomes a part, a relationship leads to it from the
part at work, and the manifest of content types knows it. Numbers whose part or relationship is
already taken are passed over.
-/
namespace MailMerge.Embed
open Docx

/-- The least number from `start` on that is free, looking at no more than `fuel` numbers. -/
def firstFree (isTaken : Nat → Bool) (fuel start : Nat) : Nat :=
  match fuel with
  | 0 => start
  | fuel + 1 => if isTaken start then firstFree isTaken fuel (start + 1) else start

/-- The next free number after `last`: each part and each relationship takes at most one. -/
def nextNumber (p : Package) (links : NodeId) (last : Nat) (part key : Nat → String) : Nat :=
  let keys := p.forest.relationshipIds links
  firstFree (fun n => p.hasPart (part n) || keys.contains (some (key n)))
    (p.parts.length + keys.length + 1) (last + 1)

/-- The file extension under which an image is stored, and whether it was detected: the given one
when it has a content type, otherwise that of the detected format. -/
def imageExtension (s : Settings) (data : ByteArray) (extension : String) :
    Except Fault (String × Bool) :=
  if (s.imageTypes.lookup extension).isSome then .ok (extension, false)
  else match (ImageFormat.ofBytes? data).bind fun f => s.formatExtensions.lookup f.label with
    | some detected => .ok (detected, true)
    | none => .error (.unsupportedImage extension)

/-- The extent of a drawing whose size in pixels is given by values. -/
def extent (s : Settings) (width height : Value) : Except Fault Extent := do
  let w ← width.whole
  let h ← height.whole
  return ⟨← Number.digits (w * s.unitsPerPixel), ← Number.digits (h * s.unitsPerPixel)⟩

/-- Stores an image and gives the paragraph that shows it; the size is in pixels. -/
def image (data : ByteArray) (extension : String) (width height : Value) :
    Generation Xml.Element := do
  let s := (← read).settings
  let (stored, detected) ← Generation.ofExcept (imageExtension s data extension)
  if detected then
    Generation.log .debug s!"URL extension '.{extension}' unknown; Pillow detected '.{stored}'"
  let links ← Generation.onPackage (Packaging.relationshipsOf (← get).part)
  let folder := Path.folder (← get).part
  let file (n : Nat) : String := s!"image{n}.{stored}"
  let part (n : Nat) : String := Path.join (Path.join folder "media") (file n)
  let key (n : Nat) : String := s!"rId{s.imageBase + n}"
  let n := nextNumber (← get).package links (← get).images part key
  modify fun state => { state with images := n, package := state.package.write (part n) data }
  Generation.edit (·.relate links (key n) imageRelation ("media/" ++ file n))
  let types ← Generation.onPackage Packaging.contentTypes
  match s.imageTypes.lookup stored with
  | some type => let _ ← Generation.onPackage (Packaging.ensureDefault types stored type)
  | none => throw (.breakdown .entry)
  Generation.log .info s!"Image added: {file n}, ID: {key n}"
  let extent ← Generation.ofExcept (extent s width height)
  return pictureParagraph (key n) extent (toString (s.imageBase + n))

/-- Fetches an image and embeds it, unless too many were embedded already. -/
def fetched (address : String) (width height : Value) : Generation Xml.Element := do
  let setup ← read
  let s := setup.settings
  if s.maxImages ≤ (← get).images then throw (.imageLimit s.maxImages)
  let data ← Generation.ofExcept (setup.network.fetch s address)
  Generation.log .debug s!"Fetched {address} ({data.size} bytes)"
  let extension ← Generation.ofExcept (Address.extension address s.imageExtension)
  image data extension width height

/-- The text of a part with a chart. -/
def chartText (p : Package) (root : Xml.Element) : String :=
  Package.declaration ++ String.ofList (root.markup p.prefixes)

/-- The content type of charts. -/
def chartType : String := "application/vnd.openxmlformats-officedocument.drawingml.chart+xml"

/-- A size that is given, or else the usual one. -/
def sizeOr (size : Value) (usual : Int) : Value :=
  if size.isTruthy then size else .int usual

/-- Stores a chart and gives the paragraph that shows it; the size is in pixels. -/
def chart (kind : String) (rows : Value) (title : Option String) (width height : Value) :
    Generation Xml.Element := do
  let s := (← read).settings
  let root ← Generation.ofExcept (chartOf s kind rows title)
  let data := Text.encode (chartText (← get).package root)
  let links ← Generation.onPackage (Packaging.relationshipsOf (← get).part)
  let part (n : Nat) : String := s!"word/charts/chart{n}.xml"
  let key (n : Nat) : String := s!"rId{s.chartBase + n}"
  let n := nextNumber (← get).package links (← get).charts part key
  modify fun state => { state with charts := n, package := state.package.write (part n) data }
  let target := Path.relative (part n) (Path.folder (← get).part)
  Generation.edit (·.relate links (key n) chartRelation target)
  let types ← Generation.onPackage Packaging.contentTypes
  let _ ← Generation.onPackage (Packaging.ensureOverride types (part n) chartType)
  Generation.log .info s!"Chart added: {part n}, ID: {key n}"
  let extent ← Generation.ofExcept
    (extent s (sizeOr width s.chartWidth) (sizeOr height s.chartHeight))
  return chartParagraph (key n) extent
    ⟨toString (s.chartBase + n), s!"Chart {n}", titleOf s title⟩

end MailMerge.Embed
