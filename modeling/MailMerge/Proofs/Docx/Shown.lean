import MailMerge.Docx.Chart
import MailMerge.Docx.Watermark
import MailMerge.Table.Build
import MailMerge.Proofs.Fault
import MailMerge.Proofs.Tree.Sorted

/-! What elements show. A picture or a chart is shown by an element that holds the key of a
relationship. Of all that the engine builds, only the paragraphs for pictures and charts show
something, and each of them shows one thing.
-/
namespace MailMerge.Docx
open Xml

/-- What a relationship may be shown as. -/
inductive Shape where
  | image
  | chart
  deriving DecidableEq, Repr

/-- What an element with a name and attributes shows, with the key of the relationship. -/
def shown? (name : Name) (attributes : Attributes) : Option (Shape × String) :=
  if name = drawing "blip" then
    (attributes.get? (.within relationSpace "embed")).map fun key => (.image,key)
  else if name = chart "chart" then
    (attributes.get? (.within relationSpace "id")).map fun key => (.chart,key)
  else none

/-- What is seen of an element and everything below it. -/
def seenBy {β : Type} (look : Name → Attributes → Option β) (e : Element) : List β :=
  e.descendants.filterMap fun e => look e.name e.attributes

/-- What an element and everything below it show. -/
def shownBy (e : Element) : List (Shape × String) :=
  e.descendants.filterMap fun e => shown? e.name e.attributes

section
variable (attributes : Attributes) (stem : String)

theorem shown?_within {space : String} (other : space ≠ drawingSpace)
    (other' : space ≠ chartSpace) : shown? (.within space stem) attributes = none := by
  simp [shown?,drawing,chart,Name.within,other,other']

@[simp] theorem shown?_nil (name : Name) : shown? name [] = none := by
  simp [shown?,Attributes.get?]

@[simp] theorem shown?_main : shown? (main stem) attributes = none :=
  shown?_within attributes stem (by decide) (by decide)

@[simp] theorem shown?_place : shown? (place stem) attributes = none :=
  shown?_within attributes stem (by decide) (by decide)

@[simp] theorem shown?_picture : shown? (picture stem) attributes = none :=
  shown?_within attributes stem (by decide) (by decide)

@[simp] theorem shown?_shape : shown? (shape stem) attributes = none :=
  shown?_within attributes stem (by decide) (by decide)

@[simp] theorem shown?_drawing14 : shown? (.within drawing14Space stem) attributes = none :=
  shown?_within attributes stem (by decide) (by decide)

@[simp] theorem shown?_drawing (other : stem ≠ "blip") :
    shown? (drawing stem) attributes = none := by
  simp [shown?,drawing,chart,Name.within,drawingSpace,chartSpace,other]

@[simp] theorem shown?_blip (key : String) :
    shown? (drawing "blip") [(.within relationSpace "embed",key)] = some (.image,key) := by
  simp [shown?,Attributes.get?]

@[simp] theorem shown?_chart (key : String) :
    shown? (chart "chart") [(.within relationSpace "id",key)] = some (.chart,key) := by
  simp [shown?,Attributes.get?,drawing,chart,Name.within,drawingSpace,chartSpace]

end

@[simp] theorem seenBy_mk {β : Type} (look : Name → Attributes → Option β) (name : Name)
    (attributes : Attributes) (text tail : Option String) (children : List Element) :
    seenBy look (.mk name attributes text children tail) =
      (look name attributes).toList ++ children.flatMap (seenBy look) := by
  simp only [seenBy,Element.descendants_mk,List.filterMap_cons,Element.name,Element.attributes]
  cases look name attributes <;> simp [List.filterMap_flatMap] <;> rfl

@[simp] theorem shownBy_mk (name : Name) (attributes : Attributes) (text tail : Option String)
    (children : List Element) : shownBy (.mk name attributes text children tail) =
      (shown? name attributes).toList ++ children.flatMap shownBy :=
  seenBy_mk shown? name attributes text tail children

/-- What the engine puts into trees, watermarks, pictures and charts apart. -/
inductive Built (s : Settings) : Element → Prop
  | textRun (text : String) : Built s (textRun text)
  | emptyParagraph : Built s (paragraph [])
  | pageBreak : Built s pageBreak
  | table (rows : List Value) (e : Element) (built : Table.build s rows = .ok e) : Built s e
  | cellLook : Built s (.node (main "tcPr") [] [])
  | runLook : Built s (.node (main "rPr") [] [])
  | bold : Built s (.node (main "b") [] [])
  | shading (fill : String) : Built s (.node (main "shd")
    [(main "val","clear"),(main "color","auto"),(main "fill",fill)] [])

/-- Nothing but text and layout is in an element. -/
def Textual (e : Element) : Prop :=
  ∀ x ∈ e.descendants, ∃ stem, x.name = main stem

@[simp] theorem textual_main (stem : String) (attributes : Attributes) (text tail : Option String)
    (children : List Element) :
    Textual (.mk (main stem) attributes text children tail) ↔ ∀ e ∈ children, Textual e := by
  simp only [Textual,Element.descendants_mk,List.forall_mem_cons,Element.name,List.mem_flatMap]
  refine ⟨fun all e member x inside => all.2 x ⟨e,member,inside⟩,fun all => ⟨⟨stem,rfl⟩,?_⟩⟩
  rintro x ⟨e,member,inside⟩
  exact all e member x inside

theorem Textual.seenBy_eq_nil {e : Element} (textual : Textual e) {β : Type}
    {look : Name → Attributes → Option β}
    (blind : ∀ stem attributes, look (main stem) attributes = none) : seenBy look e = [] := by
  rw [seenBy,List.filterMap_eq_nil_iff]
  intro x member
  obtain ⟨stem,named⟩ := textual x member
  rw [named,blind]

private theorem textual_textRun (text : String) (bold : Bool) : Textual (textRun text bold) := by
  cases bold <;> simp [textRun,textElement,Element.node,Element.leaf,runName,textName]

private theorem textual_row (texts : List String) (bold : Bool) :
    Textual (Table.row texts bold) := by
  simp [Table.row,Element.node,rowName,cellName,paragraph,paragraphName,textual_textRun]

private theorem textual_table {s : Settings} {rows : List Value} {e : Element}
    (built : Table.build s rows = .ok e) : Textual e := by
  unfold Table.build at built
  split at built
  · simp at built
  · obtain ⟨body,_,built⟩ := exists_of_bind_eq_ok built
    obtain rfl := Except.ok.inj built
    simp [Element.node,tableName,Table.properties,Table.borders,Table.grid,textual_row]
  · simp at built

theorem Built.textual {s : Settings} {e : Element} (built : Built s e) : Textual e := by
  cases built with
  | textRun text => exact textual_textRun text false
  | table rows e built => exact textual_table built
  | emptyParagraph => simp [paragraph,Element.node,paragraphName]
  | pageBreak => simp [Docx.pageBreak,paragraph,Element.node,paragraphName,runName]
  | cellLook | runLook | bold | shading => simp [Element.node]

/-- What no edit brings in or takes away: it is not seen of text and layout nor of an element
without attributes, and whether blanks are kept makes no difference. -/
structure Steady {β : Type} (look : Name → Attributes → Option β) : Prop where
  blank : ∀ name, look name [] = none
  blind : ∀ stem attributes, look (main stem) attributes = none
  keepBlanks : ∀ name (attributes changed : Attributes),
    (∀ other, other ≠ keepBlanksName → changed.get? other = attributes.get? other) →
      look name changed = look name attributes

theorem steady_shown : Steady shown? where
  blank := shown?_nil
  blind stem attributes := shown?_main attributes stem
  keepBlanks name attributes changed same := by
    have embed := same (.within relationSpace "embed") (by decide)
    have id := same (.within relationSpace "id") (by decide)
    simp only [shown?,embed,id]

theorem Built.shownBy_eq_nil {s : Settings} {e : Element} (built : Built s e) :
    shownBy e = [] :=
  built.textual.seenBy_eq_nil steady_shown.blind

theorem shownBy_watermark {s : Settings} {text : Value} {number : String} {e : Element}
    (built : watermark s text number = .ok e) : shownBy e = [] := by
  obtain ⟨turn,_,built⟩ := exists_of_bind_eq_ok built
  obtain ⟨text,_,built⟩ := exists_of_bind_eq_ok built
  obtain rfl := Except.ok.inj built
  simp [watermarkText,paragraph,Element.node,Element.leaf,paragraphName,runName,plainNode,
    graphic,noEffect,frameLocks,boundlessRectangle,atPageStart,textElement,textName]

theorem shownBy_picture (key : String) (extent : Extent) (number : String) :
    shownBy (pictureParagraph key extent number) = [(.image,key)] := by
  simp [pictureParagraph,inlineDrawing,paragraph,Element.node,paragraphName,runName,plainNode,
    graphic,noEffect,frameLocks,boundlessRectangle]

theorem shownBy_chart (key : String) (extent : Extent) (caption : Caption) :
    shownBy (chartParagraph key extent caption) = [(.chart,key)] := by
  simp [chartParagraph,inlineDrawing,paragraph,Element.node,paragraphName,runName,plainNode,
    graphic,noEffect,frameLocks]

end MailMerge.Docx
