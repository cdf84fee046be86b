import MailMerge.Proofs.Docx.Shown
import MailMerge.Proofs.Number.Numeral
import MailMerge.Proofs.Xml.Attributes
import MailMerge.Proofs.Tree.Paths
import MailMerge.Proofs.Tree.Shown
import MailMerge.Proofs.Package.Parts
import Mathlib.Data.List.Nodup
import Mathlib.Data.List.Pairwise

/-! The numbers of drawings. A drawing is numbered by an attribute whose text is made of digits. Of
all that the engine builds, the paragraphs for pictures, charts and watermarks have a drawing, and each
of them has one, with the number that it was given.
-/
namespace MailMerge.Docx
open Xml

/-- The number that a text stands for, if it is made of digits that form a numeral. -/
def numeral? (text : String) : Option Nat :=
  if text != "" && text.toList.all Text.isDigitLike then
    (Number.readInt? text.toList).map Int.toNat
  else none

/-- Decimal digits are the number that they write, if they are not too many. -/
theorem numeral?_digits {text : String} (present : text ≠ "")
    (plain : ∀ c ∈ text.toList, c.isDigit = true)
    (short : text.length ≤ Number.maxIntegerDigits) :
    numeral? text = some (Nat.ofDigitChars 10 text.toList 0) := by
  have digits : text.toList.all Text.isDigitLike = true := List.all_eq_true.mpr fun c member => by
    simp [Text.isDigitLike,Text.isDecimal,Text.digitValue?,plain c member]
  have some : text.toList ≠ [] := fun none => present (String.toList_eq_nil_iff.mp none)
  rw [numeral?,Number.readInt?_digits some plain,String.length_toList,
    if_neg (Nat.not_lt.mpr short)]
  simp [present,digits]

/-- The number of the drawing that an element with a name and attributes stands for. -/
def number? (name : Name) (attributes : Attributes) : Option Nat :=
  if name = place "docPr" then (attributes.get? (.bare "id")).bind numeral? else none

/-- The numbers of the drawings in an element. -/
def numbersBy (e : Element) : List Nat :=
  seenBy number? e

/-- A number is read from the text that it is written as. -/
theorem eq_of_numeral?_toString {n : Int} {k : Nat} (reading : numeral? (toString n) = some k) :
    (k : Int) = n := by
  cases n with
  | ofNat m =>
    have written : toString (Int.ofNat m) = m.repr := rfl
    rw [written,numeral?] at reading
    split at reading
    · obtain ⟨read,found,same⟩ := Option.map_eq_some_iff.mp reading
      rw [Number.eq_of_readInt?_repr found] at same
      exact congrArg Int.ofNat same.symm
    · simp at reading
  | negSucc m =>
    have written : toString (Int.negSucc m) = "-" ++ (m + 1).repr := rfl
    have minus : Text.isDigitLike '-' = false := by decide +kernel
    simp [written,numeral?,minus] at reading

section
variable (attributes : Attributes) (stem : String)

theorem number?_within {space : String} (other : space ≠ placeSpace) :
    number? (.within space stem) attributes = none := by
  simp [number?,place,Name.within,other]

@[simp] theorem number?_nil (name : Name) : number? name [] = none := by
  simp [number?,Attributes.get?]

@[simp] theorem number?_main : number? (main stem) attributes = none :=
  number?_within attributes stem (by decide)

@[simp] theorem number?_drawing : number? (drawing stem) attributes = none :=
  number?_within attributes stem (by decide)

@[simp] theorem number?_picture : number? (picture stem) attributes = none :=
  number?_within attributes stem (by decide)

@[simp] theorem number?_chart : number? (chart stem) attributes = none :=
  number?_within attributes stem (by decide)

@[simp] theorem number?_shape : number? (shape stem) attributes = none :=
  number?_within attributes stem (by decide)

@[simp] theorem number?_drawing14 : number? (.within drawing14Space stem) attributes = none :=
  number?_within attributes stem (by decide)

@[simp] theorem number?_place (other : stem ≠ "docPr") :
    number? (place stem) attributes = none := by
  simp [number?,place,Name.within,other]

@[simp] theorem number?_caption (c : Caption) :
    number? (place "docPr") (plainAttributes c.attributes) = numeral? c.number := by
  simp [number?,plainAttributes,Caption.attributes,Attributes.get?_cons]

end

theorem steady_number : Steady number? where
  blank := number?_nil
  blind stem attributes := number?_main attributes stem
  keepBlanks name attributes changed same := by
    simp only [number?,same (.bare "id") (by decide)]

@[simp] theorem numbersBy_mk (name : Name) (attributes : Attributes) (text tail : Option String)
    (children : List Element) : numbersBy (.mk name attributes text children tail) =
      (number? name attributes).toList ++ children.flatMap numbersBy :=
  seenBy_mk number? name attributes text tail children

theorem numbersBy_picture (key : String) (extent : Extent) (number : String) :
    numbersBy (pictureParagraph key extent number) = (numeral? number).toList := by
  simp [pictureParagraph,inlineDrawing,paragraph,Element.node,paragraphName,runName,plainNode,
    graphic,noEffect,frameLocks,boundlessRectangle]

theorem numbersBy_chart (key : String) (extent : Extent) (caption : Caption) :
    numbersBy (chartParagraph key extent caption) = (numeral? caption.number).toList := by
  simp [chartParagraph,inlineDrawing,paragraph,Element.node,paragraphName,runName,plainNode,
    graphic,noEffect,frameLocks]

theorem numbersBy_watermark {s : Settings} {text : Value} {number : String} {e : Element}
    (built : watermark s text number = .ok e) : numbersBy e = (numeral? number).toList := by
  obtain ⟨turn,_,built⟩ := exists_of_bind_eq_ok built
  obtain ⟨text,_,built⟩ := exists_of_bind_eq_ok built
  obtain rfl := Except.ok.inj built
  simp [watermarkText,paragraph,Element.node,Element.leaf,paragraphName,runName,plainNode,
    graphic,noEffect,frameLocks,boundlessRectangle,atPageStart,textElement,textName]

/-- A watermark has one drawing, with the number that it was given. -/
theorem ids_watermark {s : Settings} {text : Value} {number : String} {e : Element}
    (built : watermark s text number = .ok e) :
    (e.named (place "docPr")).map (·.attributes.get? (.bare "id")) = [some number] := by
  obtain ⟨turn,_,built⟩ := exists_of_bind_eq_ok built
  obtain ⟨text,_,built⟩ := exists_of_bind_eq_ok built
  obtain rfl := Except.ok.inj built
  simp [Element.named,Element.descendants_mk,watermarkText,paragraph,Element.node,Element.leaf,
    paragraphName,runName,plainNode,graphic,noEffect,frameLocks,boundlessRectangle,atPageStart,
    textElement,textName,Element.name,Element.attributes,place,main,shape,drawing,Name.within,
    plainAttributes,Caption.attributes,Attributes.get?_cons]

end MailMerge.Docx

/-! Numbered drawings in a tree. What counts are the drawings that are reached from the roots of the
trees or from the last element that was planted, which may still get a place in a tree; all others are
out of the trees for good. No edit brings in a number.
-/
namespace MailMerge
open Xml Docx Forest Relation

namespace Grove

/-- A drawing of a part with a number is reached from one of some elements. -/
structure Bears (g : Grove) (start : NodeId → Prop) (part : String) (id : NodeId) (k : Nat) :
    Prop where
  owned : g.owner id = part
  numbered : g.forest.seen number? id = some k
  path : ∃ r, start r ∧ g.forest.Below r id

/-- A drawing is reached from one of some elements or from the last one that was planted. -/
def Live (g : Grove) (known : NodeId → Prop) : String → NodeId → Nat → Prop :=
  g.Bears fun r => known r ∨ r + 1 = g.forest.nodes.size

variable {s : Settings} {part other : String} {g h : Grove} {start start' known : NodeId → Prop}
  {id : NodeId} {k : Nat}

namespace Bears

theorem inside (bears : g.Bears start part id k) : id < g.forest.nodes.size := by
  by_contra large
  have blank := seen_of_size_le number?_nil g.forest (Nat.le_of_not_lt large)
  simp [bears.numbered] at blank

theorem mono (bears : g.Bears start part id k) (implies : ∀ r, start r → start' r) :
    g.Bears start' part id k :=
  ⟨bears.owned,bears.numbered,bears.path.imp fun r => And.imp_left (implies r)⟩

theorem live (bears : g.Bears known part id k) : g.Live known part id k :=
  bears.mono fun _ => Or.inl

/-- What is reached in a part that was spared was reached before, or is new. -/
theorem of_spared (bears : h.Bears start' part id k) (sorted : h.Sorted) (spares : Spares part g h)
    (starts : ∀ r, start' r → start r ∨ g.forest.nodes.size ≤ r) :
    g.Bears start part id k ∨ g.forest.nodes.size ≤ id := by
  obtain ⟨later,same,fresh⟩ := spares
  obtain ⟨owned,numbered,r,begins,path⟩ := bears
  have former (n : NodeId) (path : h.forest.Below r n) : n < g.forest.nodes.size →
      h.owner n = part → g.forest.Below r n ∧ r < g.forest.nodes.size := by
    induction path with
    | refl => exact fun old _ => ⟨ReflTransGen.refl,old⟩
    | @tail m n _ here ih =>
      intro old owned
      have old_m : m < g.forest.nodes.size := by
        by_contra large
        exact Nat.not_lt.mpr (fresh m n (Nat.le_of_not_lt large) here) old
      have owned_m : h.owner m = part := (sorted.below m n here).2.1.symm.trans owned
      have node_eq := same m old_m ((later.owner_eq m old_m).symm.trans owned_m)
      obtain ⟨path,old_r⟩ := ih old_m owned_m
      refine ⟨path.tail ?_,old_r⟩
      rw [Child,children,← node_eq]
      exact here
  rcases Nat.lt_or_ge id g.forest.nodes.size with old | new
  · obtain ⟨path,old_r⟩ := former id path old owned
    have owned' := (later.owner_eq id old).symm.trans owned
    refine Or.inl ⟨owned',?_,r,(starts r begins).resolve_right (Nat.not_le.mpr old_r),path⟩
    rw [seen,← same id old owned']
    exact numbered
  · exact Or.inr new

/-- What is reached after an element was planted was reached before from what is known, or counts in
the element. -/
theorem of_plant {e : Element} (sorted : g.Sorted) (live : (g.plant other e).Live known part id k)
    {known' : NodeId → Prop} (knows : ∀ r, known r → known' r ∨ g.forest.nodes.size ≤ r) :
    g.Bears known' part id k ∨ (g.forest.nodes.size ≤ id ∧ other = part ∧ k ∈ numbersBy e) := by
  obtain ⟨_,new,last⟩ := grown_plant g.forest e
  refine (of_spared live (sorted.plant other e) (spares_plant g part other e) ?_).imp_right ?_
  · rintro r (known | here)
    · exact knows r known
    · have same : r + 1 = (g.forest.plant e).1 + 1 := here.trans last.symm
      exact Or.inr (Nat.add_right_cancel same ▸ new)
  · intro new
    exact ⟨new,(ownedFrom_of_le new).symm.trans live.owned,
      mem_seenBy number?_nil new live.numbered⟩

end Bears

section
variable {parent new : NodeId} {before after : List NodeId}
  (inside : parent < g.forest.nodes.size) (split : g.forest.children parent = before ++ after)
include inside split

/-- A path in a tree that got an element is one in the tree before, or one from that element. -/
theorem below_put {r : NodeId}
    (path : (g.setChildren parent (before ++ new :: after)).forest.Below r id) :
    g.forest.Below r id ∨ g.forest.Below new id := by
  induction path with
  | refl => exact Or.inl ReflTransGen.refl
  | @tail m n _ here ih =>
    rw [Child,children_setChildren g inside] at here
    split at here
    · next same =>
      subst same
      have placed : n = new ∨ g.forest.Child m n := by
        rw [Child,split]
        grind
      rcases placed with rfl | child
      · exact Or.inr ReflTransGen.refl
      · exact ih.imp (·.tail child) (·.tail child)
    · exact ih.imp (·.tail here) (·.tail here)

/-- What is reached after an element got a place was reached before, or from that element. -/
theorem Bears.of_put
    (bears : (g.setChildren parent (before ++ new :: after)).Bears start part id k) :
    g.Bears (fun r => start r ∨ r = new) part id k := by
  obtain ⟨owned,numbered,r,begins,path⟩ := bears
  have kept : (g.setChildren parent (before ++ new :: after)).forest.seen number? id =
      g.forest.seen number? id := g.forest.seen_update parent id fun _ => rfl
  refine ⟨owned,kept.symm.trans numbered,?_⟩
  rcases below_put inside split path with path | path
  · exact ⟨r,Or.inl begins,path⟩
  · exact ⟨new,Or.inr rfl,path⟩

end

/-- Elements that are reached after an edit, and count, were reached and counted before. -/
theorem Edit.live (sorted : g.Sorted) (step : Edit s other g h)
    (live : h.Live known part id k) : g.Live known part id k := by
  have numbered := (step.seen_eq steady_number id).symm.trans live.numbered
  have sorted' := sorted.edit step
  cases step with
  | plant built =>
    refine (Bears.of_plant sorted live fun r => Or.inl).elim Bears.live ?_
    rintro ⟨_,_,counts⟩
    simp [numbersBy,built.textual.seenBy_eq_nil steady_number.blind] at counts
  | @take parent ids inside fewer =>
    obtain ⟨owned,_,r,begins,path⟩ := live
    refine ⟨owned,numbered,r,?_,ReflTransGen.mono (fun m n here => ?_) _ _ path⟩
    · simpa [setChildren,withForest,updateChildren] using begins
    · rw [Child,children_setChildren g inside.1] at here
      split at here
      · next same => exact same ▸ fewer.subset here
      · exact here
  | @put parent new before after inside split within deeper loose last =>
    refine (Bears.of_put inside.1 split live).mono ?_
    rintro r ((knows | here) | rfl)
    · exact Or.inl knows
    · exact Or.inr (by simpa [setChildren,withForest,updateChildren] using here)
    · exact Or.inr last
  | @write n text inside =>
    obtain ⟨owned,_,r,begins,path⟩ := live
    refine ⟨owned,numbered,r,?_,ReflTransGen.mono (fun a b here => ?_) _ _ path⟩
    · simpa [withForest,setText] using begins
    · have same : (g.forest.setText n text).children a = g.forest.children a := children_update _ n a fun _ => rfl
      rwa [Child,← same]

theorem Edits.live (sorted : g.Sorted) (steps : Edits s other g h)
    (live : h.Live known part id k) : g.Live known part id k := by
  induction steps with
  | refl => exact live
  | tail steps step ih => exact ih (step.live (sorted.edits steps) live)

end Grove
end MailMerge

/-! The drawings of the document and of the headers are numbered together.
-/
namespace MailMerge
open Xml Docx Text

namespace Package

/-- The parts whose drawings are numbered together: the document and the headers. -/
def numberedParts (p : Package) (s : Settings) : List String :=
  documentPart :: (p.find s.headerPattern).toOption.getD []

/-- What a part contains: the tree that was read from it as it is now, or else what can be read. -/
def content? (p : Package) (part : String) : Option Element :=
  match p.trees.lookup part with
  | some t => some (p.forest.element t.root)
  | none => (p.part? part).bind fun data => (readBytes data).root.toOption

/-- The numbers of the drawings in a part. -/
def numbersIn (p : Package) (part : String) : List Nat :=
  (p.content? part).elim [] numbersBy

/-- The numbers of the drawings in the document and in the headers. -/
def numbers (p : Package) (s : Settings) : List Nat :=
  (p.numberedParts s).flatMap p.numbersIn

end Package

/-- A number that the drawing of an image or of a chart gets, up to some counts of them. -/
def Settings.Gives (s : Settings) (images charts : Nat) (k : Int) : Prop :=
  (s.imageBase < k ∧ k ≤ s.imageBase + images) ∨ (s.chartBase < k ∧ k ≤ s.chartBase + charts)

namespace Package

/-- The drawings of a package have numbers of their own, none of which is given to one of some images
and charts, and these do not run into each other or into the watermarks. -/
structure LeavesRoom (p : Package) (s : Settings) (images charts : Nat) : Prop where
  distinct : (p.numbers s).Nodup
  apart : ∀ k ∈ p.numbers s, ¬ s.Gives images charts k
  images_below : s.imageBase + images ≤ s.chartBase
  charts_below : s.chartBase + charts ≤ s.watermarkBase

section
variable {p q : Package} {s : Settings} {part : String} {created : List String}
  (usual : s.headerPattern = ({} : Settings).headerPattern)
include usual

private theorem numberedParts_eq : p.numberedParts s = documentPart :: sorted (p.names.filter
    (Pattern.numbered "word/header".toList ".xml".toList).startsText) := by
  simp [numberedParts,find,usual,Pattern.ofText?_header,Except.toOption]

theorem isDirect_of_mem_numberedParts (member : part ∈ p.numberedParts s) : IsDirect part := by
  rw [numberedParts_eq usual] at member
  rcases List.mem_cons.mp member with rfl | found
  · exact isDirect_document
  · rw [mem_sorted,List.mem_filter] at found
    exact isDirect_of_numbered "header" (by decide) found.2

theorem hasPart_of_mem_numberedParts (member : part ∈ p.numberedParts s)
    (other : part ≠ documentPart) : p.hasPart part = true := by
  rw [numberedParts_eq usual] at member
  have found := (List.mem_cons.mp member).resolve_left other
  have named := (List.mem_filter.mp (mem_sorted.mp found)).1
  simpa [hasPart,names] using named

theorem nodup_numberedParts (distinct : p.names.Nodup) : (p.numberedParts s).Nodup := by
  rw [numberedParts_eq usual,List.nodup_cons,mem_sorted]
  refine ⟨?_,(sortedBy_perm _ _).nodup_iff.mpr (distinct.filter _)⟩
  intro member
  have matched := (List.mem_filter.mp member).2
  revert matched
  decide

/-- Parts that do not stand in the folder of the document are no numbered parts. -/
theorem numberedParts_append (names : q.names = p.names ++ created)
    (aside : ∀ name ∈ created, ¬ IsDirect name) : q.numberedParts s = p.numberedParts s := by
  have none : created.filter (Pattern.numbered "word/header".toList ".xml".toList).startsText =
      [] := by
    rw [List.filter_eq_nil_iff]
    intro name member matched
    exact aside name member (isDirect_of_numbered "header" (by decide) matched)
  rw [numberedParts_eq usual,numberedParts_eq usual,names,List.filter_append,none,List.append_nil]

end

namespace LeavesRoom

variable {p : Package} {s : Settings} {images charts : Nat} (room : p.LeavesRoom s images charts)
  {part part' : String}
include room

theorem nodup_numbersIn (member : part ∈ p.numberedParts s) : (p.numbersIn part).Nodup :=
  (List.nodup_flatMap.mp room.distinct).1 part member

/-- No number is in two parts. -/
theorem part_eq (member : part ∈ p.numberedParts s) (member' : part' ∈ p.numberedParts s) {k : Nat}
    (inside : k ∈ p.numbersIn part) (inside' : k ∈ p.numbersIn part') : part = part' := by
  by_contra different
  have disjoint := (List.nodup_flatMap.mp room.distinct).2
  have symmetric : Std.Symm (Function.onFun List.Disjoint p.numbersIn) :=
    ⟨fun _ _ apart _ first second => apart second first⟩
  exact disjoint.forall member member' different inside inside'

theorem not_gives (member : part ∈ p.numberedParts s) {k : Nat} (inside : k ∈ p.numbersIn part) :
    ¬ s.Gives images charts k :=
  room.apart k (List.mem_flatMap.mpr ⟨part,member,inside⟩)

end LeavesRoom
end Package
end MailMerge
