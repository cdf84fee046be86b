import MailMerge.Proofs.Generation.Recorded
import MailMerge.Proofs.Generation.Watermarks
import MailMerge.Proofs.Package.Contents
import Mathlib.Data.Nat.Nth

/-! The numbers of watermarks. Each header gets one watermark in front of all else in it, and in the order
of their names the headers get the least numbers that no drawing of the document and the headers had
when the first one was made. This needs the numbers of the drawings to be readable where they are made of
digits.
-/
namespace MailMerge
open Xml Docx Package Generation

/-- Numbers of drawings that are made of digits can be read. -/
def Xml.Element.Numbered (e : Element) : Prop :=
  ∀ d ∈ e.named (place "docPr"), ∀ text ∈ d.attributes.get? (.bare "id"),
    (text != "" && text.toList.all Text.isDigitLike) = true → (numeral? text).isSome = true

instance : DecidablePred Xml.Element.Numbered := fun _ => List.decidableBAll _ _

/-- A part can be read, if there is one, and so can the numbers of its drawings. -/
structure Package.Legible (p : Package) (part : String) : Prop where
  readable : p.hasPart part = true → (p.content? part).isSome = true
  numbered : ∀ e ∈ p.content? part, e.Numbered

/-- Some headers have got watermarks. Of the numbers above the base and above those that were given
before, each header has the least that is not one of some numbers and that no header before it has. -/
structure Session.Marked (setup : Setup) (text : Value) (numbers : List Nat) (parts : List String)
    (s s' : Session) : Prop where
  names_eq : s'.package.names = s.package.names
  others_eq : ∀ part ∉ parts, s'.package.content? part = s.package.content? part
  headers_eq : ∀ k part, parts[k]? = some part → ∃ e w number,
    number = setup.settings.watermarkBase + Nat.nth (fun n => s.watermarks < n ∧
      ∀ m ∈ numbers, (m : Int) ≠ setup.settings.watermarkBase + n) k ∧
    watermark setup.settings text (toString number) = .ok w ∧
    (w.named (place "docPr")).map (·.attributes.get? (.bare "id")) = [some (toString number)] ∧
    s.package.content? part = some e ∧ s'.package.content? part = some (e.putFirst w)

namespace Fill

variable {setup : Setup} {text : Value} {used : List Int} {s : Session}

/-- The numbers that are found in a tree are those of its drawings. -/
theorem drawingNumbers_eq {α : Type} {f : Forest} {owner : NodeId → α} {level : NodeId → Nat}
    (sorted : f.Sorted owner level) {root : NodeId} (numbered : (f.element root).Numbered) :
    drawingNumbers f root = .ok (numbersBy (f.element root)) := by
  let digits (text : String) : Bool := text != "" && text.toList.all Text.isDigitLike
  let textOf (id : NodeId) : String := (f.attribute? id (.bare "id")).getD ""
  have listed : ∀ text ∈ (f.named root (place "docPr")).map textOf, digits text = true →
      (numeral? text).isSome = true := by
    intro text member counts
    obtain ⟨id,inside,rfl⟩ := List.mem_map.mp member
    cases given : f.attribute? id (.bare "id") with
    | none => simp [textOf,given,digits] at counts
    | some text =>
      simp only [textOf,given,Option.getD_some] at counts ⊢
      have drawing : f.element id ∈ (f.element root).named (place "docPr") := by
        rw [Forest.named_element sorted]
        exact List.mem_map_of_mem inside
      refine numbered _ drawing text ?_ counts
      rw [Forest.element_eq sorted]
      exact given
  have read : drawingNumbers f root =
      .ok ((((f.named root (place "docPr")).map textOf).filter digits).filterMap numeral?) := by
    refine mapM_eq_filterMap fun text member => ?_
    obtain ⟨inside,counts⟩ := List.mem_filter.mp member
    obtain ⟨n,known⟩ := Option.isSome_iff_exists.mp (listed text inside counts)
    refine ⟨n,known,?_⟩
    have counts : (text != "" && text.toList.all Text.isDigitLike) = true := counts
    rw [numeral?,if_pos counts] at known
    obtain ⟨m,reading,rfl⟩ := Option.map_eq_some_iff.mp known
    rw [reading]
  have counted (text : String) : (if digits text = true then numeral? text else none) = numeral? text := by
    split
    · rfl
    · next aside => exact (if_neg aside).symm
  rw [read,List.filterMap_filter,funext counted]
  refine congrArg Except.ok ?_
  rw [numbersBy,Forest.seenBy_element sorted,List.filterMap_map,Forest.named,List.filterMap_filter]
  refine List.filterMap_congr fun id _ => ?_
  rw [Forest.seen,number?,Forest.name]
  by_cases drawing : (f.node id).name = place "docPr"
  · simp only [drawing,beq_self_eq_true,if_true,Function.comp_apply,textOf,Forest.attribute?]
    cases (f.node id).attributes.get? (.bare "id") <;> rfl
  · simp [drawing]

/-- The numbers in some parts are listed; reading them changes the contents of none. -/
theorem usedNumbers_run {parts : List String} (coherent : s.package.Coherent)
    (legible : ∀ part ∈ parts, s.package.Legible part) : ∃ q, s.package.Reads q ∧
      usedNumbers parts setup s =
        .ok ((parts.flatMap s.package.numbersIn).map Int.ofNat) { s with package := q } := by
  induction parts generalizing s with
  | nil => exact ⟨s.package,coherent.reads,rfl⟩
  | cons part parts ih =>
    obtain ⟨here,later⟩ := List.forall_mem_cons.mp legible
    -- the first part is read, and the others are legible still
    have rest {p : Package} (reads : s.package.Reads p) : ∃ q, s.package.Reads q ∧
        usedNumbers parts setup { s with package := p } =
          .ok ((parts.flatMap s.package.numbersIn).map Int.ofNat) { s with package := q } := by
      have same : p.numbersIn = s.package.numbersIn := funext fun name => by
        rw [numbersIn,numbersIn,reads.content_eq]
      have held (name : String) : p.hasPart name = s.package.hasPart name := by
        rw [Bool.eq_iff_iff,hasPart_eq_true_iff,hasPart_eq_true_iff,reads.names_eq]
      obtain ⟨q,reads',ran⟩ := @ih { s with package := p } reads.coherent fun name member =>
        ⟨fun known => by rw [reads.content_eq]; exact (later name member).readable (held name ▸ known),
          fun e inside => (later name member).numbered e (reads.content_eq name ▸ inside)⟩
      exact ⟨q,reads.trans reads',same ▸ ran⟩
    rw [usedNumbers,List.flatMap_cons,List.map_append]
    cases content : s.package.content? part with
    | some e =>
      obtain ⟨root,p,ran,reads,-,element⟩ := coherent.root?_of_content content
      obtain ⟨q,reads',ran'⟩ := rest reads
      obtain ⟨owner,level,arranged⟩ := reads.coherent
      have found : drawingNumbers p.forest root = .ok (numbersBy e) :=
        element ▸ drawingNumbers_eq arranged.sorted (element ▸ here.numbered e content)
      refine ⟨q,reads',?_⟩
      rw [bind_ok (onPackage_ok ran)]
      dsimp only
      rw [bind_ok (forest_apply setup _)]
      dsimp only
      rw [found,bind_ok (ofExcept_ok rfl setup _),bind_ok ran',numbersIn,content]
      rfl
    | none =>
      have missing : s.package.hasPart part = false := Bool.eq_false_iff.mpr fun held => by
        simpa [content] using here.readable held
      obtain ⟨q,reads',ran'⟩ := rest coherent.reads
      refine ⟨q,reads',?_⟩
      rw [bind_ok (onPackage_ok (root?_of_missing missing content))]
      dsimp only
      rw [pure_bind,bind_ok ran',numbersIn,content]
      rfl

/-- The next watermark has the least number that is not used. -/
theorem isLeast_freeWatermark (base : Int) (used : List Int) (last : Nat) :
    IsLeast {n : Nat | last < n ∧ base + n ∉ used}
      (freeWatermark base used (used.length + 1) (last + 1)) := by
  refine ⟨⟨Embed.le_firstFree _ _ (last + 1),freeWatermark_free base used (last + 1)⟩,?_⟩
  rintro n ⟨large,new⟩
  by_contra small
  have taken := Embed.of_lt_firstFree (Nat.succ_le_of_lt large) (Nat.lt_of_not_le small)
  exact new (List.contains_iff_mem.mp taken)

/-- The numbers after the least one are counted on from it. -/
theorem nth_succ_of_isLeast {free : Nat → Prop} {last m : Nat}
    (least : IsLeast {n | last < n ∧ free n} m) (k : Nat) :
    Nat.nth (fun n => last < n ∧ free n) (k + 1) = Nat.nth (fun n => m < n ∧ free n) k := by
  have first : Nat.nth (fun n => last < n ∧ free n) 0 = m := by
    rw [Nat.nth_zero]
    exact least.csInf_eq
  induction k using Nat.strongRecOn with
  | ind k ih =>
    rw [Nat.nth_eq_sInf,Nat.nth_eq_sInf]
    congr 1
    ext x
    constructor
    · rintro ⟨⟨-,new⟩,above⟩
      refine ⟨⟨first ▸ above 0 (Nat.succ_pos k),new⟩,fun j before => ?_⟩
      rw [← ih j before]
      exact above (j + 1) (Nat.succ_lt_succ before)
    · rintro ⟨⟨large,new⟩,above⟩
      refine ⟨⟨Nat.lt_trans least.1.1 large,new⟩,fun j before => ?_⟩
      cases j with
      | zero => exact first ▸ large
      | succ j => exact ih j (Nat.lt_of_succ_lt_succ before) ▸ above j (Nat.lt_of_succ_lt_succ before)

/-- One header gets its watermark. -/
theorem watermarkPart_run {part : String} {e w : Element} {n : Nat} (coherent : s.package.Coherent)
    (held : s.package.content? part = some e)
    (next : freeWatermark setup.settings.watermarkBase used (used.length + 1) (s.watermarks + 1) = n)
    (drawn : watermark setup.settings text (toString (setup.settings.watermarkBase + n)) = .ok w) :
    ∃ s', watermarkPart text used part setup s =
        .ok ((setup.settings.watermarkBase + n) :: used) s' ∧
      s'.watermarks = n ∧ s'.package.Coherent ∧ s'.package.names = s.package.names ∧
      ∀ other, s'.package.content? other =
        if other = part then some (e.putFirst w) else s.package.content? other := by
  obtain ⟨root,q,ran,reads,rooting,rfl⟩ := coherent.root?_of_content held
  obtain ⟨coherent',contents⟩ := reads.coherent.putFirst rooting w rfl
  have begun : watermarkPart text used part setup s = (do
      let element ← Generation.ofExcept (watermark setup.settings text
        (toString (setup.settings.watermarkBase + n)))
      let id ← Generation.plant element
      Generation.log .debug s!"Watermark paragraph built for '{text.bare}'"
      Generation.edit (·.insertAt root 0 id)
      Generation.record .watermark text .applied
      return (setup.settings.watermarkBase + n) :: used) setup
        { s with package := q, part := part, watermarks := n } := by
    subst next
    rw [watermarkPart,bind_ok (onPackage_ok ran)]
    rfl
  have made : ∃ journal outcomes, watermarkPart text used part setup s =
      .ok ((setup.settings.watermarkBase + n) :: used) { s with
        package := { q with forest := q.forest.putFirst root w, journal := journal }
        part := part
        watermarks := n
        outcomes := outcomes } := by
    rw [begun,bind_ok (ofExcept_ok drawn setup _)]
    exact ⟨_,_,rfl⟩
  obtain ⟨journal,outcomes,made⟩ := made
  refine ⟨_,made,rfl,coherent'.of_same rfl rfl rfl rfl,reads.names_eq,fun other => ?_⟩
  exact (contents other).trans (by rw [reads.content_eq])

/-- The headers that are left get the numbers that are left. Those that were given are above the last
number, so what is free beyond it is not changed by them. -/
theorem watermarkParts_run {parts : List String} {numbers : List Nat}
    (coherent : s.package.Coherent) (distinct : parts.Nodup)
    (held : ∀ part ∈ parts, (s.package.content? part).isSome = true)
    (listed : ∀ n : Nat, s.watermarks < n → (setup.settings.watermarkBase + n ∉ used ↔
      ∀ m ∈ numbers, (m : Int) ≠ setup.settings.watermarkBase + n))
    (drawable : ∀ number, ∃ w, watermark setup.settings text number = .ok w) :
    ∃ used' s', (forIn parts used fun part used => do
        let used ← watermarkPart text used part
        return .yield used : Generation (List Int)) setup s = .ok used' s' ∧
      s.Marked setup text numbers parts s' := by
  induction parts generalizing used s with
  | nil => exact ⟨used,s,rfl,rfl,fun _ _ => rfl,fun k part inside => by simp at inside⟩
  | cons part parts ih =>
    obtain ⟨fresh,distinct'⟩ := List.nodup_cons.mp distinct
    obtain ⟨e,content⟩ := Option.isSome_iff_exists.mp (held part List.mem_cons_self)
    let base := setup.settings.watermarkBase
    let free (n : Nat) : Prop := ∀ m ∈ numbers, (m : Int) ≠ base + n
    obtain ⟨n,next⟩ : ∃ n, freeWatermark base used (used.length + 1) (s.watermarks + 1) = n :=
      ⟨_,rfl⟩
    have least : IsLeast {n | s.watermarks < n ∧ free n} n := by
      have same : {n : Nat | s.watermarks < n ∧ base + n ∉ used} = {n | s.watermarks < n ∧ free n} :=
        Set.ext fun n => and_congr_right fun beyond => listed n beyond
      exact same ▸ next ▸ isLeast_freeWatermark base used s.watermarks
    obtain ⟨w,drawn⟩ := drawable (toString (base + n))
    obtain ⟨s₁,ran,last_eq,coherent₁,names₁,contents₁⟩ :=
      watermarkPart_run coherent content next drawn
    have other {name : String} (member : name ∈ parts) : name ≠ part := by
      rintro rfl
      exact fresh member
    obtain ⟨used',s',ran',marked⟩ := @ih ((base + n) :: used) s₁ coherent₁ distinct'
      (fun name member => by
        rw [contents₁,if_neg (other member)]
        exact held name (List.mem_cons_of_mem part member))
      (fun m beyond => by
        rw [last_eq] at beyond
        have different : base + (m : Int) ≠ base + n := by omega
        rw [List.mem_cons,not_or]
        exact (and_iff_right different).trans (listed m (Nat.lt_trans least.1.1 beyond)))
    refine ⟨used',s',?_,marked.names_eq.trans names₁,fun name outside => ?_,fun k name inside => ?_⟩
    · rw [List.forIn_cons,bind_assoc,bind_ok ran]
      exact ran'
    · rw [List.mem_cons,not_or] at outside
      rw [marked.others_eq name outside.2,contents₁,if_neg outside.1]
    · cases k with
      | zero =>
        obtain rfl : part = name := by simpa using inside
        refine ⟨e,w,base + n,?_,drawn,ids_watermark drawn,content,?_⟩
        · rw [Nat.nth_zero]
          exact congrArg (fun n : Nat => base + (n : Int)) least.csInf_eq.symm
        · rw [marked.others_eq part fresh,contents₁,if_pos rfl]
      | succ k =>
        have inside' : parts[k]? = some name := by simpa using inside
        obtain ⟨e',w',number,same,drawn',ids,content',marked'⟩ := marked.headers_eq k name inside'
        rw [last_eq,← nth_succ_of_isLeast least k] at same
        rw [contents₁,if_neg (other (List.mem_of_getElem? inside'))] at content'
        exact ⟨e',w',number,same,drawn',ids,content',marked'⟩

/-- Each header gets one watermark. The headers come in the order of their names, and each is given the
least number above the base that neither a drawing of the document and the headers had nor a header
before it got. Nothing else changes in any part. -/
theorem watermarks_mark {parts : List String} (coherent : s.package.Coherent)
    (distinct : s.package.names.Nodup)
    (found : s.package.find setup.settings.headerPattern = .ok parts)
    (legible : ∀ part ∈ documentPart :: parts, s.package.Legible part)
    (drawable : ∀ number, ∃ w, watermark setup.settings text number = .ok w) :
    parts.Pairwise (· < ·) ∧ ∃ s', watermarks text setup s = .ok ⟨⟩ s' ∧
      s.Marked setup text (s.package.numbers setup.settings) parts s' := by
  obtain ⟨pattern,sorted_eq⟩ : ∃ pattern : Text.Pattern,
      parts = sorted (s.package.names.filter pattern.startsText) := by
    unfold find at found
    split at found
    · exact ⟨_,(Except.ok.inj found).symm⟩
    · cases found
  have chosen : (s.package.names.filter pattern.startsText).Nodup := distinct.filter _
  refine ⟨sorted_eq ▸ pairwise_sorted chosen,?_⟩
  have numbers_eq : s.package.numbers setup.settings =
      (documentPart :: parts).flatMap s.package.numbersIn := by
    rw [numbers,numberedParts,found]
    rfl
  cases parts with
  | nil =>
    refine ⟨_,(bind_ok (ofExcept_ok found setup s)).trans rfl,rfl,fun _ _ => rfl,?_⟩
    exact fun k part inside => by simp at inside
  | cons part parts =>
    obtain ⟨q,reads,listing⟩ : ∃ q, s.package.Reads q ∧
        usedNumbers (documentPart :: part :: parts) setup s =
          .ok (((documentPart :: part :: parts).flatMap s.package.numbersIn).map Int.ofNat)
            { s with package := q } := usedNumbers_run coherent legible
    have held : ∀ name ∈ part :: parts, (q.content? name).isSome = true := by
      intro name member
      rw [reads.content_eq]
      refine (legible name (List.mem_cons_of_mem _ member)).readable (hasPart_eq_true_iff.mpr ?_)
      exact (List.mem_filter.mp (mem_sorted.mp (sorted_eq ▸ member))).1
    have free (n : Nat) : setup.settings.watermarkBase + n ∉
        ((documentPart :: part :: parts).flatMap s.package.numbersIn).map Int.ofNat ↔
          ∀ m ∈ s.package.numbers setup.settings, (m : Int) ≠ setup.settings.watermarkBase + n := by
      rw [numbers_eq,List.mem_map]
      refine ⟨fun absent m member same => absent ⟨m,member,same⟩,?_⟩
      rintro apart ⟨m,member,same⟩
      exact apart m member same
    obtain ⟨used,s',ran,marked⟩ := @watermarkParts_run setup text _ { s with package := q } _ _
      reads.coherent (sorted_eq ▸ nodup_sorted chosen) held (fun n _ => free n) drawable
    refine ⟨_,(bind_ok (ofExcept_ok found setup s)).trans
      ((bind_ok listing).trans ((bind_ok ran).trans rfl)),?_,?_,?_⟩
    · exact marked.names_eq.trans reads.names_eq
    · exact fun name outside => (marked.others_eq name outside).trans (reads.content_eq name)
    · intro k name inside
      obtain ⟨e,w,number,same,drawn,ids,content,marked'⟩ := marked.headers_eq k name inside
      exact ⟨e,w,number,same,drawn,ids,(reads.content_eq name).symm.trans content,marked'⟩

/-- A part with a numbered drawing. -/
private def drawn (id : String) : String :=
  "<h xmlns:p=\"" ++ placeSpace ++ "\"><p:docPr id=\"" ++ id ++ "\"/></h>"

/-- A document and two headers, where the document and one header have numbered drawings. -/
private def numbered : Session where
  package := { parts := [("word/header2.xml",Text.encode "<h/>"),
    (documentPart,Text.encode (drawn "3001")),("word/header1.xml",Text.encode (drawn "3003"))] }

theorem watermarks_mark_numbered : numbered.package.Coherent ∧ numbered.package.names.Nodup ∧
    numbered.package.find ({} : Setup).settings.headerPattern =
      .ok ["word/header1.xml","word/header2.xml"] ∧
    (∀ part ∈ [documentPart,"word/header1.xml","word/header2.xml"], numbered.package.Legible part) ∧
    (∀ number, ∃ w, watermark ({} : Setup).settings (.text "DRAFT") number = .ok w) ∧
    ∃ s', watermarks (.text "DRAFT") {} numbered = .ok ⟨⟩ s' ∧
      (∃ e w : Element, s'.package.content? "word/header1.xml" = some (e.putFirst w) ∧
        (w.named (place "docPr")).map (·.attributes.get? (.bare "id")) = [some "3002"]) ∧
      ∃ e w : Element, s'.package.content? "word/header2.xml" = some (e.putFirst w) ∧
        (w.named (place "docPr")).map (·.attributes.get? (.bare "id")) = [some "3004"] := by
  have coherent : numbered.package.Coherent := Fresh.coherent ⟨rfl,rfl,rfl,rfl,rfl⟩
  have distinct : numbered.package.names.Nodup := by decide +kernel
  have found : numbered.package.find ({} : Setup).settings.headerPattern =
      .ok ["word/header1.xml","word/header2.xml"] := by
    rw [find,Text.Pattern.ofText?_header]
    decide +kernel
  have reads (part : String) (numbers : List Nat)
      (holds : (numbered.package.content? part).any (fun e =>
        decide e.Numbered && numbersBy e == numbers) = true) :
      numbered.package.Legible part ∧ numbered.package.numbersIn part = numbers := by
    obtain ⟨e,content,both⟩ := (Option.any_eq_true _ _).mp holds
    obtain ⟨readable,listed⟩ := Bool.and_eq_true_iff.mp both
    refine ⟨⟨fun _ => by rw [content]; rfl,fun e' member => ?_⟩,?_⟩
    · obtain rfl := Option.some.inj (content.symm.trans member)
      exact of_decide_eq_true readable
    · rw [numbersIn,content]
      exact eq_of_beq listed
  obtain ⟨document,numbers⟩ := reads documentPart [3001] (by decide +kernel)
  obtain ⟨header₁,numbers₁⟩ := reads "word/header1.xml" [3003] (by decide +kernel)
  obtain ⟨header₂,numbers₂⟩ := reads "word/header2.xml" [] (by decide +kernel)
  have legible : ∀ part ∈ [documentPart,"word/header1.xml","word/header2.xml"],
      numbered.package.Legible part := by simp [document,header₁,header₂]
  have drawable : ∀ number, ∃ w, watermark ({} : Setup).settings (.text "DRAFT") number = .ok w :=
    fun _ => ⟨_,rfl⟩
  obtain ⟨-,s',ran,marked⟩ := watermarks_mark coherent distinct found legible drawable
  have numbers_eq : numbered.package.numbers ({} : Setup).settings = [3001,3003] := by
    rw [Package.numbers,numberedParts,found]
    simp [Except.toOption,numbers,numbers₁,numbers₂]
  rw [numbers_eq] at marked
  let free (n : Nat) : Prop := 0 < n ∧ ∀ m ∈ ([3001,3003] : List Nat), (m : Int) ≠ 3000 + n
  have first : Nat.nth free 0 = 2 := Nat.nth_count (p := free) (n := 2) (by decide)
  have second : Nat.nth free 1 = 4 := Nat.nth_count (p := free) (n := 4) (by decide)
  refine ⟨coherent,distinct,found,legible,drawable,s',ran,?_,?_⟩
  · obtain ⟨e,w,number,same,-,ids,-,marked⟩ := marked.headers_eq 0 _ rfl
    obtain rfl : number = 3000 + (Nat.nth free 0 : Nat) := same
    exact ⟨e,w,marked,ids.trans (by rw [first]; rfl)⟩
  · obtain ⟨e,w,number,same,-,ids,-,marked⟩ := marked.headers_eq 1 _ rfl
    obtain rfl : number = 3000 + (Nat.nth free 1 : Nat) := same
    exact ⟨e,w,marked,ids.trans (by rw [second]; rfl)⟩

end Fill
end MailMerge
