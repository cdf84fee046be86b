import MailMerge.Directive.Scan
import MailMerge.Fault
import MailMerge.Proofs.Directive.Tags
import Mathlib.Data.List.Infix

/-! A text whose placeholders are filled in. Where the braces of the text do not nest and no value that is
put in has an opening brace, no directive of any kind begins in the new text: each opening brace in it comes
from the old text, and up to the closing brace that follows it the two texts are the same.
-/
namespace MailMerge.Directive
open Text

/-- A text without its placeholders: in the place of each stands the text that is given for its key. -/
inductive Fills (gives : String → Except Fault String) : List Char → List Char → List String → Prop
  | nil : Fills gives [] [] []
  | keep {c : Char} {rest out : List Char} {keys : List String}
    (plain : ∀ key after, IsKey key → c :: rest ≠ '\x7b' :: key ++ '\x7d' :: after)
    (more : Fills gives rest out keys) : Fills gives (c :: rest) (c :: out) keys
  | fill {key rest out : List Char} {new : String} {keys : List String} (isKey : IsKey key)
    (given : gives (String.ofList (trim key)) = .ok new) (more : Fills gives rest out keys) :
    Fills gives ('\x7b' :: key ++ '\x7d' :: rest) (new.toList ++ out)
      (String.ofList (trim key) :: keys)

def written (result : Except Fault String) : List Char :=
  match result with
  | .ok text => text.toList
  | .error _ => []

variable {β : Type} {gives : String → Except Fault String} {text rest out : List Char} {keys : List String}

theorem plain_iff {c : Char} : (∀ key after, IsKey key → c :: rest ≠ '\x7b' :: key ++ '\x7d' :: after) ↔
    placeholder? (c :: rest) = none := by
  rw [Option.eq_none_iff_forall_not_mem]
  constructor
  · rintro plain ⟨value,after⟩ reads
    obtain ⟨key,isKey,split,-⟩ := placeholder?_eq_some_iff.mp reads
    exact plain key after isKey split
  · intro silent key after isKey split
    exact silent _ (placeholder?_eq_some_iff.mpr ⟨key,isKey,split,rfl⟩)

/-- Substitution for the placeholders that are found fills a text in. -/
theorem Finds.fills {start : Nat} {found : List (Found Placeholder)}
    (finds : Finds placeholder? start text found)
    (given : ∀ f ∈ found, ∃ new, gives f.value.key = .ok new) :
    Fills gives text (substitute.go start text (found.map fun f => (f,written (gives f.value.key))))
      (found.map (·.value.key)) := by
  induction finds with
  | nil => exact .nil
  | pass silent more ih =>
    rw [more.go_pass (List.Subset.refl _)]
    exact .keep (plain_iff.mpr silent) (ih given)
  | @read start value raw rest found some reads more ih =>
    obtain ⟨⟨new,here⟩,later⟩ := List.forall_mem_cons.mp given
    obtain ⟨key,isKey,split,rfl⟩ := placeholder?_eq_some_iff.mp reads
    obtain rfl : raw = '\x7b' :: key ++ ['\x7d'] := by
      refine List.append_cancel_right (split.trans ?_)
      simp
    rw [List.map_cons,go_read,List.map_cons,here,List.append_assoc]
    exact .fill isKey here (ih later)

/-- Between an opening brace and the next closing one there is no other opening brace. -/
def Unnested (text : List Char) : Prop :=
  ∀ before inside after, text = before ++ '\x7b' :: inside ++ '\x7d' :: after → '\x7d' ∉ inside →
    '\x7b' ∉ inside

theorem unnested_iff : Unnested text ↔ ∀ tail ∈ text.tails, tail.head? = some '\x7b' →
    '\x7d' ∈ tail → '\x7b' ∉ (tail.drop 1).takeWhile (· != '\x7d') := by
  constructor
  · intro unnested tail member first closed
    obtain ⟨rest,rfl⟩ := List.head?_eq_some_iff.mp first
    obtain ⟨front,split⟩ := (List.mem_tails _ _).mp member
    have closed : '\x7d' ∈ rest := by simpa using closed
    obtain ⟨inside,after,rfl,unclosed⟩ := List.eq_append_cons_of_mem closed
    rw [List.drop_one,List.tail_cons,takeWhile_closed unclosed]
    exact unnested front inside after (by rw [← split]; simp) unclosed
  · intro check before inside after split unclosed
    have suffix : '\x7b' :: inside ++ '\x7d' :: after <:+ text := ⟨before,by rw [split]; simp⟩
    have here := check _ ((List.mem_tails _ _).mpr suffix) rfl (by simp)
    rwa [List.cons_append,List.drop_one,List.tail_cons,takeWhile_closed unclosed] at here

instance (text : List Char) : Decidable (Unnested text) :=
  decidable_of_iff _ unnested_iff.symm

theorem Unnested.suffix (unnested : Unnested text) (inside : rest <:+ text) : Unnested rest := by
  obtain ⟨front,rfl⟩ := inside
  intro before inside after split
  refine unnested (front ++ before) inside after ?_
  rw [split]
  simp

namespace Fills

theorem unique {out' : List Char} {keys' : List String} (fills : Fills gives text out keys)
    (fills' : Fills gives text out' keys') : out' = out ∧ keys' = keys := by
  induction fills generalizing out' keys' with
  | nil =>
    generalize same : [] = text at fills'
    cases fills' with
    | nil => exact ⟨rfl,rfl⟩
    | keep => exact nomatch same
    | fill => exact nomatch same
  | @keep c rest out keys plain more ih =>
    generalize same : c :: rest = text at fills'
    cases fills' with
    | nil => exact nomatch same
    | keep _ more' =>
      obtain ⟨rfl,rfl⟩ := List.cons.inj same
      exact (ih more').imp (congrArg _) id
    | fill isKey => exact absurd same (plain _ _ isKey)
  | @fill key rest out new keys isKey given more ih =>
    generalize same : '\x7b' :: key ++ '\x7d' :: rest = text at fills'
    cases fills' with
    | nil => exact nomatch same
    | keep plain => exact absurd same.symm (plain _ _ isKey)
    | @fill key' rest' out' new' keys' isKey' given' more' =>
      obtain ⟨rfl,rfl⟩ := eq_of_append_cons isKey.unclosed isKey'.unclosed (List.cons.inj same).2
      obtain rfl := Except.ok.inj (given.symm.trans given')
      exact (ih more').imp (congrArg _) (congrArg _)

theorem of_unclosed (fills : Fills gives text out keys) (unclosed : '\x7d' ∉ text) : out = text := by
  induction fills with
  | nil => rfl
  | keep _ _ ih => rw [ih fun member => unclosed (List.mem_cons_of_mem _ member)]
  | fill => simp at unclosed

theorem of_unopened {inside after : List Char} (fills : Fills gives (inside ++ '\x7d' :: after) out keys)
    (unopened : '\x7b' ∉ inside) : ∃ out', out = inside ++ '\x7d' :: out' ∧ Fills gives after out' keys := by
  induction inside generalizing out with
  | nil =>
    generalize same : [] ++ '\x7d' :: after = text at fills
    cases fills with
    | nil => exact nomatch same
    | keep _ more =>
      obtain ⟨rfl,rfl⟩ := List.cons.inj same
      exact ⟨_,rfl,more⟩
    | fill => exact absurd (List.cons.inj same).1 (by decide)
  | cons c inside ih =>
    generalize same : c :: inside ++ '\x7d' :: after = text at fills
    cases fills with
    | nil => exact nomatch same
    | keep _ more =>
      obtain ⟨rfl,rfl⟩ := List.cons.inj same
      obtain ⟨out',rfl,later⟩ := ih more fun member => unopened (List.mem_cons_of_mem _ member)
      exact ⟨out',rfl,later⟩
    | fill => exact absurd ((List.cons.inj same).1 ▸ List.mem_cons_self) unopened

/-- Behind an opening brace that is kept, the new text is the old one up to the next closing brace. -/
theorem behind (fills : Fills gives text out keys) (unnested : Unnested ('\x7b' :: text)) :
    out = text ∨ ∃ same after after', '\x7d' ∉ same ∧ text = same ++ '\x7d' :: after ∧
      out = same ++ '\x7d' :: after' ∧ Fills gives after after' keys := by
  by_cases closed : '\x7d' ∈ text
  · obtain ⟨same,after,rfl,unclosed⟩ := List.eq_append_cons_of_mem closed
    obtain ⟨after',rfl,later⟩ := fills.of_unopened (unnested [] same after rfl unclosed)
    exact Or.inr ⟨same,after,after',unclosed,rfl,rfl,later⟩
  · exact Or.inl (fills.of_unclosed closed)

/-- Each opening brace of the new text stands in the old one, where no placeholder begins, and the two are
the same up to the next closing brace. -/
theorem opening (fills : Fills gives text out keys) (unnested : Unnested text)
    (unopened : ∀ key ∈ keys, '\x7b' ∉ written (gives key)) {left : List Char}
    (inside : '\x7b' :: left <:+ out) : ∃ old, '\x7b' :: old <:+ text ∧
      placeholder? ('\x7b' :: old) = none ∧ (left = old ∨ ∃ same after after' keys', '\x7d' ∉ same ∧
        old = same ++ '\x7d' :: after ∧ left = same ++ '\x7d' :: after' ∧
          Fills gives after after' keys' ∧ keys' ⊆ keys) := by
  induction fills with
  | nil => exact absurd (List.suffix_nil.mp inside) (List.cons_ne_nil _ _)
  | @keep c rest out keys plain more ih =>
    rcases List.suffix_cons_iff.mp inside with same | inside
    · -- the brace is kept here, so that what is behind it is known
      obtain ⟨rfl,rfl⟩ := List.cons.inj same
      refine ⟨rest,List.suffix_rfl,plain_iff.mp plain,(more.behind unnested).imp_right ?_⟩
      rintro ⟨same,after,after',unclosed,old,new,later⟩
      exact ⟨same,after,after',keys,unclosed,old,new,later,List.Subset.refl _⟩
    · obtain ⟨old,place,silent,cases⟩ := ih (unnested.suffix (List.suffix_cons c rest)) unopened inside
      exact ⟨old,place.trans (List.suffix_cons c rest),silent,cases⟩
  | @fill key rest out new keys isKey given more ih =>
    obtain ⟨here,unopened⟩ := List.forall_mem_cons.mp unopened
    rw [given] at here
    -- the value has no opening brace, so that the brace is behind it
    have inside : '\x7b' :: left <:+ out := by
      obtain ⟨front,split⟩ := inside
      rcases List.append_eq_append_iff.mp split with ⟨more',new_eq,left_eq⟩ | ⟨more',_,out_eq⟩
      · cases more' with
        | nil => exact left_eq ▸ List.suffix_rfl
        | cons c front' =>
          obtain ⟨rfl,-⟩ := List.cons.inj left_eq
          have member : '\x7b' ∈ new.toList := new_eq ▸ List.mem_append_right front List.mem_cons_self
          exact absurd member here
      · exact ⟨more',out_eq.symm⟩
    have place : rest <:+ '\x7b' :: key ++ '\x7d' :: rest := ⟨'\x7b' :: key ++ ['\x7d'],by simp⟩
    obtain ⟨old,place',silent,cases⟩ := ih (unnested.suffix place) unopened inside
    refine ⟨old,place'.trans place,silent,cases.imp_right ?_⟩
    rintro ⟨same,after,after',keys',unclosed,old,new,later,fewer⟩
    exact ⟨same,after,after',keys',unclosed,old,new,later,List.Subset.trans fewer (List.subset_cons_self _ _)⟩

end Fills

/-- What does not begin in the old text does not begin in the new one. -/
theorem Fills.silent {good : List Char → Prop} {f : List Char → Option β} (braced : Braced good f)
    (fills : Fills gives text out keys) (unnested : Unnested text)
    (unopened : ∀ key ∈ keys, '\x7b' ∉ written (gives key))
    (keeps : ∀ {after after' keys'}, Fills gives after after' keys' → keys' ⊆ keys →
      after <:+ text → good after' → good after)
    (quiet : ∀ rest, rest <:+ text → placeholder? rest = none → f rest = none) : Silent f out := by
  intro rest inside
  by_contra read
  have read := Option.isSome_iff_ne_none.mpr read
  obtain ⟨left,rfl⟩ := braced.opens read
  obtain ⟨old,place,silent,same | ⟨same,after,after',keys',unclosed,rfl,rfl,later,fewer⟩⟩ :=
    fills.opening unnested unopened inside
  · rw [same,quiet _ place silent] at read
    exact nomatch read
  · have behind : after <:+ text := by
      refine List.IsSuffix.trans ⟨'\x7b' :: same ++ ['\x7d'],?_⟩ place
      simp
    have closed : '\x7d' ∉ '\x7b' :: same := by simpa using unclosed
    have read' := braced.bounded closed (keeps later fewer behind) read
    rw [List.cons_append,quiet _ place silent] at read'
    exact nomatch read'

private theorem silent_after_iff {close : List Char} (some : close ≠ []) :
    Silent (after? close) text ↔ occursIn close text = false := by
  rw [occursIn,Option.isSome_eq_false_iff,Option.isNone_iff_eq_none]
  obtain ⟨c,others,rfl⟩ := List.exists_cons_of_ne_nil some
  induction text with
  | nil =>
    refine ⟨fun _ => rfl,fun _ rest inside => ?_⟩
    rw [List.suffix_nil.mp inside]
    rfl
  | cons d text ih =>
    constructor
    · intro silent
      have later := ih.mp fun rest inside => silent rest (inside.trans (List.suffix_cons d text))
      simp only [cut?,silent _ List.suffix_rfl,later,Option.map_none]
    · intro absent
      unfold cut? at absent
      split at absent
      · cases absent
      · next here =>
        intro rest inside
        rcases List.suffix_cons_iff.mp inside with rfl | inside
        · exact here
        · exact ih.mpr (Option.map_eq_none_iff.mp absent) rest inside

section
variable (fills : Fills gives text out keys) (unnested : Unnested text)
  (unopened : ∀ key ∈ keys, '\x7b' ∉ written (gives key))
include fills unnested unopened

theorem Fills.silent_tag {α : Type} {r : Recognizer α} (tag : Tag Alone r) (silent : Silent r text) :
    Silent r out :=
  fills.silent tag.toBraced unnested unopened (fun _ _ _ _ => trivial) fun rest inside _ =>
    silent rest inside

theorem Fills.silent_block {α : Type} {r : Recognizer α} (name : List Char) (plain : '\x7d' ∉ name)
    (block : Tag (occursIn ('\x7b' :: name ++ ['\x7d']) · = true) r) (silent : Silent r text) :
    Silent r out := by
  refine fills.silent block.toBraced unnested unopened (fun later fewer inside closes => ?_)
    fun rest inside _ => silent rest inside
  by_contra unclosed
  -- a closing tag is itself read from its opening brace on, and none begins in the old text
  have quiet := (silent_after_iff (by simp)).mpr (Bool.eq_false_iff.mpr unclosed)
  have quiet' := later.silent (braced_after plain) (unnested.suffix inside)
    (fun key member => unopened key (fewer member)) (fun _ _ _ _ => trivial) fun rest inside _ =>
      quiet rest inside
  rw [(silent_after_iff (by simp)).mp quiet'] at closes
  exact nomatch closes

end

/-- Nothing in a text takes precedence over placeholders. -/
structure Simple (text : List Char) : Prop where
  conditional : Silent conditional? text
  table : Silent table? text
  chart : Silent chart? text
  image : Silent image? text
  format : Silent format? text
  loop : Silent loop? text

private theorem takes_precedence {γ : Type} (f : Found γ) (fs : List (Found γ)) {lexeme : γ → Lexeme}
    (other : ∀ value, (lexeme value).kind ≠ .text) : (f :: fs).map (·.map lexeme) ≠ [] ∧
      ∀ g : Found Lexeme, g ∈ (f :: fs).map (·.map lexeme) → g.value.kind ≠ .text := by
  refine ⟨List.cons_ne_nil _ _,fun g member => ?_⟩
  obtain ⟨found,-,rfl⟩ := List.mem_map.mp member
  exact other found.value

/-- What is found takes precedence over placeholders, if anything in the text does. -/
private theorem simple_or (text : List Char) :
    Simple text ∨ scan text ≠ [] ∧ ∀ f ∈ scan text, f.value.kind ≠ .text := by
  unfold scan
  split
  · exact Or.inr (takes_precedence _ _ nofun)
  · next conditional =>
    unfold scanBlocks
    split
    · exact Or.inr (takes_precedence _ [] nofun)
    · next table =>
      split
      · exact Or.inr (takes_precedence _ [] nofun)
      · next chart =>
        split
        · exact Or.inr (takes_precedence _ [] nofun)
        · next image =>
          split
          · exact Or.inr (takes_precedence _ _ nofun)
          · next format =>
            split
            · exact Or.inr (takes_precedence _ [] nofun)
            · next loop =>
              exact Or.inl ⟨(all_eq_nil_iff tag_conditional.proper).mp conditional,
                (first?_eq_none_iff tag_table.proper).mp table,
                (first?_eq_none_iff tag_chart.proper).mp chart,
                (first?_eq_none_iff tag_image.proper).mp image,
                (all_eq_nil_iff tag_format.proper).mp format,
                (first?_eq_none_iff tag_loop.proper).mp loop⟩

theorem simple_of_scan (found : ∃ f ∈ scan text, f.value.kind = .text) : Simple text := by
  obtain ⟨f,member,kind⟩ := found
  exact (simple_or text).resolve_right fun other => other.2 f member kind

theorem Simple.scan_eq (simple : Simple text) :
    scan text = (all placeholder? text).map (·.map .text) := by
  obtain ⟨conditional,table,chart,image,format,loop⟩ := simple
  simp only [scan,scanBlocks,(all_eq_nil_iff tag_conditional.proper).mpr conditional,
    (first?_eq_none_iff tag_table.proper).mpr table,(first?_eq_none_iff tag_chart.proper).mpr chart,
    (first?_eq_none_iff tag_image.proper).mpr image,(all_eq_nil_iff tag_format.proper).mpr format,
    (first?_eq_none_iff tag_loop.proper).mpr loop]

theorem scan_eq_nil_iff : scan text = [] ↔ Simple text ∧ Silent placeholder? text := by
  constructor
  · intro none
    have simple := (simple_or text).resolve_right fun other => other.1 none
    rw [simple.scan_eq,List.map_eq_nil_iff,all_eq_nil_iff tag_placeholder.proper] at none
    exact ⟨simple,none⟩
  · rintro ⟨simple,silent⟩
    rw [simple.scan_eq,List.map_eq_nil_iff,all_eq_nil_iff tag_placeholder.proper]
    exact silent

/-- When placeholders were filled in with texts that have no opening brace, there is nothing left to do. -/
theorem Fills.scan_eq_nil (fills : Fills gives text out keys) (unnested : Unnested text)
    (unopened : ∀ key ∈ keys, '\x7b' ∉ written (gives key)) (simple : Simple text) : scan out = [] := by
  refine scan_eq_nil_iff.mpr ⟨⟨?_,?_,?_,?_,?_,?_⟩,?_⟩
  · exact fills.silent_block unnested unopened "/if".toList (by decide) tag_conditional
      simple.conditional
  · exact fills.silent_tag unnested unopened tag_table simple.table
  · exact fills.silent_tag unnested unopened tag_chart simple.chart
  · exact fills.silent_tag unnested unopened tag_image simple.image
  · exact fills.silent_tag unnested unopened tag_format simple.format
  · exact fills.silent_block unnested unopened "/each".toList (by decide) tag_loop simple.loop
  · exact fills.silent tag_placeholder.toBraced unnested unopened (fun _ _ _ _ => trivial)
      fun rest inside silent => silent

end MailMerge.Directive
