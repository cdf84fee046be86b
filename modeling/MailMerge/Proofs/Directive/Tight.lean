import MailMerge.Proofs.Directive.Accepted

/-! Directives that say themselves where they end. What follows such a directive has no part in how it is read,
so that no text that reads like the first directive of a text stands before it. When a text is put together
from pieces and the first directive lies within one of them, it is found again piece by piece.
-/
namespace MailMerge.Directive
open Text

variable {α : Type} {r : Recognizer α} {text rest : List Char} {f : Found α} {start : Nat}

/-- What is read is read again whatever follows. -/
def Tight (r : Recognizer α) : Prop :=
  ∀ {text value rest}, r text = some (value,rest) →
    ∃ raw, raw ≠ [] ∧ text = raw ++ rest ∧ ∀ other, r (raw ++ other) = some (value,other)

theorem Accepts.tight {is : α → List Char → Prop} (accepts : Accepts r is) : Tight r := by
  intro text value rest reads
  obtain ⟨raw,kind,split⟩ := accepts.reads_iff.mp reads
  exact ⟨raw,accepts.solid kind,split,accepts.reads kind⟩

theorem Tight.proper (tight : Tight r) : Proper r := by
  intro text value rest reads
  obtain ⟨raw,some,split,-⟩ := tight reads
  exact ⟨raw,some,split⟩

/-- Nothing is read before the first finding. -/
theorem start_le_of_reads {before : List Char} (found : firstFrom r start (before ++ rest) = some f)
    (reads : (r rest).isSome) : f.start ≤ start + before.length := by
  induction before generalizing start with
  | nil =>
    cases rest with
    | nil => exact nomatch found
    | cons c rest =>
      obtain ⟨pair,reads⟩ := Option.isSome_iff_exists.mp reads
      simp only [List.nil_append,firstFrom,reads,Option.some.injEq] at found
      exact Nat.le_of_eq (found ▸ rfl)
  | cons c before ih =>
    cases here : r (c :: (before ++ rest)) with
    | some pair =>
      simp only [List.cons_append,firstFrom,here,Option.some.injEq] at found
      exact found ▸ Nat.le_add_right start _
    | none =>
      rw [List.cons_append,firstFrom_pass here] at found
      have later := ih found
      rw [List.length_cons]
      omega

theorem exists_place (tight : Tight r) (found : firstFrom r start text = some f) : ∃ before rest,
    text = before ++ f.raw ++ rest ∧ f.start = start + before.length ∧ f.raw ≠ [] ∧
      ∀ other, r (f.raw ++ other) = some (f.value,other) := by
  induction text generalizing start with
  | nil => exact nomatch found
  | cons c text ih =>
    cases here : r (c :: text) with
    | some pair =>
      obtain ⟨raw,some,split,again⟩ := tight here
      rw [split,firstFrom_read tight.proper some (again _)] at found
      obtain rfl := Option.some.inj found
      exact ⟨[],pair.2,split,rfl,some,again⟩
    | none =>
      rw [firstFrom_pass here] at found
      obtain ⟨before,rest,split,start_eq,some,again⟩ := ih found
      refine ⟨c :: before,rest,congrArg (c :: ·) split,?_,some,again⟩
      rw [start_eq,List.length_cons]
      omega

/-- Takes a piece out of the first text that holds it. -/
def stripFirst (raw : List Char) : List (List Char) → List (List Char)
  | [] => []
  | text :: texts =>
    if occursIn raw text then replaceFirst raw [] text :: texts else text :: stripFirst raw texts

theorem stripFirst_append (raw : List Char) {before : List (List Char)} {text : List Char}
    (after : List (List Char)) (absent : ∀ t ∈ before, occursIn raw t = false)
    (present : occursIn raw text = true) :
    stripFirst raw (before ++ text :: after) = before ++ replaceFirst raw [] text :: after := by
  induction before with
  | nil => rw [List.nil_append,stripFirst,if_pos present,List.nil_append]
  | cons t before ih =>
    obtain ⟨here,absent⟩ := List.forall_mem_cons.mp absent
    rw [List.cons_append,stripFirst,if_neg (by simp [here]),ih absent,List.cons_append]

theorem stripFirst_of_absent {raw : List Char} {texts : List (List Char)}
    (absent : ∀ t ∈ texts, occursIn raw t = false) : stripFirst raw texts = texts := by
  induction texts with
  | nil => rfl
  | cons t texts ih =>
    obtain ⟨here,absent⟩ := List.forall_mem_cons.mp absent
    rw [stripFirst,if_neg (by simp [here]),ih absent]

/-- What is found in a text stands within one of the pieces that the text is put together from. -/
def Found.Within (f : Found α) (texts : List (List Char)) : Prop :=
  ∃ before head tail after, texts = before ++ (head ++ f.raw ++ tail) :: after ∧
    f.start = (before.flatten ++ head).length

/-- What stands within a piece is taken out of that piece. -/
theorem flatten_stripFirst (tight : Tight r) {texts : List (List Char)}
    (found : first? r texts.flatten = some f) (within : f.Within texts) :
    (stripFirst f.raw texts).flatten = texts.flatten.take f.start ++ texts.flatten.drop f.stop := by
  obtain ⟨before,head,tail,after,rfl,start_eq⟩ := within
  obtain ⟨-,-,-,-,some,again⟩ := exists_place tight found
  -- the same text any earlier would have been found instead
  have least {x y : List Char} (split : (before ++ (head ++ f.raw ++ tail) :: after).flatten =
      x ++ (f.raw ++ y)) : f.start ≤ x.length := by
    rw [first?,split] at found
    exact Nat.zero_add x.length ▸ start_le_of_reads found (Option.isSome_of_mem (again y))
  have absent : ∀ t ∈ before, occursIn f.raw t = false := by
    intro t member
    by_contra occurs
    obtain ⟨⟨x,y⟩,cut⟩ := Option.isSome_iff_exists.mp (Bool.of_not_eq_false occurs)
    obtain ⟨left,right,rfl⟩ := List.append_of_mem member
    obtain rfl := eq_append_of_cut? cut
    have early := @least (left.flatten ++ x) (y ++ right.flatten ++ (head ++ f.raw ++ tail) ++ after.flatten)
      (by simp)
    have size := List.length_pos_of_ne_nil some
    simp only [start_eq,List.length_append,List.flatten_append,List.flatten_cons] at early
    omega
  obtain ⟨x,y,cut,le⟩ := exists_cut? f.raw head tail
  have split := eq_append_of_cut? cut
  have late := @least (before.flatten ++ x) (y ++ after.flatten) (by simp [split])
  have same : head.length = x.length := by
    simp only [start_eq,List.length_append] at late
    omega
  obtain ⟨rfl,rest⟩ := List.append_inj (by simpa using split) same
  obtain rfl := List.append_cancel_left rest
  have present : occursIn f.raw (head ++ f.raw ++ tail) = true := Option.isSome_of_mem cut
  rw [stripFirst_append f.raw after absent present,replaceFirst,cut]
  have text_eq : (before ++ (head ++ f.raw ++ tail) :: after).flatten =
      (before.flatten ++ head) ++ (f.raw ++ (tail ++ after.flatten)) := by simp
  have stop_eq : f.stop = (before.flatten ++ head).length + f.raw.length := by rw [Found.stop,start_eq]
  rw [text_eq,stop_eq,start_eq,List.take_left,← List.drop_drop,List.drop_left,List.drop_left]
  simp

/-- A rule says itself where it ends. -/
theorem tight_rowRule : Tight rowRule? :=
  accepts_rowRule.tight

end MailMerge.Directive
