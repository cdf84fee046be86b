import MailMerge.Directive.Basic

/-! What a repeated search finds. Position after position, either nothing is read there or something is, and
then the search goes on behind it. A substitution follows the same steps: what was read gives way to its new
text and each of the other characters is kept. A search finds nothing where nothing is read at any position.
-/
namespace MailMerge.Directive

variable {α : Type} {r : Recognizer α} {start : Nat} {text rest : List Char} {found : List (Found α)}

/-- A recognizer reads at least one character, and what it gives back is the rest of the text. -/
def Proper (r : Recognizer α) : Prop :=
  ∀ {text value rest}, r text = some (value,rest) → ∃ raw, raw ≠ [] ∧ text = raw ++ rest

/-- What is found in a text whose first character has position `start`. -/
inductive Finds (r : Recognizer α) : Nat → List Char → List (Found α) → Prop
  | nil (start : Nat) : Finds r start [] []
  | pass {start : Nat} {c : Char} {rest : List Char} {found : List (Found α)}
    (silent : r (c :: rest) = none) (more : Finds r (start + 1) rest found) :
    Finds r start (c :: rest) found
  | read {start : Nat} {value : α} {raw rest : List Char} {found : List (Found α)} (some : raw ≠ [])
    (reads : r (raw ++ rest) = Option.some (value,rest))
    (more : Finds r (start + raw.length) rest found) :
    Finds r start (raw ++ rest) (⟨value,start,raw⟩ :: found)

private theorem Proper.raw_eq (proper : Proper r) {c : Char} {value : α} {tail : List Char}
    (reads : r (c :: rest) = some (value,tail)) : ∃ others, rest = others ++ tail ∧
      (c :: rest).take (rest.length + 1 - tail.length) = c :: others := by
  obtain ⟨raw,some,split⟩ := proper reads
  obtain ⟨d,others,rfl⟩ := List.exists_cons_of_ne_nil some
  obtain ⟨rfl,rest_eq⟩ := List.cons.inj (split.trans (List.cons_append ..))
  refine ⟨others,rest_eq,?_⟩
  have size : rest.length + 1 - tail.length = (c :: others).length := by
    rw [rest_eq,List.length_append,List.length_cons]
    omega
  rw [size,split,List.take_left]

theorem finds_allFrom (proper : Proper r) (start skip : Nat) (text : List Char) :
    Finds r (start + skip) (text.drop skip) (allFrom r start skip text) := by
  induction text generalizing start skip with
  | nil =>
    rw [List.drop_nil]
    exact .nil _
  | cons c rest ih =>
    cases skip with
    | succ skip =>
      -- the character belongs to what was read last
      have later := ih (start + 1) skip
      rwa [Nat.add_right_comm] at later
    | zero =>
      cases reads : r (c :: rest) with
      | none =>
        rw [allFrom,if_neg (Nat.lt_irrefl 0),reads]
        exact .pass reads (ih (start + 1) 0)
      | some pair =>
        obtain ⟨value,tail⟩ := pair
        obtain ⟨others,rfl,raw_eq⟩ := proper.raw_eq reads
        have later := ih (start + 1) others.length
        rw [allFrom,if_neg (Nat.lt_irrefl 0),reads]
        dsimp only
        have skip : (others ++ tail).length + 1 - tail.length - 1 = others.length := by
          rw [List.length_append]
          omega
        rw [raw_eq,skip,List.drop_zero,← List.cons_append]
        refine .read (List.cons_ne_nil c others) reads ?_
        rwa [List.drop_left,Nat.add_right_comm] at later

theorem finds_all (proper : Proper r) (text : List Char) : Finds r 0 text (all r text) :=
  finds_allFrom proper 0 0 text

theorem firstFrom_pass {c : Char} (silent : r (c :: rest) = none) :
    firstFrom r start (c :: rest) = firstFrom r (start + 1) rest := by
  rw [firstFrom,silent]

theorem firstFrom_read (proper : Proper r) {value : α} {raw : List Char} (some : raw ≠ [])
    (reads : r (raw ++ rest) = Option.some (value,rest)) :
    firstFrom r start (raw ++ rest) = Option.some ⟨value,start,raw⟩ := by
  obtain ⟨c,others,rfl⟩ := List.exists_cons_of_ne_nil some
  obtain ⟨others',split,raw_eq⟩ := proper.raw_eq (List.cons_append .. ▸ reads)
  obtain rfl := List.append_cancel_right split
  rw [List.cons_append,firstFrom,← List.cons_append,reads]
  dsimp only
  rw [List.cons_append,raw_eq]

namespace Finds

theorem firstFrom_eq (proper : Proper r) (finds : Finds r start text found) :
    firstFrom r start text = found.head? := by
  induction finds with
  | nil => rfl
  | pass silent _ ih => rw [firstFrom_pass silent,ih]
  | read some reads _ _ => exact firstFrom_read proper some reads

theorem le_start (finds : Finds r start text found) : ∀ f ∈ found, start ≤ f.start := by
  induction finds with
  | nil => simp
  | pass _ _ ih => exact fun f member => Nat.le_of_succ_le (ih f member)
  | read _ _ _ ih =>
    exact List.forall_mem_cons.mpr ⟨Nat.le_refl _,fun f member =>
      Nat.le_trans (Nat.le_add_right _ _) (ih f member)⟩

/-- A piece in which nothing is read is passed over. -/
theorem skip {piece : List Char}
    (silent : ∀ others, others <:+ piece → others ≠ [] → r (others ++ rest) = none)
    (finds : Finds r (start + piece.length) rest found) : Finds r start (piece ++ rest) found := by
  induction piece generalizing start with
  | nil => exact finds
  | cons c piece ih =>
    refine .pass (silent (c :: piece) List.suffix_rfl (List.cons_ne_nil _ _)) (ih ?_ ?_)
    · exact fun others inside => silent others (inside.trans (List.suffix_cons c piece))
    · rwa [List.length_cons,← Nat.add_assoc,Nat.add_right_comm] at finds

private theorem cases_finds (finds : Finds r start text found) :
    text = [] ∧ found = [] ∨
    (∃ c rest, text = c :: rest ∧ r text = none ∧ Finds r (start + 1) rest found) ∨
    ∃ value raw rest more, raw ≠ [] ∧ text = raw ++ rest ∧ r text = Option.some (value,rest) ∧
      found = ⟨value,start,raw⟩ :: more ∧ Finds r (start + raw.length) rest more := by
  cases finds with
  | nil => exact .inl ⟨rfl,rfl⟩
  | pass silent more => exact .inr (.inl ⟨_,_,rfl,silent,more⟩)
  | read some reads more => exact .inr (.inr ⟨_,_,_,_,some,rfl,reads,rfl,more⟩)

/-- A search has one outcome. -/
theorem unique (finds : Finds r start text found) {found' : List (Found α)}
    (finds' : Finds r start text found') : found = found' := by
  induction finds generalizing found' with
  | nil =>
    rcases cases_finds finds' with ⟨-,rfl⟩ | ⟨c,rest,split,-⟩ | ⟨value,raw,rest,more,some,split,-⟩
    · rfl
    · exact nomatch split
    · exact absurd (List.append_eq_nil_iff.mp split.symm).1 some
  | pass silent _ ih =>
    rcases cases_finds finds' with ⟨split,-⟩ | ⟨c,rest,split,-,more⟩ | ⟨value,raw,rest,more,-,-,reads,-⟩
    · exact nomatch split
    · obtain ⟨-,rfl⟩ := List.cons.inj split
      exact ih more
    · exact nomatch silent.symm.trans reads
  | read some reads _ ih =>
    rcases cases_finds finds' with ⟨split,-⟩ | ⟨c,rest,-,silent,-⟩ | ⟨value,raw,rest,more,-,split,reads',rfl,more'⟩
    · exact absurd (List.append_eq_nil_iff.mp split).1 some
    · exact nomatch silent.symm.trans reads
    · obtain ⟨rfl,rfl⟩ := Prod.mk.inj (Option.some.inj (reads.symm.trans reads'))
      obtain rfl := List.append_cancel_right split
      rw [ih more']

/-- What was found is read where it stands. -/
theorem exists_place (finds : Finds r start text found) : ∀ f ∈ found, ∃ before after,
    text = before ++ (f.raw ++ after) ∧ f.start = start + before.length ∧
      r (f.raw ++ after) = Option.some (f.value,after) := by
  induction finds with
  | nil => simp
  | @pass start c rest found silent more ih =>
    intro f member
    obtain ⟨before,after,split,start_eq,reads⟩ := ih f member
    refine ⟨c :: before,after,by rw [split,List.cons_append],?_,reads⟩
    rw [start_eq,List.length_cons]
    omega
  | @read start value raw rest found some reads more ih =>
    refine List.forall_mem_cons.mpr ⟨⟨[],rest,rfl,rfl,reads⟩,fun f member => ?_⟩
    obtain ⟨before,after,split,start_eq,reads'⟩ := ih f member
    refine ⟨raw ++ before,after,by rw [split,List.append_assoc],?_,reads'⟩
    rw [start_eq,List.length_append,Nat.add_assoc]

end Finds

/-- Nothing is read at any position of a text. -/
def Silent {β : Type} (f : List Char → Option β) (text : List Char) : Prop :=
  ∀ rest, rest <:+ text → f rest = none

theorem Proper.nil (proper : Proper r) : r [] = none := by
  rw [Option.eq_none_iff_forall_not_mem]
  rintro ⟨value,rest⟩ reads
  obtain ⟨raw,some,split⟩ := proper reads
  exact some (List.append_eq_nil_iff.mp split.symm).1

namespace Finds

theorem eq_nil (finds : Finds r start text found) (silent : Silent r text) : found = [] := by
  induction finds with
  | nil => rfl
  | pass _ _ ih => exact ih fun rest inside => silent rest (inside.trans (List.suffix_cons _ _))
  | read _ reads _ _ => exact nomatch (silent _ List.suffix_rfl).symm.trans reads

theorem silent (proper : Proper r) (finds : Finds r start text found) (none : found = []) :
    Silent r text := by
  induction finds with
  | nil =>
    intro rest inside
    rw [List.suffix_nil.mp inside,proper.nil]
  | pass silent _ ih =>
    intro rest inside
    rcases List.suffix_cons_iff.mp inside with rfl | inside
    · exact silent
    · exact ih none rest inside
  | read => exact absurd none (List.cons_ne_nil _ _)

end Finds

theorem all_eq_nil_iff (proper : Proper r) : all r text = [] ↔ Silent r text :=
  ⟨(finds_all proper text).silent proper,(finds_all proper text).eq_nil⟩

theorem first?_eq_none_iff (proper : Proper r) : first? r text = none ↔ Silent r text := by
  rw [first?,(finds_all proper text).firstFrom_eq proper,List.head?_eq_none_iff,
    all_eq_nil_iff proper]

/-- A character in front of all that was found is kept. -/
private theorem go_pass {c : Char} {texts : List (Found α × List Char)}
    (later : ∀ pair ∈ texts, start + 1 ≤ pair.1.start) :
    substitute.go start (c :: rest) texts = c :: substitute.go (start + 1) rest texts := by
  cases texts with
  | nil => rfl
  | cons pair texts =>
    obtain ⟨f,new⟩ := pair
    have first : start + 1 ≤ f.start := later _ List.mem_cons_self
    have place : f.start - start = f.start - (start + 1) + 1 := by omega
    have stop : f.stop - start = f.stop - (start + 1) + 1 := by
      unfold Found.stop
      omega
    simp only [substitute.go,place,stop,List.take_succ_cons,List.drop_succ_cons,List.cons_append]

theorem Finds.go_pass {more : List Char} {found' : List (Found α)}
    (finds : Finds r (start + 1) more found) (listed : found' ⊆ found) (new : Found α → List Char)
    (c : Char) (rest : List Char) : substitute.go start (c :: rest) (found'.map fun f => (f,new f)) =
      c :: substitute.go (start + 1) rest (found'.map fun f => (f,new f)) := by
  refine Directive.go_pass fun pair member => ?_
  obtain ⟨f,inside,rfl⟩ := List.mem_map.mp member
  exact finds.le_start f (listed inside)

/-- What was read gives way to its new text. -/
theorem go_read (value : α) (raw new : List Char) (texts : List (Found α × List Char)) :
    substitute.go start (raw ++ rest) ((⟨value,start,raw⟩,new) :: texts) =
      new ++ substitute.go (start + raw.length) rest texts := by
  simp only [substitute.go,Found.stop,Nat.sub_self,List.take_zero,List.nil_append,
    Nat.add_sub_cancel_left,List.drop_left]

end MailMerge.Directive
