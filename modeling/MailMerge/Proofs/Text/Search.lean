import MailMerge.Text.Blank
import MailMerge.Text.Search
import Mathlib.Data.List.Basic

/-! Searching undone: a text that was put together from pieces is taken apart into the same pieces,
and a text that was taken apart is its pieces put together. The blank characters are listed one by one,
so that a class of characters can be checked against them. -/
namespace MailMerge.Text

/-- A text does not begin with a character of a class. -/
def Halts (accepts : Char → Bool) (text : List Char) : Prop :=
  ∀ c, text.head? = some c → accepts c = false

theorem Halts.cons {accepts : Char → Bool} {c : Char} (refused : accepts c = false)
    (rest : List Char) : Halts accepts (c :: rest) := by
  intro d same
  cases same
  exact refused

theorem takeWhile_run {accepts : Char → Bool} {run rest : List Char}
    (accepted : run.all accepts = true) (halts : Halts accepts rest) :
    (run ++ rest).takeWhile accepts = run := by
  rw [List.takeWhile_append_of_pos (List.all_eq_true.mp accepted)]
  cases rest with
  | nil => simp
  | cons c rest => simp [halts c rfl]

theorem dropWhile_run {accepts : Char → Bool} {run rest : List Char}
    (accepted : run.all accepts = true) (halts : Halts accepts rest) :
    (run ++ rest).dropWhile accepts = rest := by
  rw [List.dropWhile_append_of_pos (List.all_eq_true.mp accepted)]
  cases rest with
  | nil => rfl
  | cons c rest => simp [halts c rfl]

theorem halts_dropWhile (accepts : Char → Bool) (text : List Char) :
    Halts accepts (text.dropWhile accepts) := by
  intro c first
  have refused := List.head?_dropWhile_not accepts text
  rw [first] at refused
  simpa using refused

/-- A text is the longest run of a class at its start and the rest of it. -/
theorem exists_run (accepts : Char → Bool) (text : List Char) : ∃ run,
    text = run ++ text.dropWhile accepts ∧ run.all accepts = true ∧
      text.takeWhile accepts = run :=
  ⟨text.takeWhile accepts,List.takeWhile_append_dropWhile.symm,List.all_takeWhile,rfl⟩

@[simp] theorem after?_append (piece rest : List Char) : after? piece (piece ++ rest) = some rest := by
  induction piece with
  | nil => rfl
  | cons c piece ih => simpa [after?] using ih

theorem after?_eq_none_iff {piece text : List Char} :
    after? piece text = none ↔ ¬piece <+: text := by
  constructor
  · rintro missing ⟨rest,rfl⟩
    rw [after?_append] at missing
    exact nomatch missing
  · intro other
    cases found : after? piece text with
    | none => rfl
    | some rest => exact absurd ⟨rest,(eq_append_of_after? found).symm⟩ other

theorem cut?_append {mark : Char} {value : List Char} (absent : mark ∉ value) (rest : List Char) :
    cut? [mark] (value ++ mark :: rest) = some (value,rest) := by
  induction value with
  | nil => simp [cut?,after?]
  | cons c value ih =>
    obtain ⟨other,absent⟩ := not_or.mp (List.mem_cons.not.mp absent)
    simp [cut?,after?,other,ih absent]

/-- What stands before and after the first occurrence of a character. -/
theorem eq_of_append_cons {mark : Char} {head head' tail tail' : List Char} (absent : mark ∉ head)
    (absent' : mark ∉ head') (same : head ++ mark :: tail = head' ++ mark :: tail') :
    head = head' ∧ tail = tail' := by
  have cut := cut?_append absent tail
  rw [same,cut?_append absent' tail'] at cut
  exact (Prod.mk.inj (Option.some.inj cut)).imp Eq.symm Eq.symm

theorem of_cut? {mark : Char} {text value rest : List Char}
    (cut : cut? [mark] text = some (value,rest)) : text = value ++ mark :: rest ∧ mark ∉ value := by
  refine ⟨by simpa using eq_append_of_cut? cut,?_⟩
  induction text generalizing value with
  | nil => simp [cut?] at cut
  | cons c text ih =>
    by_cases same : mark = c
    · have found : cut? [mark] (c :: text) = some ([],text) := by simp [cut?,after?,same]
      rw [found] at cut
      obtain ⟨rfl,_⟩ := Prod.mk.inj (Option.some.inj cut)
      simp
    · simp only [cut?,after?,beq_iff_eq,same,if_false,Option.map_eq_some_iff,Prod.mk.injEq] at cut
      obtain ⟨⟨value,tail⟩,found,rfl,rfl⟩ := cut
      simp [same,ih found]

/-- A piece whose first character occurs in it once cannot begin in the text before it and end in the piece. -/
theorem cut?_piece {c : Char} {others head : List Char} (once : c ∉ others)
    (absent : occursIn (c :: others) head = false) (tail : List Char) :
    cut? (c :: others) (head ++ (c :: others ++ tail)) = some (head,tail) := by
  induction head with
  | nil =>
    have found := after?_append (c :: others) tail
    rw [List.cons_append] at found ⊢
    simp only [List.nil_append,cut?,found]
  | cons d head ih =>
    have missing : after? (c :: others) (d :: head) = none ∧ occursIn (c :: others) head = false := by
      simp only [occursIn,cut?] at absent ⊢
      cases found : after? (c :: others) (d :: head) with
      | some rest => simp [found] at absent
      | none => simpa [found] using absent
    have later : after? (c :: others) (d :: head ++ (c :: others ++ tail)) = none := by
      rw [Option.eq_none_iff_forall_not_mem]
      intro rest found
      rcases List.append_eq_append_iff.mp (eq_append_of_after? found) with
        ⟨front,split,seam⟩ | ⟨front,split,-⟩
      · -- the piece would begin before itself, and its first character would come again
        obtain ⟨rfl,others_eq⟩ := List.cons.inj (split.trans (List.cons_append ..))
        cases front with
        | nil =>
          obtain rfl : others = head := others_eq.trans (List.append_nil head)
          have whole := after?_append (c :: others) []
          rw [List.append_nil,missing.1] at whole
          cases whole
        | cons e front =>
          obtain ⟨rfl,-⟩ := List.cons.inj (seam.symm.trans (List.cons_append ..))
          exact once (others_eq ▸ List.mem_append_right head List.mem_cons_self)
      · rw [split,after?_append] at missing
        cases missing.1
    rw [List.cons_append] at later ⊢
    rw [cut?,later,ih missing.2]
    rfl

theorem replaceFirst_piece {c : Char} {others head : List Char} (once : c ∉ others)
    (absent : occursIn (c :: others) head = false) (new tail : List Char) :
    replaceFirst (c :: others) new (head ++ (c :: others ++ tail)) = head ++ new ++ tail := by
  rw [replaceFirst,cut?_piece once absent]

/-- What stands after the last occurrence of a character. -/
theorem takeWhile_reverse_append (sep : Char) (head : List Char) {tail : List Char}
    (absent : sep ∉ tail) :
    ((head ++ sep :: tail).reverse.takeWhile (· != sep)).reverse = tail := by
  have kept : ∀ c ∈ tail.reverse, (c != sep) = true := by
    intro c member
    have other : c ≠ sep := fun same => absent (same ▸ List.mem_reverse.mp member)
    simpa using other
  simp [List.takeWhile_append_of_pos kept]

theorem cutLast?_append (sep : Char) (head : List Char) {tail : List Char}
    (absent : sep ∉ tail) : cutLast? sep (head ++ sep :: tail) = some (head,tail) := by
  have shorter : tail.length < (head ++ sep :: tail).length := by
    simp only [List.length_append,List.length_cons]
    omega
  have place : (head ++ sep :: tail).length - tail.length - 1 = head.length := by
    simp only [List.length_append,List.length_cons]
    omega
  simp only [cutLast?,takeWhile_reverse_append sep head absent,shorter,if_true,place,
    List.take_left]

theorem notMem_of_cutLast? {sep : Char} {text head tail : List Char}
    (cut : cutLast? sep text = some (head,tail)) : sep ∉ tail := by
  simp only [cutLast?] at cut
  split at cut
  · obtain ⟨_,rfl⟩ := Prod.mk.inj (Option.some.inj cut)
    intro member
    have kept := List.all_eq_true.mp List.all_takeWhile sep (List.mem_reverse.mp member)
    simp at kept
  · simp at cut

/-- What stands before and after the last occurrence belongs to the text. -/
theorem mem_of_cutLast? {sep c : Char} {text head tail : List Char}
    (cut : cutLast? sep text = some (head,tail)) (member : c ∈ head ∨ c ∈ tail) : c ∈ text := by
  simp only [cutLast?] at cut
  split at cut
  · obtain ⟨rfl,rfl⟩ := Prod.mk.inj (Option.some.inj cut)
    rcases member with before | after
    · exact List.mem_of_mem_take before
    · have kept := List.mem_reverse.mp after
      exact List.mem_reverse.mp ((List.takeWhile_sublist _).subset kept)
  · simp at cut

theorem notMem_of_cutLast?_eq_none {sep : Char} {text : List Char}
    (uncut : cutLast? sep text = none) : sep ∉ text := by
  intro member
  obtain ⟨after,before,split,absent⟩ := List.eq_append_cons_of_mem (List.mem_reverse.mpr member)
  obtain rfl : text = before.reverse ++ sep :: after.reverse := by
    rw [← List.reverse_reverse text,split]
    simp
  rw [cutLast?_append sep _ (by simpa using absent)] at uncut
  exact Option.some_ne_none _ uncut

theorem splitOn_append (sep : Char) {piece : List Char} (rest : List Char)
    (absent : sep ∉ piece) : splitOn sep (piece ++ sep :: rest) = piece :: splitOn sep rest := by
  induction piece with
  | nil => simp [splitOn]
  | cons c piece ih =>
    obtain ⟨other,absent⟩ := not_or.mp (List.mem_cons.not.mp absent)
    simp [splitOn,ih absent,Ne.symm other]

theorem splitOn_of_notMem (sep : Char) {piece : List Char} (absent : sep ∉ piece) :
    splitOn sep piece = [piece] := by
  induction piece with
  | nil => rfl
  | cons c piece ih =>
    obtain ⟨other,absent⟩ := not_or.mp (List.mem_cons.not.mp absent)
    simp [splitOn,ih absent,Ne.symm other]

theorem splitOn_ne_nil (sep : Char) (text : List Char) : splitOn sep text ≠ [] := by
  cases text with
  | nil => simp [splitOn]
  | cons c rest =>
    simp only [splitOn]
    split
    · simp
    · split <;> simp

/-- The pieces of two texts with a separator between them are those of the one and those of the other. -/
theorem splitOn_cons_append (sep : Char) (first rest : List Char) :
    splitOn sep (first ++ sep :: rest) = splitOn sep first ++ splitOn sep rest := by
  induction first with
  | nil => simp [splitOn]
  | cons c first ih =>
    obtain ⟨piece,pieces,eq⟩ := List.exists_cons_of_ne_nil (splitOn_ne_nil sep first)
    rw [eq] at ih
    by_cases same : (c == sep) = true
    · rw [List.cons_append,splitOn,if_pos same,splitOn,if_pos same,ih,eq]
      rfl
    · rw [List.cons_append,splitOn,if_neg same,splitOn,if_neg same,ih,eq]
      rfl

/-- The pieces with separators between them are the text. -/
theorem intercalate_splitOn (sep : Char) (text : List Char) :
    [sep].intercalate (splitOn sep text) = text := by
  induction text with
  | nil => rfl
  | cons c rest ih =>
    simp only [splitOn]
    split
    · next same =>
      obtain ⟨piece,pieces,eq⟩ := List.exists_cons_of_ne_nil (splitOn_ne_nil sep rest)
      rw [eq] at ih ⊢
      rw [List.intercalate_cons_cons,ih,eq_of_beq same]
      rfl
    · split
      · next nothing => exact absurd nothing (splitOn_ne_nil sep rest)
      · next piece pieces eq =>
        rw [eq] at ih
        cases pieces with
        | nil => simpa using ih
        | cons next pieces => simpa [List.intercalate_cons_cons] using ih

/-- The code points of the blank characters. -/
def blankPoints : List Nat :=
  [0x9,0xa,0xb,0xc,0xd,0x1c,0x1d,0x1e,0x1f,0x20,0x85,0xa0,0x1680,0x2000,0x2001,0x2002,0x2003,
    0x2004,0x2005,0x2006,0x2007,0x2008,0x2009,0x200a,0x2028,0x2029,0x202f,0x205f,0x3000]

theorem toNat_mem_of_isBlank {c : Char} (blank : isBlank c = true) : c.toNat ∈ blankPoints := by
  simp only [isBlank,Ranges.contains,blankRanges,List.any_toArray,List.any_cons,List.any_nil] at blank
  simp only [blankPoints,List.mem_cons,List.not_mem_nil,or_false]
  split at blank
  · simp only [Bool.or_eq_true,Bool.and_eq_true,decide_eq_true_eq] at blank
    omega
  · simp only [Bool.or_false,Bool.or_eq_true,Bool.and_eq_true,decide_eq_true_eq] at blank
    omega

/-- A class that holds no blank point holds no blank character. -/
theorem eq_false_of_isBlank (holds : Char → Bool)
    (checked : ∀ n ∈ blankPoints, holds (Char.ofNat n) = false) {c : Char}
    (blank : isBlank c = true) : holds c = false := by
  have found := checked _ (toNat_mem_of_isBlank blank)
  rwa [Char.ofNat_toNat] at found

theorem trim_subset (text : List Char) : trim text ⊆ text := by
  intro c member
  rw [trim,trimEnd,List.mem_reverse] at member
  have inner := List.mem_reverse.mp ((List.dropWhile_sublist _).subset member)
  exact (List.dropWhile_sublist _).subset inner

/-- A text without blanks at its ends is trimmed. -/
theorem trim_of_solid {text : List Char} (first : ∀ c ∈ text.head?, isBlank c = false)
    (last : ∀ c ∈ text.getLast?, isBlank c = false) : trim text = text := by
  have stops {text : List Char} (solid : ∀ c ∈ text.head?, isBlank c = false) :
      text.dropWhile isBlank = text := by
    cases text with
    | nil => rfl
    | cons c text => exact List.dropWhile_cons_of_neg (by simp [solid c rfl])
  rw [trim,trimEnd,stops first,stops (by simpa using last),List.reverse_reverse]

end MailMerge.Text
