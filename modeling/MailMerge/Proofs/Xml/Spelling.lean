import MailMerge.Proofs.Text.Search
import MailMerge.Xml.Chars
import MailMerge.Xml.Reader
import MailMerge.Xml.Writer

/-! Classes of characters that markup keeps apart, and the line ends that reading unifies. No
character of a name is blank or a mark of a tag, so where a name ends is never in doubt. A name is written
plainly or as two plain names with a colon between; the reader takes a name to its last character, and what it
takes is such a name. -/
namespace MailMerge.Xml
open Text

/-- No blank point is in the table of word characters. -/
private theorem notMem_wordRanges : ∀ n ∈ blankPoints,
    (wordRanges.toList.any fun range => range.1 ≤ n && n ≤ range.2) = false := by
  decide +kernel

theorem isWord_of_isBlank {c : Char} (blank : isBlank c = true) : isWord c = false := by
  unfold isWord
  split
  · exact eq_false_of_isBlank (fun c => c.isAlphanum || c == '_') (by decide) blank
  · rw [Ranges.contains,← Array.any_toList]
    exact notMem_wordRanges _ (toNat_mem_of_isBlank blank)

theorem isNameChar_of_isBlank {c : Char} (blank : isBlank c = true) : isNameChar c = false := by
  have others := eq_false_of_isBlank (fun c => c.isAlpha || c == '_' || c.isDigit || c == '-' ||
    c == '.' || c == '\u00b7' || (0x300 ≤ c.toNat && c.toNat < 0x370)) (by decide) blank
  simp only [Bool.or_eq_false_iff] at others
  simp [isNameChar,isNameStart,isWord_of_isBlank blank,others]

theorem isBlank_of_isSpace {c : Char} (space : isSpace c = true) : isBlank c = true := by
  simp only [isSpace,Bool.or_eq_true,beq_iff_eq] at space
  rcases space with ((rfl | rfl) | rfl) | rfl <;> decide

theorem isNameChar_of_isSpace {c : Char} (space : isSpace c = true) : isNameChar c = false :=
  isNameChar_of_isBlank (isBlank_of_isSpace space)

theorem isNameChar_of_isNameStart {c : Char} (start : isNameStart c = true) :
    isNameChar c = true := by
  simp [isNameChar,start]

theorem isNameChar_of_isPlainName {s : List Char} (plain : isPlainName s = true) :
    s.all isNameChar = true := by
  cases s with
  | nil => rfl
  | cons c rest =>
    simp only [isPlainName,Bool.and_eq_true] at plain
    simp [isNameChar_of_isNameStart plain.1,plain.2]

/-- A character that no name has is in no plain name. -/
theorem notMem_of_isPlainName {s : List Char} (plain : isPlainName s = true) {c : Char}
    (other : isNameChar c = false) : c ∉ s := by
  intro member
  have held := List.all_eq_true.mp (isNameChar_of_isPlainName plain) c member
  rw [other] at held
  exact Bool.false_ne_true held

@[simp] theorem unifyLines_nil : unifyLines [] = [] := rfl

theorem unifyLines_cons {c : Char} (other : c ≠ '\r') (rest : List Char) :
    unifyLines (c :: rest) = c :: unifyLines rest := by
  rw [unifyLines]
  · intro text same
    exact absurd same other
  · exact other

theorem unifyLines_return {rest : List Char} (alone : rest.head? ≠ some '\n') :
    unifyLines ('\r' :: rest) = '\n' :: unifyLines rest := by
  rw [unifyLines]
  intro text same
  simp [same] at alone

/-- Texts are unified one by one unless a line end of two characters lies across their border. -/
theorem unifyLines_append {first second : List Char}
    (apart : first.getLast? ≠ some '\r' ∨ second.head? ≠ some '\n') :
    unifyLines (first ++ second) = unifyLines first ++ unifyLines second := by
  induction first using unifyLines.induct with
  | case1 rest ih =>
    have later : rest.getLast? ≠ some '\r' ∨ second.head? ≠ some '\n' := by
      refine apart.imp_left fun last same => last ?_
      simp [List.getLast?_cons,same]
    simp [unifyLines,ih later]
  | case2 rest other ih =>
    cases rest with
    | nil =>
      have alone : second.head? ≠ some '\n' := by simpa using apart
      rw [List.cons_append,List.nil_append,unifyLines_return alone]
      rfl
    | cons c rest =>
      have different : c ≠ '\n' := fun same => other rest (by rw [same])
      rw [List.cons_append,unifyLines_return (by simp [different]),
        unifyLines_return (by simp [different]),ih (by simpa [List.getLast?_cons] using apart),
        List.cons_append]
  | case3 c rest _ other ih =>
    have different : c ≠ '\r' := other
    rw [List.cons_append,unifyLines_cons different,unifyLines_cons different,List.cons_append]
    cases rest with
    | nil => rfl
    | cons d rest => rw [ih (by simpa [List.getLast?_cons] using apart)]
  | case4 => rfl

theorem unifyLines_of_notMem {text : List Char} (absent : '\r' ∉ text) :
    unifyLines text = text := by
  induction text with
  | nil => rfl
  | cons c rest ih =>
    rw [List.mem_cons,not_or] at absent
    rw [unifyLines_cons (Ne.symm absent.1),ih absent.2]

theorem notMem_unifyLines (text : List Char) : '\r' ∉ unifyLines text := by
  induction text using unifyLines.induct with
  | case1 rest ih => simpa [unifyLines] using ih
  | case2 rest other ih =>
    rw [unifyLines]
    · simpa using ih
    · exact other
  | case3 c rest _ other ih =>
    have different : c ≠ '\r' := other
    rw [unifyLines_cons different]
    simpa [Ne.symm different] using ih
  | case4 => simp

theorem unifyLines_eq_self_iff {text : List Char} : unifyLines text = text ↔ '\r' ∉ text :=
  ⟨fun same => same ▸ notMem_unifyLines text,unifyLines_of_notMem⟩

/-- The characters of written names. -/
def inSpelling (c : Char) : Bool :=
  isNameChar c || c == ':'

/-- A name as it can be written in a tag. -/
def IsSpelling (s : List Char) : Prop :=
  (splitOn ':' s).length ≤ 2 ∧ (splitOn ':' s).all isPlainName = true

private theorem colon_notMem {s : List Char} (plain : isPlainName s = true) : ':' ∉ s :=
  notMem_of_isPlainName plain (by decide)

theorem isSpelling_of_isPlainName {s : List Char} (plain : isPlainName s = true) :
    IsSpelling s := by
  simp [IsSpelling,splitOn_of_notMem ':' (colon_notMem plain),plain]

theorem isSpelling_prefixed {label stem : List Char} (plainLabel : isPlainName label = true)
    (plainStem : isPlainName stem = true) : IsSpelling (label ++ ':' :: stem) := by
  have pieces : splitOn ':' (label ++ ':' :: stem) = [label,stem] := by
    rw [splitOn_append ':' stem (colon_notMem plainLabel),
      splitOn_of_notMem ':' (colon_notMem plainStem)]
  simp [IsSpelling,pieces,plainLabel,plainStem]

namespace IsSpelling

variable {s : List Char}

/-- A written name is plain, or has a plain prefix and a plain stem. -/
theorem cases (spelling : IsSpelling s) : (isPlainName s = true ∧ splitOn ':' s = [s]) ∨
    ∃ label stem, s = label ++ ':' :: stem ∧ isPlainName label = true ∧
      isPlainName stem = true ∧ splitOn ':' s = [label,stem] := by
  obtain ⟨short,plain⟩ := spelling
  have whole := intercalate_splitOn ':' s
  match pieces : splitOn ':' s with
  | [] => exact absurd pieces (splitOn_ne_nil ':' s)
  | [piece] =>
    rw [pieces] at whole plain
    obtain rfl : piece = s := by simpa using whole
    exact Or.inl ⟨by simpa using plain,rfl⟩
  | [label,stem] =>
    rw [pieces] at whole plain
    simp only [List.all_cons,List.all_nil,Bool.and_true,Bool.and_eq_true] at plain
    refine Or.inr ⟨label,stem,?_,plain.1,plain.2,rfl⟩
    simpa [List.intercalate_cons_cons] using whole.symm
  | _ :: _ :: _ :: _ => simp [pieces] at short

theorem all_inSpelling (spelling : IsSpelling s) : s.all inSpelling = true := by
  have member : ∀ {text : List Char}, isPlainName text = true → text.all inSpelling = true := by
    intro text plain
    have names := isNameChar_of_isPlainName plain
    simp only [List.all_eq_true] at names ⊢
    intro c member
    simp [inSpelling,names c member]
  rcases spelling.cases with ⟨plain,_⟩ | ⟨label,stem,rfl,first,second,_⟩
  · exact member plain
  · simp [member first,member second,inSpelling]

theorem exists_start (spelling : IsSpelling s) : ∃ c rest, s = c :: rest ∧ isNameStart c = true := by
  have start : ∀ {text : List Char}, isPlainName text = true →
      ∃ c rest, text = c :: rest ∧ isNameStart c = true := by
    intro text plain
    cases text with
    | nil => simp [isPlainName] at plain
    | cons c rest =>
      simp only [isPlainName,Bool.and_eq_true] at plain
      exact ⟨c,rest,rfl,plain.1⟩
  rcases spelling.cases with ⟨plain,_⟩ | ⟨label,stem,rfl,first,_,_⟩
  · exact start plain
  · obtain ⟨c,rest,rfl,begun⟩ := start first
    exact ⟨c,rest ++ ':' :: stem,rfl,begun⟩

end IsSpelling

theorem name?_append {s rest : List Char} (spelling : IsSpelling s) (halts : Halts inSpelling rest) :
    name? (s ++ rest) = some (String.ofList s,rest) := by
  have head : (s ++ rest).takeWhile (fun c => isNameChar c || c == ':') = s :=
    takeWhile_run spelling.all_inSpelling halts
  unfold IsSpelling at spelling
  simp [name?,head,spelling.1,spelling.2]

theorem of_name? {text rest : List Char} {written : String}
    (read : name? text = some (written,rest)) :
    text = written.toList ++ rest ∧ IsSpelling written.toList ∧ Halts inSpelling rest := by
  obtain ⟨run,split,_,taken⟩ := exists_run inSpelling text
  have taken : text.takeWhile (fun c => isNameChar c || c == ':') = run := taken
  simp only [name?,taken] at read
  split at read
  · next fine =>
    obtain ⟨rfl,rfl⟩ := Prod.mk.inj (Option.some.inj read)
    have dropped : text.drop run.length = text.dropWhile inSpelling := by
      conv_lhs => rw [split]
      simp
    rw [dropped,String.toList_ofList]
    refine ⟨split,?_,halts_dropWhile _ _⟩
    simpa [IsSpelling] using fine
  · simp at read

end MailMerge.Xml
