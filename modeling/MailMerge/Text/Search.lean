/-! Looking for a piece of text inside another, on lists of characters.
-/
namespace MailMerge.Text

/-- What follows `piece` when the text starts with it. -/
def after? : List Char → List Char → Option (List Char)
  | [], text => some text
  | _ :: _, [] => none
  | p :: piece, c :: text => if p == c then after? piece text else none

/-- The text before and after the first occurrence of `piece`. -/
def cut? (piece : List Char) : List Char → Option (List Char × List Char)
  | [] => if piece.isEmpty then some ([], []) else none
  | c :: rest =>
    match after? piece (c :: rest) with
    | some tail => some ([], tail)
    | none => (cut? piece rest).map fun (head, tail) => (c :: head, tail)

/-- Puts `new` in the place of the first occurrence of `piece`. -/
def replaceFirst (piece new text : List Char) : List Char :=
  match cut? piece text with
  | some (head, tail) => head ++ new ++ tail
  | none => text

/-- Puts `new` in the place of every occurrence of one character. -/
def replaceChar (old : Char) (new : List Char) (text : List Char) : List Char :=
  text.flatMap fun c => if c == old then new else [c]

/-- The pieces between the occurrences of a separating character. -/
def splitOn (sep : Char) : List Char → List (List Char)
  | [] => [[]]
  | c :: rest =>
    if c == sep then [] :: splitOn sep rest
    else match splitOn sep rest with
      | [] => [[c]]
      | piece :: pieces => (c :: piece) :: pieces

/-- The text after the last occurrence of a character, with what stands before that
occurrence; `none` when the character is absent. -/
def cutLast? (sep : Char) (text : List Char) : Option (List Char × List Char) :=
  let tail := (text.reverse.takeWhile (· != sep)).reverse
  if tail.length < text.length then some (text.take (text.length - tail.length - 1), tail) else none

/-- The text starts with the piece. -/
def startsWith (piece text : List Char) : Bool :=
  (after? piece text).isSome

/-- The text ends with the piece. -/
def endsWith (piece text : List Char) : Bool :=
  startsWith piece.reverse text.reverse

/-- The piece occurs in the text. -/
def occursIn (piece text : List Char) : Bool :=
  (cut? piece text).isSome

theorem eq_append_of_after? {piece text rest : List Char} (h : after? piece text = some rest) :
    text = piece ++ rest := by
  induction piece generalizing text with
  | nil => simpa [after?] using h
  | cons p piece ih =>
    cases text with
    | nil => simp [after?] at h
    | cons c text =>
      simp only [after?] at h
      split at h
      · rename_i eq
        simp [ih h, eq_of_beq eq]
      · simp at h

theorem eq_append_of_cut? {piece text head tail : List Char}
    (h : cut? piece text = some (head, tail)) : text = head ++ piece ++ tail := by
  induction text generalizing head tail with
  | nil =>
    simp only [cut?] at h
    split at h
    · simp_all
    · simp at h
  | cons c rest ih =>
    simp only [cut?] at h
    split at h
    · rename_i found
      simp only [Option.some.injEq, Prod.mk.injEq] at h
      obtain ⟨rfl, rfl⟩ := h
      simpa using eq_append_of_after? found
    · obtain ⟨⟨first, second⟩, found, eq⟩ := Option.map_eq_some_iff.mp h
      simp only [Prod.mk.injEq] at eq
      obtain ⟨rfl, rfl⟩ := eq
      simp [ih found]

end MailMerge.Text
