import MailMerge.Text.Search

/-! Directives are found by recognizers: functions that look at the start of a text and give
what they read together with the rest. Searching and repeated searching are generic in the
recognizer; a repeated search never overlaps its own findings.
-/
namespace MailMerge.Directive

/-- Reads one thing at the start of a text. -/
abbrev Recognizer (α : Type) := List Char → Option (α × List Char)

/-- What was read, where it starts and the characters it was read from. -/
structure Found (α : Type) where
  value : α
  start : Nat
  raw : List Char
  deriving Repr

namespace Found

/-- The position after the last character. -/
def stop {α : Type} (f : Found α) : Nat :=
  f.start + f.raw.length

/-- Changes the value and keeps the place. -/
def map {α β : Type} (g : α → β) (f : Found α) : Found β :=
  ⟨g f.value, f.start, f.raw⟩

end Found

/-- The first finding in a text whose first character has position `start`. -/
def firstFrom {α : Type} (r : Recognizer α) (start : Nat) : List Char → Option (Found α)
  | [] => none
  | c :: rest =>
    match r (c :: rest) with
    | some (value, tail) =>
      some ⟨value, start, (c :: rest).take (rest.length + 1 - tail.length)⟩
    | none => firstFrom r (start + 1) rest

/-- The leftmost finding in a text. -/
def first? {α : Type} (r : Recognizer α) (text : List Char) : Option (Found α) :=
  firstFrom r 0 text

/-- All findings in a text, left to right. The first `skip` characters belong to a finding
already made. -/
def allFrom {α : Type} (r : Recognizer α) (start skip : Nat) : List Char → List (Found α)
  | [] => []
  | c :: rest =>
    if 0 < skip then allFrom r (start + 1) (skip - 1) rest
    else match r (c :: rest) with
      | some (value, tail) =>
        let length := rest.length + 1 - tail.length
        ⟨value, start, (c :: rest).take length⟩ :: allFrom r (start + 1) (length - 1) rest
      | none => allFrom r (start + 1) 0 rest

/-- All findings in a text, each starting at or after the end of the one before. -/
def all {α : Type} (r : Recognizer α) (text : List Char) : List (Found α) :=
  allFrom r 0 0 text

/-- Puts a text in the place of every finding. -/
def substitute {α : Type} (text : List Char) (found : List (Found α × List Char)) : List Char :=
  let rec go (pos : Nat) (rest : List Char) : List (Found α × List Char) → List Char
    | [] => rest
    | (f, new) :: more =>
      rest.take (f.start - pos) ++ new ++ go f.stop (rest.drop (f.stop - pos)) more
  go 0 text found

end MailMerge.Directive
