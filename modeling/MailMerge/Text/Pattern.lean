import MailMerge.Text.Blank
import MailMerge.Text.Digit
import MailMerge.Text.Word

/-! Patterns that part names are matched against: characters and classes of them, groups,
alternatives and repetition. A pattern denotes, for every place in a text, the places at which a
match that starts there can end.
-/
namespace MailMerge.Text

/-- A pattern. -/
inductive Pattern where
  | empty
  | one (accepts : Char → Bool)
  /-- a condition on the characters before and after a place -/
  | place (accepts : List Char → List Char → Bool)
  | both (first second : Pattern)
  | either (first second : Pattern)
  | times (body : Pattern) (least : Nat) (most : Option Nat)

namespace Pattern

/-- The places that one step leads to from any of the given ones. -/
def advance (step : Nat → List Nat) (places : List Nat) : List Nat :=
  (places.flatMap step).eraseDups

/-- The places that at most `count` steps lead to. -/
def within (step : Nat → List Nat) (places : List Nat) : Nat → List Nat
  | 0 => places
  | count + 1 => (places ++ within step (advance step places) count).eraseDups

/-- The places at which a match that starts at a place can end. -/
def stops (text : List Char) : Pattern → Nat → List Nat
  | empty, i => [i]
  | one accepts, i =>
    match text[i]? with
    | some c => if accepts c then [i + 1] else []
    | none => []
  | place accepts, i => if accepts (text.take i) (text.drop i) then [i] else []
  | both first second, i => advance (second.stops text) (first.stops text i)
  | either first second, i => (first.stops text i ++ second.stops text i).eraseDups
  | times body least most, i =>
    let step := body.stops text
    let begun := (List.replicate least ()).foldl (fun places _ => advance step places) [i]
    match most with
    | some most => within step begun (most - least)
    | none => within step begun (text.length + 1)

/-- Some match starts at the beginning of the text. -/
def startsText (p : Pattern) (text : String) : Bool :=
  !(p.stops text.toList 0).isEmpty

/-- The class of characters that an escaped letter denotes. -/
def escapedClass? : Char → Option (Char → Bool)
  | 'd' => some isDecimal
  | 'D' => some fun c => !isDecimal c
  | 'w' => some isWord
  | 'W' => some fun c => !isWord c
  | 's' => some isBlank
  | 'S' => some fun c => !isBlank c
  | _ => none

/-- The character that an escaped character stands for. Letters and digits without a meaning
cannot be escaped. -/
def escapedChar? : Char → Option Char
  | 'n' => some '\n'
  | 't' => some '\t'
  | 'r' => some '\r'
  | 'f' => some '\x0c'
  | 'v' => some '\x0b'
  | 'a' => some '\x07'
  | c => if c.isAlphanum then none else some c

/-- The place between a word character and another. -/
def isEdge (before after : List Char) : Bool :=
  before.getLast?.any isWord != after.head?.any isWord

/-- The pattern that an escaped character denotes outside a class. -/
def escaped? (c : Char) : Option Pattern :=
  match c with
  | 'A' => some (place fun before _ => before.isEmpty)
  | 'Z' => some (place fun _ after => after.isEmpty)
  | 'b' => some (place isEdge)
  | 'B' => some (place fun before after => !isEdge before after)
  | c =>
    match escapedClass? c with
    | some accepts => some (one accepts)
    | none => (escapedChar? c).map fun d => one (· == d)

/-- Reads one member of a class: a character, or a whole class behind an escape. -/
def member? : List Char → Option ((Char ⊕ (Char → Bool)) × List Char)
  | '\\' :: c :: rest =>
    match escapedClass? c with
    | some accepts => some (.inr accepts, rest)
    | none =>
      if c == 'b' then some (.inl '\x08', rest)
      else (escapedChar? c).map fun d => (.inl d, rest)
  | ['\\'] => none
  | c :: rest => some (.inl c, rest)
  | [] => none

/-- Reads the members of a class up to its closing bracket, which may itself be the first. -/
def members? (fuel : Nat) (isFirst : Bool) (accepts : Char → Bool) (text : List Char) :
    Option ((Char → Bool) × List Char) :=
  match fuel, text with
  | 0, _ | _, [] => none
  | fuel + 1, c :: rest =>
    if c == ']' && !isFirst then some (accepts, rest)
    else do
      let (low, rest) ← member? (c :: rest)
      match low, rest with
      | .inr these, rest => members? fuel false (fun d => accepts d || these d) rest
      | .inl low, '-' :: ']' :: rest => some (fun d => accepts d || d == low || d == '-', rest)
      | .inl low, '-' :: rest =>
        match ← member? rest with
        | (.inl high, rest) =>
          if high < low then none
          else members? fuel false (fun d => accepts d || (low ≤ d && d ≤ high)) rest
        | (.inr _, _) => none
      | .inl low, rest => members? fuel false (fun d => accepts d || d == low) rest

/-- Reads the digits at the start of a text as a number, if there are any. -/
def count (text : List Char) : Option Nat × List Char :=
  let digits := text.takeWhile Char.isDigit
  (if digits.isEmpty then none else (String.ofList digits).toNat?, text.drop digits.length)

/-- Reads a mark of repetition: the least and greatest number of times. -/
def repetition? (text : List Char) : Option ((Nat × Option Nat) × List Char) :=
  match text with
  | '*' :: rest => some ((0, none), rest)
  | '+' :: rest => some ((1, none), rest)
  | '?' :: rest => some ((0, some 1), rest)
  | '\x7b' :: rest =>
    match count rest with
    | (some n, '\x7d' :: rest) => some ((n, some n), rest)
    | (least, ',' :: rest) =>
      match count rest with
      | (most, '\x7d' :: rest) => some ((least.getD 0, most), rest)
      | _ => none
    | _ => none
  | _ => none

/-- Reads the mark of repetition after a pattern. A question mark behind it changes which match
is preferred but not which there are. -/
def repeated? (p : Pattern) (text : List Char) : Option (Pattern × List Char) :=
  match repetition? text with
  | none => some (p, text)
  | some ((least, most), rest) =>
    if most.any (· < least) then none
    else
      let rest := match rest with
        | '?' :: rest => rest
        | rest => rest
      if (repetition? rest).isSome then none else some (times p least most, rest)

/-- Reads a group's head: whatever comes before the pattern in it. -/
def groupBody? (text : List Char) : Option (List Char) :=
  match text with
  | '?' :: ':' :: rest => some rest
  | '?' :: 'P' :: '<' :: rest =>
    let label := rest.takeWhile isWord
    match rest.drop label.length with
    | '>' :: rest => if label.isEmpty then none else some rest
    | _ => none
  | '?' :: _ => none
  | rest => some rest

/-- Reads alternatives up to the end or a closing bracket. `done` are the alternatives before the
present one, which has begun with `begun`. -/
def alternatives? (fuel : Nat) (done : Option Pattern) (begun : Pattern) (text : List Char) :
    Option (Pattern × List Char) :=
  let close (p : Pattern) : Pattern := match done with
    | some d => either d p
    | none => p
  match fuel with
  | 0 => none
  | fuel + 1 =>
    match text with
    | [] | ')' :: _ => some (close begun, text)
    | '|' :: rest => alternatives? fuel (some (close begun)) empty rest
    | '(' :: rest => do
      match ← alternatives? fuel none empty (← groupBody? rest) with
      | (body, ')' :: rest) =>
        let (p, rest) ← repeated? body rest
        alternatives? fuel done (both begun p) rest
      | _ => none
    | '^' :: rest =>
      if (repetition? rest).isSome then none
      else alternatives? fuel done (both begun (place fun before _ => before.isEmpty)) rest
    | '$' :: rest =>
      if (repetition? rest).isSome then none
      else alternatives? fuel done
        (both begun (place fun _ after => after.isEmpty || after == ['\n'])) rest
    | '[' :: '^' :: rest => do
      let (accepts, rest) ← members? fuel true (fun _ => false) rest
      let (p, rest) ← repeated? (one fun c => !accepts c) rest
      alternatives? fuel done (both begun p) rest
    | '[' :: rest => do
      let (accepts, rest) ← members? fuel true (fun _ => false) rest
      let (p, rest) ← repeated? (one accepts) rest
      alternatives? fuel done (both begun p) rest
    | '\\' :: c :: rest => do
      let (p, rest) ← repeated? (← escaped? c) rest
      alternatives? fuel done (both begun p) rest
    | ['\\'] => none
    | c :: rest => do
      if (repetition? (c :: rest)).isSome then none
      let accepts : Char → Bool := if c == '.' then (· != '\n') else (· == c)
      let (p, rest) ← repeated? (one accepts) rest
      alternatives? fuel done (both begun p) rest

/-- The pattern written in a text, if it is well formed. -/
def ofText? (text : String) : Option Pattern :=
  match alternatives? (text.length + 1) none empty text.toList with
  | some (p, []) => some p
  | _ => none

end Pattern
end MailMerge.Text
