import MailMerge.Data.Value
import MailMerge.Number.Numeral
import MailMerge.Text.Search

/-! Reading structured text. The grammar is the usual one with three more numbers, `NaN`,
`Infinity` and `-Infinity`. Of equal keys the first gives the place and the last the value.
Every way to fail carries the position at which the text stops making sense.
-/
namespace MailMerge.Json
open Text

/-- Why a text cannot be read. -/
inductive Cause where
  | byteOrderMark
  | extraData
  | expectingValue
  | expectingName
  | expectingColon
  | expectingComma
  | unterminated
  | controlCharacter
  | badEscape
  | badCodePoint
  /-- an integer with more digits than are read -/
  | longInteger
  deriving DecidableEq, Repr

/-- A cause and the position of the character it is about. -/
structure Failure where
  cause : Cause
  position : Nat
  deriving DecidableEq, Repr

/-- The words for a cause. -/
def Cause.message : Cause → String
  | .byteOrderMark => "Unexpected UTF-8 BOM (decode using utf-8-sig)"
  | .extraData => "Extra data"
  | .expectingValue => "Expecting value"
  | .expectingName => "Expecting property name enclosed in double quotes"
  | .expectingColon => "Expecting ':' delimiter"
  | .expectingComma => "Expecting ',' delimiter"
  | .unterminated => "Unterminated string starting at"
  | .controlCharacter => "Invalid control character at"
  | .badEscape => "Invalid \\escape"
  | .badCodePoint => "Invalid \\uXXXX escape"
  | .longInteger => "Exceeds the limit for integer conversion"

/-- A failure in words, with line and column counted from one and the position from zero. -/
def Failure.message (text : List Char) (f : Failure) : String :=
  let before := text.take f.position
  let line := before.countP (· == '\n') + 1
  let column := (before.reverse.takeWhile (· != '\n')).length + 1
  s!"{f.cause.message}: line {line} column {column} (char {f.position})"

/-- The unread text and the position of its first character. -/
structure Cursor where
  rest : List Char
  pos : Nat

namespace Cursor

/-- Moves past `n` characters. -/
def advance (c : Cursor) (n : Nat) : Cursor :=
  ⟨c.rest.drop n, c.pos + n⟩

/-- Moves past spaces, tabs and line ends. -/
def skipSpace (c : Cursor) : Cursor :=
  c.advance (c.rest.takeWhile fun x => x == ' ' || x == '\t' || x == '\n' || x == '\r').length

/-- A failure at the cursor. -/
def fail {α : Type} (c : Cursor) (cause : Cause) : Except Failure α :=
  .error ⟨cause, c.pos⟩

end Cursor

/-- The value of a digit in base sixteen. -/
def hexValue? (c : Char) : Option Nat :=
  if c.isDigit then some (c.toNat - '0'.toNat)
  else if 'a' ≤ c && c ≤ 'f' then some (c.toNat - 'a'.toNat + 10)
  else if 'A' ≤ c && c ≤ 'F' then some (c.toNat - 'A'.toNat + 10)
  else none

/-- The code unit written by exactly four digits in base sixteen. -/
def hexUnit? (digits : List Char) : Option Nat :=
  if digits.length == 4 then
    digits.foldlM (fun n c => (hexValue? c).map (n * 16 + ·)) 0
  else none

/-- The character that an escape letter stands for. -/
def escapeChar? : Char → Option Char
  | '"' => some '"'
  | '\\' => some '\\'
  | '/' => some '/'
  | 'b' => some '\x08'
  | 'f' => some '\x0c'
  | 'n' => some '\n'
  | 'r' => some '\r'
  | 't' => some '\t'
  | _ => none

/-- Reads a string after its opening quote, which stands at `start`. A pair of escaped
surrogates is one character; a surrogate alone is replaced. -/
def readString (fuel start : Nat) (c : Cursor) (acc : List Char) :
    Except Failure (String × Cursor) :=
  match fuel with
  | 0 => .error ⟨.unterminated, start⟩
  | fuel + 1 =>
    match c.rest with
    | [] => .error ⟨.unterminated, start⟩
    | '"' :: _ => .ok (String.ofList acc.reverse, c.advance 1)
    | '\\' :: [] => .error ⟨.unterminated, start⟩
    | '\\' :: 'u' :: more =>
      match hexUnit? (more.take 4), more.drop 4 with
      | some unit, tail@(_ :: _) =>
        let pair := if 0xD800 ≤ unit && unit < 0xDC00 then
            match tail with
            | '\\' :: 'u' :: low => if low.length < 5 then none else some (low.take 4)
            | _ => none
          else none
        match pair with
        | none =>
          let code := if 0xD800 ≤ unit && unit < 0xE000 then 0xFFFD else unit
          readString fuel start (c.advance 6) (Char.ofNat code :: acc)
        | some low =>
          match hexUnit? low with
          | none => .error ⟨.badCodePoint, c.pos + 7⟩
          | some second =>
            if 0xDC00 ≤ second && second < 0xE000 then
              readString fuel start (c.advance 12)
                (Char.ofNat (0x10000 + (unit - 0xD800) * 0x400 + (second - 0xDC00)) :: acc)
            else readString fuel start (c.advance 6) ('\uFFFD' :: acc)
      | _, _ => .error ⟨.badCodePoint, c.pos + 1⟩
    | '\\' :: letter :: _ =>
      match escapeChar? letter with
      | some x => readString fuel start (c.advance 2) (x :: acc)
      | none => c.fail .badEscape
    | x :: _ =>
      if x.toNat < 0x20 then c.fail .controlCharacter
      else readString fuel start (c.advance 1) (x :: acc)

/-- The lexeme of a number at the start of a text: the characters of the integer part, and of
the fraction and power of ten together. -/
def numberLexeme? (text : List Char) : Option (List Char × List Char) :=
  let (sign, body) := match text with
    | '-' :: body => (['-'], body)
    | body => ([], body)
  let whole := match body with
    | '0' :: _ => ['0']
    | body => body.takeWhile Char.isDigit
  if whole.isEmpty then none
  else
    let rest := body.drop whole.length
    let fraction := match rest with
      | '.' :: tail =>
        let digits := tail.takeWhile Char.isDigit
        if digits.isEmpty then [] else '.' :: digits
      | _ => []
    let rest := rest.drop fraction.length
    let power := match rest with
      | mark :: tail =>
        if mark == 'e' || mark == 'E' then
          let sign := match tail with
            | '+' :: _ => ['+']
            | '-' :: _ => ['-']
            | _ => []
          let digits := (tail.drop sign.length).takeWhile Char.isDigit
          if digits.isEmpty then [] else mark :: sign ++ digits
        else []
      | [] => []
    some (sign ++ whole, fraction ++ power)

/-- Reads a number: a float when it has a fraction or a power of ten, an integer otherwise. -/
def readNumber (c : Cursor) : Except Failure (Value × Cursor) :=
  match numberLexeme? c.rest with
  | none => c.fail .expectingValue
  | some (whole, []) =>
    match Number.readInt? whole with
    | some n => .ok (.int n, c.advance whole.length)
    | none => c.fail .longInteger
  | some (whole, tail) =>
    match Number.read? (whole ++ tail) with
    | some x => .ok (.float x, c.advance (whole.length + tail.length))
    | none => c.fail .expectingValue

/-- The names of values and what they stand for. -/
def literals : List (List Char × Value) :=
  [("null".toList, .null), ("true".toList, .bool true), ("false".toList, .bool false),
    ("NaN".toList, .float .nan), ("Infinity".toList, .float (.infinity false)),
    ("-Infinity".toList, .float (.infinity true))]

mutual

/-- Reads a value at the cursor. -/
def readValue (fuel : Nat) (c : Cursor) : Except Failure (Value × Cursor) :=
  match fuel with
  | 0 => c.fail .expectingValue
  | fuel + 1 =>
    match c.rest with
    | '"' :: _ => do
      let (s, next) ← readString (c.rest.length + 1) c.pos (c.advance 1) []
      return (.text s, next)
    | '\x7b' :: _ =>
      let next := (c.advance 1).skipSpace
      match next.rest with
      | '\x7d' :: _ => .ok (.map [], next.advance 1)
      | _ => readMembers fuel next []
    | '[' :: _ =>
      let next := (c.advance 1).skipSpace
      match next.rest with
      | ']' :: _ => .ok (.list [], next.advance 1)
      | _ => readItems fuel next []
    | _ =>
      match literals.find? fun literal => startsWith literal.1 c.rest with
      | some (name, value) => .ok (value, c.advance name.length)
      | none => readNumber c

/-- Reads the entries of a mapping, from the name of one of them to the closing brace. -/
def readMembers (fuel : Nat) (c : Cursor) (entries : List (Scalar × Value)) :
    Except Failure (Value × Cursor) :=
  match fuel with
  | 0 => c.fail .expectingName
  | fuel + 1 =>
    match c.rest with
    | '"' :: _ => do
      let (name, next) ← readString (c.rest.length + 1) c.pos (c.advance 1) []
      let next := next.skipSpace
      match next.rest with
      | ':' :: _ =>
        let (value, next) ← readValue fuel (next.advance 1).skipSpace
        let entries := Entries.insert entries (.text name) value
        let next := next.skipSpace
        match next.rest with
        | '\x7d' :: _ => return (.map entries, next.advance 1)
        | ',' :: _ => readMembers fuel (next.advance 1).skipSpace entries
        | _ => next.fail .expectingComma
      | _ => next.fail .expectingColon
    | _ => c.fail .expectingName

/-- Reads the items of a list, from one of them to the closing bracket. -/
def readItems (fuel : Nat) (c : Cursor) (items : List Value) : Except Failure (Value × Cursor) :=
  match fuel with
  | 0 => c.fail .expectingValue
  | fuel + 1 => do
    let (value, next) ← readValue fuel c
    let next := next.skipSpace
    match next.rest with
    | ']' :: _ => return (.list (value :: items).reverse, next.advance 1)
    | ',' :: _ => readItems fuel (next.advance 1).skipSpace (value :: items)
    | _ => next.fail .expectingComma

end

/-- Reads a text that holds exactly one value. -/
def read (text : List Char) : Except Failure Value :=
  match text with
  | '\uFEFF' :: _ => .error ⟨.byteOrderMark, 0⟩
  | _ => do
    let start := Cursor.skipSpace ⟨text, 0⟩
    let (value, next) ← readValue (2 * text.length + 2) start
    let next := next.skipSpace
    if next.rest.isEmpty then return value else next.fail .extraData

end MailMerge.Json
