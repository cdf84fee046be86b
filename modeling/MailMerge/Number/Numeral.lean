import MailMerge.Fault
import MailMerge.Number.Binary64
import MailMerge.Text.Blank
import MailMerge.Text.Digit
import MailMerge.Text.Lower

/-! Numerals in text. Digits of every script count; a single underscore may separate two digits.
An integer of more than 4300 digits is refused.
-/
namespace MailMerge.Number
open Text

/-- The longest integer numeral that is read or written. -/
def maxIntegerDigits : Nat := 4300

/-- Blank characters around a numeral. The four information separators are not among them. -/
def isMargin (c : Char) : Bool :=
  c == ' ' || (0x9 ≤ c.toNat && c.toNat ≤ 0xd) || (0x80 ≤ c.toNat && isBlank c)

/-- Trims a numeral. -/
def trimNumeral (s : List Char) : List Char :=
  ((s.dropWhile isMargin).reverse.dropWhile isMargin).reverse

/-- Splits a sign from a numeral: whether it is negative, and the rest. -/
def splitSign : List Char → Bool × List Char
  | '-' :: rest => (true, rest)
  | '+' :: rest => (false, rest)
  | rest => (false, rest)

/-- The digits at the start of a text and the rest. A single underscore between two digits is
skipped; the flag says whether the character before was a digit. -/
def takeDigits (afterDigit : Bool) : List Char → List Nat × List Char
  | [] => ([], [])
  | c :: rest =>
    match digitValue? c with
    | some v =>
      let (vs, tail) := takeDigits true rest
      (v :: vs, tail)
    | none =>
      if c == '_' && afterDigit && rest.head?.any isDecimal then takeDigits false rest
      else ([], c :: rest)

/-- The number written by a list of decimal digits. -/
def ofDigits (digits : List Nat) : Nat :=
  digits.foldl (fun n d => n * 10 + d) 0

/-- Reads an integer numeral. -/
def readInt? (text : List Char) : Option Int :=
  let (negative, rest) := splitSign (trimNumeral text)
  match takeDigits false rest with
  | (d :: ds, []) =>
    if maxIntegerDigits < ds.length + 1 then none
    else
      let n : Int := ofDigits (d :: ds)
      some (if negative then -n else n)
  | _ => none

/-- Reads the power of ten at the end of a numeral. -/
def readExponent? : List Char → Option Int
  | [] => some 0
  | c :: rest =>
    if c == 'e' || c == 'E' then
      let (negative, rest) := splitSign rest
      match takeDigits false rest with
      | (d :: ds, []) =>
        let n : Int := ofDigits (d :: ds)
        some (if negative then -n else n)
      | _ => none
    else none

/-- Reads an unsigned decimal numeral: digits around an optional point, at least one digit,
then an optional power of ten. -/
def readUnsigned? (negative : Bool) (text : List Char) : Option Binary64 :=
  let (whole, rest) := takeDigits false text
  let (fraction, rest) := match rest with
    | '.' :: tail => takeDigits false tail
    | rest => ([], rest)
  if whole.isEmpty && fraction.isEmpty then none
  else (readExponent? rest).map fun exponent =>
    .ofDecimal negative (ofDigits (whole ++ fraction)) (exponent - fraction.length)

/-- Reads a number: a decimal numeral, an infinity or not-a-number, with an optional sign. -/
def read? (text : List Char) : Option Binary64 :=
  let (negative, rest) := splitSign (trimNumeral text)
  let word := String.ofList (rest.map Char.toLower)
  if word == "inf" || word == "infinity" then some (.infinity negative)
  else if word == "nan" then some .nan
  else readUnsigned? negative rest

/-- The decimal digits of an integer, unless there are too many. -/
def intText? (n : Int) : Option String :=
  if n.natAbs < Nat.pow 10 maxIntegerDigits then some (toString n) else none

/-- The decimal digits of an integer. Too many are a breakdown. -/
def digits (n : Int) : Except Fault String :=
  match intText? n with
  | some text => .ok text
  | none => .error (.breakdown .value)

end MailMerge.Number
