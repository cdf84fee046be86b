import MailMerge.Data.Value
import MailMerge.Number.Numeral
import MailMerge.Text.Lower
import MailMerge.Text.Search

/-! The kinds of scalars. A plain scalar shows its kind by its form: some words are truth values,
digits make numbers, dates and moments have their usual look, and everything else is text. The
same readings apply when the kind is given by a tag.
-/
namespace MailMerge.Yaml
open Text

/-- The kinds of nodes. -/
inductive Kind where
  | null
  | bool
  | int
  | float
  | moment
  | text
  /-- the key that takes over the entries of other mappings -/
  | merge
  /-- the key of the usual value -/
  | usual
  | list
  | map
  deriving DecidableEq, Repr, Inhabited

namespace Kind

/-- The kind that a tag names. -/
def ofName? : String → Option Kind
  | "null" => some null
  | "bool" => some bool
  | "int" => some int
  | "float" => some float
  | "timestamp" => some moment
  | "str" => some text
  | "merge" => some merge
  | "value" => some usual
  | "seq" => some list
  | "map" => some map
  | _ => none

/-- Decimal digits and separating underscores. -/
def isDigitOrLow (c : Char) : Bool :=
  c.isDigit || c == '_'

/-- A text without its sign. -/
def unsigned : List Char → List Char
  | '-' :: rest => rest
  | '+' :: rest => rest
  | cs => cs

/-- A digit and then digits or underscores. -/
def isNumeral (first : Char → Bool) : List Char → Bool
  | c :: rest => first c && rest.all isDigitOrLow
  | [] => false

/-- One or two digits of a number below sixty. -/
def isSixtieth : List Char → Bool
  | [a] => a.isDigit
  | [a, b] => '0' ≤ a && a ≤ '5' && b.isDigit
  | _ => false

/-- Numbers to the base sixty, separated by colons. -/
def isSexagesimal (first : Char → Bool) (text : List Char) : Bool :=
  match splitOn ':' text with
  | head :: second :: more => isNumeral first head && (second :: more).all isSixtieth
  | _ => false

/-- The form of integers. -/
def isInt (text : List Char) : Bool :=
  let body := unsigned text
  let all (test : Char → Bool) (digits : List Char) : Bool := !digits.isEmpty && digits.all test
  let isHex (c : Char) : Bool := c.isDigit || ('a' ≤ c && c ≤ 'f') || ('A' ≤ c && c ≤ 'F')
  match body with
  | '0' :: 'b' :: digits => all (fun c => c == '0' || c == '1' || c == '_') digits
  | '0' :: 'x' :: digits => all (fun c => isHex c || c == '_') digits
  | ['0'] => true
  | '0' :: digits => all (fun c => ('0' ≤ c && c ≤ '7') || c == '_') digits
  | body =>
    isNumeral (fun c => '1' ≤ c && c ≤ '9') body ||
      isSexagesimal (fun c => '1' ≤ c && c ≤ '9') body

/-- The form of a power of ten at the end of a number, which needs a sign. -/
def isPower : List Char → Bool
  | [] => true
  | e :: sign :: digits =>
    (e == 'e' || e == 'E') && (sign == '+' || sign == '-') && !digits.isEmpty &&
      digits.all Char.isDigit
  | _ => false

/-- The form of numbers with a point. -/
def isFloat (text : List Char) : Bool :=
  let body := unsigned text
  let hasSign := body.length < text.length
  match cut? ['.'] body with
  | none => false
  | some (head, tail) =>
    let power := isPower (tail.dropWhile isDigitOrLow)
    if head.isEmpty then
      ["inf", "Inf", "INF"].contains (String.ofList tail) ||
        (!hasSign && (["nan", "NaN", "NAN"].contains (String.ofList tail) ||
          (tail.head?.any Char.isDigit && power)))
    else (isNumeral Char.isDigit head && power) ||
      (isSexagesimal Char.isDigit head && tail.all isDigitOrLow)

/-- One or two digits at the start of a text, as a number. -/
def pair? : List Char → Option (Nat × List Char)
  | a :: b :: rest =>
    if !a.isDigit then none
    else if b.isDigit then some ((a.toNat - 48) * 10 + (b.toNat - 48), rest)
    else some (a.toNat - 48, b :: rest)
  | [a] => if a.isDigit then some (a.toNat - 48, []) else none
  | [] => none

/-- Exactly two digits at the start of a text, as a number. -/
def twoDigits? : List Char → Option (Nat × List Char)
  | a :: b :: rest =>
    if a.isDigit && b.isDigit then some ((a.toNat - 48) * 10 + (b.toNat - 48), rest) else none
  | _ => none

/-- The text after a character. -/
def past? (c : Char) : List Char → Option (List Char)
  | d :: rest => if c == d then some rest else none
  | [] => none

/-- Reads the offset of a moment in microseconds; there may be none. -/
def offset? (text : List Char) : Option (Option Int) :=
  match text.dropWhile fun c => c == ' ' || c == '\t' with
  | [] => if text.isEmpty then some none else none
  | 'Z' :: [] => some (some 0)
  | sign :: rest => do
    if sign != '+' && sign != '-' then none
    let (hours, rest) ← pair? rest
    let minutes ← match rest with
      | [] => some 0
      | rest => do
        let (minutes, rest) ← past? ':' rest >>= twoDigits?
        if rest.isEmpty then some minutes else none
    let size : Int := ((hours * 60 + minutes) * 60 : Nat) * 1000000
    some (some (if sign == '-' then -size else size))

/-- Reads the fields of a date, and of a time of day if one follows. What is read need not exist
in the calendar. -/
def fields? (text : List Char) : Option (Date × Option Moment) := do
  let (century, rest) ← twoDigits? text
  let (year, rest) ← twoDigits? rest
  let (month, rest) ← past? '-' rest >>= pair?
  let (day, rest) ← past? '-' rest >>= pair?
  let date : Date := ⟨century * 100 + year, month, day⟩
  if rest.isEmpty then some (date, none)
  else
    let time ← match rest with
      | c :: more =>
        if c == 'T' || c == 't' then some more
        else if c == ' ' || c == '\t' then some (more.dropWhile fun c => c == ' ' || c == '\t')
        else none
      | [] => none
    let (hour, rest) ← pair? time
    let (minute, rest) ← past? ':' rest >>= twoDigits?
    let (second, rest) ← past? ':' rest >>= twoDigits?
    let (fraction, rest) := match rest with
      | '.' :: rest => (rest.takeWhile Char.isDigit, rest.dropWhile Char.isDigit)
      | rest => ([], rest)
    let offset ← offset? rest
    let six := (fraction ++ List.replicate 6 '0').take 6
    let fraction := Number.ofDigits (six.map (·.toNat - 48))
    some (date, some ⟨date, hour, minute, second, fraction, offset⟩)

/-- The form of dates and moments. A date alone has two digits for the month and for the day. -/
def isMoment (text : List Char) : Bool :=
  match fields? text with
  | some (_, none) => text.length == 10
  | some (_, some _) => true
  | none => false

/-- The words for truth values, in lower case. -/
def truthWords : List (String × Bool) :=
  [("yes", true), ("no", false), ("true", true), ("false", false), ("on", true), ("off", false)]

/-- The truth value of a word. -/
def truth? (text : String) : Option Bool :=
  truthWords.lookup (Text.lower text)

/-- The forms of a word: all lower case, with a capital at the start, and in capitals. -/
def isForm (word text : List Char) : Bool :=
  text == word || text == word.map Char.toUpper ||
    text == (word.take 1).map Char.toUpper ++ word.drop 1

/-- The kind that a plain scalar shows. -/
def ofPlain (text : String) : Kind :=
  let cs := text.toList
  if cs.isEmpty || cs == ['~'] || isForm "null".toList cs then null
  else if truthWords.any fun w => isForm w.1.toList cs then bool
  else if isFloat cs then float
  else if isInt cs then int
  else if isMoment cs then moment
  else if text == "<<" then merge
  else if text == "=" then usual
  else Kind.text

/-- The number that digits write in a base. -/
def inBase? (base : Nat) (digits : List Char) : Option Int :=
  let value? (c : Char) : Option Nat :=
    if c.isDigit then some (c.toNat - 48)
    else if 'a' ≤ c && c ≤ 'f' then some (c.toNat - 87)
    else if 'A' ≤ c && c ≤ 'F' then some (c.toNat - 55)
    else none
  if digits.isEmpty then none
  else (digits.foldlM (fun (n : Nat) c =>
    (value? c).bind fun d => if d < base then some (n * base + d) else none) 0).map Int.ofNat

/-- Reads an integer: binary, octal, decimal, to the base sixteen or to the base sixty. -/
def readInt? (text : List Char) : Option Int := do
  let text := text.filter (· != '_')
  let body := unsigned text
  let size ← match body with
    | ['0'] => some 0
    | '0' :: 'b' :: digits => inBase? 2 digits
    | '0' :: 'x' :: digits => inBase? 16 digits
    | '0' :: digits => inBase? 8 digits
    | body =>
      if body.contains ':' then do
        let parts ← (splitOn ':' body).mapM Number.readInt?
        some (parts.foldl (fun n d => n * 60 + d) 0)
      else Number.readInt? body
  some (if text.head? == some '-' then -size else size)

/-- Numbers to the base sixty, the last one first, summed from the lowest place. -/
def sumSixtieths (parts : List Binary64) : Binary64 :=
  (parts.foldl (fun (sum, base) x => (Binary64.plus sum (x.times base), base * 60))
    (Binary64.zero false, 1)).1

/-- Reads a number with a point. -/
def readFloat? (text : List Char) : Option Binary64 := do
  let text := (text.filter (· != '_')).map Char.toLower
  let body := unsigned text
  let size ← if body == ".inf".toList then some (.infinity false)
    else if body == ".nan".toList then some .nan
    else if body.contains ':' then
      ((splitOn ':' body).mapM Number.read?).map fun parts => sumSixtieths parts.reverse
    else Number.read? body
  some (if text.head? == some '-' then size.opposite else size)

/-- Reads a date or a moment of the calendar. Its offset is less than a day. -/
def readMoment? (text : List Char) : Option Scalar := do
  let (date, time) ← fields? text
  if !date.isValid then none
  match time with
  | none => some (.date date)
  | some t =>
    let near := t.offset.all fun o => o.natAbs < 86400000000
    if t.hour < 24 && t.minute < 60 && t.second < 60 && near then some (.moment t) else none

/-- Reads a scalar of a kind. The kinds of keys and of collections have no scalars. -/
def read? (kind : Kind) (text : String) : Option Scalar :=
  match kind with
  | .null => some .null
  | .bool => (truth? text).map .bool
  | .int => (readInt? text.toList).map .int
  | .float => (readFloat? text.toList).map .float
  | .moment => readMoment? text.toList
  | .text => some (.text text)
  | .merge | .usual | .list | .map => none

end Kind
end MailMerge.Yaml
