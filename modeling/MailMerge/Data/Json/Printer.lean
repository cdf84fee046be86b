import MailMerge.Data.Shown
import MailMerge.Number.Numeral

/-! Compact structured text of a value. Only quotes, backslashes and the control characters
below the space are escaped. Dates have no form here.
-/
namespace MailMerge.Json

/-- One character of a string. -/
def escapedChar (c : Char) : List Char :=
  if c == '"' then ['\\', '"']
  else if c == '\\' then ['\\', '\\']
  else if c == '\n' then ['\\', 'n']
  else if c == '\r' then ['\\', 'r']
  else if c == '\t' then ['\\', 't']
  else if c == '\x0c' then ['\\', 'f']
  else if c == '\x08' then ['\\', 'b']
  else if c.toNat < 0x20 then '\\' :: 'u' :: Text.hexDigits 4 c.toNat
  else [c]

/-- A string with its quotes. -/
def stringText (s : String) : String :=
  String.ofList ('"' :: s.toList.flatMap escapedChar ++ ['"'])

/-- A number; the values that are not finite have names. -/
def floatText (x : Binary64) : String :=
  match x with
  | .nan => "NaN"
  | .infinity negative => if negative then "-Infinity" else "Infinity"
  | x => x.text

/-- A scalar, which is a string only when it is a text. -/
def scalarText : Scalar → Except Fault String
  | .null => .ok "null"
  | .bool b => .ok (if b then "true" else "false")
  | .int n => Number.digits n
  | .float x => .ok (floatText x)
  | .text s => .ok (stringText s)
  | .date _ | .moment _ => .error (.breakdown .kind)

/-- The key of an entry, always a string. -/
def keyText : Scalar → Except Fault String
  | .text s => .ok (stringText s)
  | key => (scalarText key).map stringText

mutual

/-- Compact text of a value. -/
def compact : Value → Except Fault String
  | .scalar s => scalarText s
  | .list items => do
    let parts ← compactItems items
    return "[" ++ String.intercalate "," parts ++ "]"
  | .map entries => do
    let parts ← compactEntries entries
    return "\x7b" ++ String.intercalate "," parts ++ "\x7d"

/-- Compact texts of the items of a list. -/
def compactItems : List Value → Except Fault (List String)
  | [] => .ok []
  | x :: xs => do
    let head ← compact x
    let tail ← compactItems xs
    return head :: tail

/-- Compact texts of the entries of a mapping. -/
def compactEntries : List (Scalar × Value) → Except Fault (List String)
  | [] => .ok []
  | (key, x) :: xs => do
    let name ← keyText key
    let head ← compact x
    let tail ← compactEntries xs
    return (name ++ ":" ++ head) :: tail

end

end MailMerge.Json
