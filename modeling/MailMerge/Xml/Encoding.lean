import MailMerge.Xml.Token
import MailMerge.Text.CodePage
import MailMerge.Text.Utf8

/-! The text of a document's bytes. A byte order mark or the zero byte beside the first bracket
tells the width of the units; the declaration may name an encoding of bytes.
-/
namespace MailMerge.Xml

/-- Pairs bytes into units, the first byte being the high one or the low one. -/
def units? (highFirst : Bool) : List Nat → Option (List Nat)
  | [] => some []
  | [_] => none
  | a :: b :: rest =>
    let unit := if highFirst then a * 256 + b else b * 256 + a
    (units? highFirst rest).map (unit :: ·)

/-- The characters of a list of units of sixteen bits; surrogates come in pairs. -/
def unitChars? : List Nat → Option (List Char)
  | [] => some []
  | high :: low :: rest =>
    if 0xD800 ≤ high && high < 0xDC00 then
      if 0xDC00 ≤ low && low < 0xE000 then
        (unitChars? rest).map
          (Char.ofNat (0x10000 + (high - 0xD800) * 0x400 + (low - 0xDC00)) :: ·)
      else none
    else if 0xDC00 ≤ high && high < 0xE000 then none
    else (unitChars? (low :: rest)).map (Char.ofNat high :: ·)
  | [unit] => if 0xD800 ≤ unit && unit < 0xE000 then none else some [Char.ofNat unit]

/-- Why a document cannot be read. -/
inductive Misreading where
  /-- it is not well formed -/
  | malformed
  /-- it names an encoding that is not known -/
  | unknownEncoding
  /-- it names an encoding of characters of several bytes that is not read -/
  | wideEncoding
  deriving DecidableEq, Repr

/-- What is wrong with a named encoding that is none of those in which documents are read
without a code page. -/
def nameFault (name : String) : Misreading :=
  if (Text.CodePage.ofName? name).isSome then .malformed
  else if Text.CodePage.isWide name then .wideEncoding
  else .unknownEncoding

/-- Reads the declaration of a text, which is malformed if that fails. -/
def declared (text : List Char) : Except Misreading (Option String × List Char) :=
  match declaration? (unifyLines text) with
  | some found => .ok found
  | none => .error .malformed

/-- The text of a document whose units are of sixteen bits. -/
def wideText (highFirst : Bool) (bytes : List UInt8) : Except Misreading (List Char) := do
  let some text := (units? highFirst (bytes.map UInt8.toNat)).bind unitChars?
    | throw .malformed
  let (encoding, rest) ← declared text
  let name := (encoding.getD "utf-16").toLower
  if name == "utf-16" || name == (if highFirst then "utf-16be" else "utf-16le") then return rest
  else if ["utf-8", "utf-16be", "utf-16le"].contains name then throw .malformed
  else throw (nameFault name)

/-- The text of a document whose units are bytes and that begins with a declaration. -/
def narrowText (bytes : ByteArray) : Except Misreading (List Char) := do
  let start := (bytes.toList.take 400).map fun b => Char.ofNat b.toNat
  let (encoding, _) ← declared start
  let name := (encoding.getD "utf-8").toLower
  let text ←
    if name == "utf-8" then pure ((Text.decode? bytes).map String.toList)
    else if ["utf-16", "utf-16be", "utf-16le"].contains name then throw .malformed
    else match Text.CodePage.ofName? name with
      | some page => pure (page.decode? bytes)
      | none => throw (nameFault name)
  match text with
  | some text => return (← declared text).2
  | none => throw .malformed

/-- The text after the declaration of a document given as bytes. -/
def documentText (bytes : ByteArray) : Except Misreading (List Char) :=
  match (bytes.toList.take 3).map UInt8.toNat with
  | 0xFE :: 0xFF :: _ => wideText true (bytes.toList.drop 2)
  | 0xFF :: 0xFE :: _ => wideText false (bytes.toList.drop 2)
  | 0x00 :: 0x3C :: _ => wideText true bytes.toList
  | 0x3C :: 0x00 :: _ => wideText false bytes.toList
  | start =>
    let bytes := if start == [0xEF, 0xBB, 0xBF] then bytes.extract 3 bytes.size else bytes
    if (bytes.toList.take 5).map UInt8.toNat == "<?xml".toList.map Char.toNat then narrowText bytes
    else match Text.decode? bytes with
      | some text => .ok (unifyLines text.toList)
      | none => .error .malformed

end MailMerge.Xml
