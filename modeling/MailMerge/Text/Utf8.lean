/-! Bytes and text in the usual encoding.
-/
namespace MailMerge.Text

/-- The text that bytes encode, if they are well formed. -/
def decode? (bytes : ByteArray) : Option String :=
  String.fromUTF8? bytes

/-- The bytes of a text. -/
def encode (s : String) : ByteArray :=
  s.toUTF8

/-- How many bytes a leading byte announces after it, with the least and greatest second byte. -/
def announced (lead : Nat) : Option (Nat × Nat × Nat) :=
  if 0xC2 ≤ lead && lead ≤ 0xDF then some (1, 0x80, 0xBF)
  else if lead == 0xE0 then some (2, 0xA0, 0xBF)
  else if lead == 0xED then some (2, 0x80, 0x9F)
  else if 0xE1 ≤ lead && lead ≤ 0xEF then some (2, 0x80, 0xBF)
  else if lead == 0xF0 then some (3, 0x90, 0xBF)
  else if 0xF1 ≤ lead && lead ≤ 0xF3 then some (3, 0x80, 0xBF)
  else if lead == 0xF4 then some (3, 0x80, 0x8F)
  else none

/-- The number of bytes at the start that continue a character, at most `count`; the first of
them lies between two bounds. -/
def continued (count low high : Nat) : List Nat → Nat
  | [] => 0
  | b :: rest =>
    match count with
    | 0 => 0
    | count + 1 => if low ≤ b && b ≤ high then continued count 0x80 0xBF rest + 1 else 0

/-- Decodes bytes one character at a time; every longest piece that starts like a character and
is none becomes one replacement character. The first `skip` bytes are already decoded. -/
def decodeFrom (skip : Nat) : List Nat → List Char
  | [] => []
  | b :: rest =>
    if 0 < skip then decodeFrom (skip - 1) rest
    else if b < 0x80 then Char.ofNat b :: decodeFrom 0 rest
    else match announced b with
      | none => '\uFFFD' :: decodeFrom 0 rest
      | some (count, low, high) =>
        let found := continued count low high rest
        if found == count then
          let lead := if count == 1 then b - 0xC0 else if count == 2 then b - 0xE0 else b - 0xF0
          let code := (rest.take count).foldl (fun n x => n * 64 + (x - 0x80)) lead
          Char.ofNat code :: decodeFrom count rest
        else '\uFFFD' :: decodeFrom found rest

/-- The text of bytes with replacement characters where they are not well formed. -/
def decodeReplacing (bytes : ByteArray) : List Char :=
  match decode? bytes with
  | some s => s.toList
  | none => decodeFrom 0 (bytes.toList.map UInt8.toNat)

end MailMerge.Text
