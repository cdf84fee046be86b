/-! The cyclic redundancy check of archive entries: the remainder of the bytes as a polynomial,
with the bits of each byte taken from the lowest.
-/
namespace MailMerge.Archive

/-- The bits of a byte, from the lowest. -/
def bitsOf (b : UInt8) : List Bool :=
  (List.range 8).map b.toNat.testBit

/-- Takes bits into the remainder. -/
def checkBits (remainder : UInt32) : List Bool → UInt32
  | [] => remainder
  | bit :: bits =>
    if (remainder &&& 1 == 1) != bit then checkBits ((remainder >>> 1) ^^^ 0xEDB88320) bits
    else checkBits (remainder >>> 1) bits

/-- The check value of some bytes. -/
def checksum (bytes : ByteArray) : UInt32 :=
  checkBits 0xFFFFFFFF (bytes.data.toList.flatMap bitsOf) ^^^ 0xFFFFFFFF

end MailMerge.Archive
