import MailMerge.Archive.Reader

/-! Writing archives: every entry as it is, then the directory, then the closing record.
-/
namespace MailMerge.Archive

/-- A number in a width of bytes, the low byte first. -/
def number (width n : Nat) : List UInt8 :=
  match width with
  | 0 => []
  | width + 1 => n.toUInt8 :: number width (n / 256)

/-- Names outside the basic letters are flagged as written in the usual encoding. -/
def nameFlags (name : String) : Nat :=
  if name.toList.all fun c => c.toNat < 128 then 0 else 2048

/-- The fields that an entry and its listing share. -/
def sharedFields (name : String) (data : ByteArray) : List UInt8 :=
  number 2 20 ++ number 2 (nameFlags name) ++ number 2 0 ++ number 2 0 ++ number 2 33 ++
    number 4 (checksum data).toNat ++ number 4 data.size ++ number 4 data.size ++
    number 2 name.utf8ByteSize ++ number 2 0

/-- An entry: its record, its name and its data. -/
def entryBytes (name : String) (data : ByteArray) : ByteArray :=
  ⟨([0x50, 0x4B, 3, 4] ++ sharedFields name data).toArray⟩ ++ name.toUTF8 ++ data

/-- The listing of an entry that starts at a position. -/
def listingBytes (name : String) (data : ByteArray) (start : Nat) : ByteArray :=
  ⟨([0x50, 0x4B, 1, 2] ++ number 2 20 ++ sharedFields name data ++ number 2 0 ++ number 2 0 ++
    number 2 0 ++ number 4 0 ++ number 4 start).toArray⟩ ++ name.toUTF8

/-- Entries and their listings, the first entry starting at a position. -/
def bodyBytes (start : Nat) : Entries → ByteArray × ByteArray
  | [] => (.empty, .empty)
  | (name, data) :: rest =>
    let first := entryBytes name data
    let (entries, directory) := bodyBytes (start + first.size) rest
    (first ++ entries, listingBytes name data start ++ directory)

/-- The bytes of an archive with the given entries. -/
def write (entries : Entries) : ByteArray :=
  let (body, directory) := bodyBytes 0 entries
  let count := entries.length
  body ++ directory ++
    ⟨([0x50, 0x4B, 5, 6] ++ number 2 0 ++ number 2 0 ++ number 2 count ++ number 2 count ++
      number 4 directory.size ++ number 4 body.size ++ number 2 0).toArray⟩

end MailMerge.Archive
