import MailMerge.Archive.Checksum
import MailMerge.Archive.Inflate
import MailMerge.Archive.Names
import MailMerge.Fault

/-! Reading archives. The directory at the end of an archive lists its entries; what stands
before the first entry and after the directory does not matter. An entry that is listed twice is
read from its last listing and keeps its first place.
-/
namespace MailMerge.Archive

/-- The named contents of an archive, in order. -/
abbrev Entries := List (String × ByteArray)

/-- The byte at a position, zero outside. -/
def byteAt (bytes : ByteArray) (i : Nat) : Nat :=
  if h : i < bytes.size then bytes[i].toNat else 0

/-- A number of two bytes, the low one first. -/
def short (bytes : ByteArray) (i : Nat) : Nat :=
  byteAt bytes i + 256 * byteAt bytes (i + 1)

/-- A number of four bytes, the low one first. -/
def long (bytes : ByteArray) (i : Nat) : Nat :=
  short bytes i + 65536 * short bytes (i + 2)

/-- Whether a record with the given mark starts at a position. -/
def hasMark (bytes : ByteArray) (i : Nat) (first second : Nat) : Bool :=
  byteAt bytes i == 0x50 && byteAt bytes (i + 1) == 0x4B && byteAt bytes (i + 2) == first &&
    byteAt bytes (i + 3) == second

/-- The last position below `count` at which the closing record starts. -/
def lastClosing (bytes : ByteArray) (least : Nat) : Nat → Option Nat
  | 0 => none
  | count + 1 =>
    if count < least then none
    else if hasMark bytes count 5 6 then some count
    else lastClosing bytes least count

/-- The position of the closing record: at the very end, or before a comment. -/
def closing? (bytes : ByteArray) : Option Nat :=
  if bytes.size < 22 then none
  else if hasMark bytes (bytes.size - 22) 5 6 && short bytes (bytes.size - 2) == 0 then
    some (bytes.size - 22)
  else do
    let position ← lastClosing bytes (bytes.size - (22 + 65536)) (bytes.size - 3)
    if position + 22 ≤ bytes.size then some position else none

/-- An entry as the directory lists it. -/
structure Listing where
  /-- the name as it is written -/
  written : String
  flags : Nat
  method : Nat
  check : UInt32
  packed : Nat
  size : Nat
  /-- where the entry starts -/
  start : Int
  deriving Repr

/-- The name of a listed entry. -/
def Listing.name (l : Listing) : String :=
  shortName l.written

/-- Folders have entries without contents. -/
def Listing.isFolder (l : Listing) : Bool :=
  l.name.toList.getLast? == some '/'

/-- The further fields of a listing are a sequence of marked pieces with lengths. -/
def isWholeExtra (fuel : Nat) (bytes : ByteArray) (start stop : Nat) : Bool :=
  match fuel with
  | 0 => true
  | fuel + 1 =>
    if stop < start + 4 then true
    else
      let length := short bytes (start + 2)
      start + 4 + length ≤ stop && isWholeExtra fuel bytes (start + 4 + length) stop

/-- Reads the listings between two positions; entries start `shift` bytes after the place that
the directory gives. -/
def listings (fuel : Nat) (bytes : ByteArray) (start stop : Nat) (shift : Int) :
    Except Fault (List Listing) :=
  match fuel with
  | 0 => .error .notAnArchive
  | fuel + 1 =>
    if stop ≤ start then .ok []
    else if min stop bytes.size < start + 46 || !hasMark bytes start 1 2 then .error .notAnArchive
    else
      let flags := short bytes (start + 8)
      let nameLength := short bytes (start + 28)
      let extraLength := short bytes (start + 30)
      let noteLength := short bytes (start + 32)
      let extra := start + 46 + nameLength
      let limit := min stop bytes.size
      match name? (bytes.extract (start + 46) (min extra limit)) (flags / 2048 % 2 == 1) with
      | none => .error (.breakdown .decoding)
      | some name =>
        if 63 < byteAt bytes (start + 6) then .error (.breakdown .unsupported)
        else if !isWholeExtra extraLength bytes (min extra limit) (min (extra + extraLength) limit)
        then .error .notAnArchive
        else do
          let more ← listings fuel bytes (extra + extraLength + noteLength) stop shift
          let listing : Listing := ⟨name, flags, short bytes (start + 10),
            (long bytes (start + 16)).toUInt32, long bytes (start + 20), long bytes (start + 24),
            (long bytes (start + 42) : Int) + shift⟩
          return listing :: more

/-- Where the entry or the directory after a listing starts: the least start that comes after it
when the listings are ordered by their starts, equal ones in listed order. -/
def nextStart (all : List Listing) (directory : Int) (index : Nat) : Int :=
  let ordered := all.zipIdx.mergeSort fun a b => b.1.start ≤ a.1.start
  let before := ordered.takeWhile (·.2 != index)
  match before.getLast? with
  | some (l, _) => l.start
  | none => directory

/-- Unpacks the contents of an entry, which are stored or deflated. -/
def contents (bytes : ByteArray) (l : Listing) (start : Nat) : Except Fault ByteArray :=
  let packed := bytes.extract start (start + l.packed)
  let checked (data : ByteArray) : Except Fault ByteArray :=
    let data := data.extract 0 l.size
    if checksum data == l.check then .ok data else .error .notAnArchive
  match l.method with
  | 0 => checked packed
  | 8 =>
    match Inflate.inflate packed with
    | (_, some .malformed) => .error (.breakdown .stream)
    | (data, _) => checked data
  | _ => .error (.breakdown .unsupported)

/-- Reads one entry; `next` is where the next one or the directory starts. -/
def entry (bytes : ByteArray) (l : Listing) (next : Int) : Except Fault ByteArray :=
  if l.start < 0 then .error (.breakdown .value)
  else
    let start := l.start.toNat
    if bytes.size < start + 30 || !hasMark bytes start 3 4 then .error .notAnArchive
    else
      let nameStop := start + 30 + short bytes (start + 26)
      let dataStart := nameStop + short bytes (start + 28)
      if l.flags / 32 % 2 == 1 || l.flags / 64 % 2 == 1 then .error (.breakdown .unsupported)
      else
        let flagged := short bytes (start + 6) / 2048 % 2 == 1
        match name? (bytes.extract (start + 30) nameStop) flagged with
        | none => .error (.breakdown .decoding)
        | some name =>
          if name != l.written || next < (dataStart : Int) + l.packed then .error .notAnArchive
          else if l.flags % 2 == 1 then .error (.breakdown .locked)
          else contents bytes l dataStart

/-- Reads an archive without its folders. -/
def read (bytes : ByteArray) : Except Fault Entries := do
  let some closing := closing? bytes | throw .notAnArchive
  let size := long bytes (closing + 12)
  let shift : Int := (closing : Int) - size - long bytes (closing + 16)
  if closing < size then throw .notAnArchive
  let directory := closing - size
  let all ← listings (bytes.size + 1) bytes directory closing shift
  let named := all.zipIdx.filter fun l => !l.1.isFolder
  let names := (named.map (·.1.name)).eraseDups
  names.mapM fun name => do
    match (named.filter (·.1.name == name)).getLast? with
    | some (l, index) => return (name, ← entry bytes l (nextStart all directory index))
    | none => throw .notAnArchive

end MailMerge.Archive
