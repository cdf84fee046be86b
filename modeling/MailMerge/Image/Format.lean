import MailMerge.Archive.Checksum
import MailMerge.Archive.Reader

/-! The formats of images, told from their first bytes. An image is recognised when everything
before its pixels is in order; the pixels themselves are not looked at.
-/
namespace MailMerge

/-- The formats that are recognised. -/
inductive ImageFormat where
  | png
  | jpeg
  | gif
  | bmp
  | tiff
  | webp
  deriving DecidableEq, Repr

namespace ImageFormat
open Archive

/-- The word for a format. -/
def label : ImageFormat → String
  | png => "PNG"
  | jpeg => "JPEG"
  | gif => "GIF"
  | bmp => "BMP"
  | tiff => "TIFF"
  | webp => "WEBP"

/-- The bytes at a position spell a word. -/
def spells (data : ByteArray) (i : Nat) (word : String) : Bool :=
  let bytes := word.toList.map Char.toNat
  i + bytes.length ≤ data.size && (bytes.zipIdx.all fun (b, k) => byteAt data (i + k) == b)

/-- A number of two bytes, the high one first. -/
def shortHigh (data : ByteArray) (i : Nat) : Nat :=
  256 * byteAt data i + byteAt data (i + 1)

/-- A number of four bytes, the high one first. -/
def longHigh (data : ByteArray) (i : Nat) : Nat :=
  65536 * shortHigh data i + shortHigh data (i + 2)

/-- Chunks up to the first that holds pixels; each is whole and passes its check. -/
def hasPixelsAfter (fuel : Nat) (data : ByteArray) (i : Nat) : Bool :=
  match fuel with
  | 0 => false
  | fuel + 1 =>
    if data.size < i + 8 then false
    else if spells data (i + 4) "IDAT" then true
    else
      let length := longHigh data i
      let stop := i + 8 + length
      stop + 4 ≤ data.size &&
        (checksum (data.extract (i + 4) stop)).toNat == longHigh data stop &&
        !spells data (i + 4) "IEND" && hasPixelsAfter fuel data (stop + 4)

/-- A header with a size comes first, then chunks. -/
def isPng (data : ByteArray) : Bool :=
  byteAt data 0 == 0x89 && spells data 1 "PNG\r\n\x1a\n" && spells data 12 "IHDR" &&
    13 ≤ longHigh data 8 && longHigh data 16 != 0 && longHigh data 20 != 0 &&
    hasPixelsAfter data.size data 8

/-- Segments up to the one that holds pixels, with a frame of at least one pixel before it. -/
def hasScanAfter (fuel : Nat) (data : ByteArray) (i : Nat) (framed : Bool) : Bool :=
  match fuel with
  | 0 => false
  | fuel + 1 =>
    if data.size < i + 2 then false
    else if byteAt data i != 0xFF then hasScanAfter fuel data (i + 1) framed
    else
      let mark := byteAt data (i + 1)
      if mark == 0xFF then hasScanAfter fuel data (i + 1) framed
      else if mark == 0 then hasScanAfter fuel data (i + 2) framed
      else if mark < 0xC0 then false
      else if mark == 0xDA then framed
      else if (0xD0 ≤ mark && mark ≤ 0xD9) then hasScanAfter fuel data (i + 2) framed
      else
        let stop := i + 2 + shortHigh data (i + 2)
        let isFrame := mark ≤ 0xCF && mark != 0xC4 && mark != 0xC8 && mark != 0xCC
        let sound := byteAt data (i + 4) == 8 && shortHigh data (i + 5) != 0 &&
          shortHigh data (i + 7) != 0 && [1, 3, 4].contains (byteAt data (i + 9))
        data.size ≥ stop && i + 4 ≤ stop && (!isFrame || sound) &&
          hasScanAfter fuel data stop (framed || isFrame)

/-- Segments follow a mark. -/
def isJpeg (data : ByteArray) : Bool :=
  byteAt data 0 == 0xFF && byteAt data 1 == 0xD8 && byteAt data 2 == 0xFF &&
    hasScanAfter data.size data 2 false

/-- Blocks of extensions up to the first image; each is a sequence of pieces with lengths. -/
def hasImageAfter (fuel : Nat) (data : ByteArray) (i : Nat) (inExtension : Bool) : Bool :=
  match fuel with
  | 0 => false
  | fuel + 1 =>
    if data.size ≤ i then false
    else if inExtension then
      let length := byteAt data i
      hasImageAfter fuel data (i + 1 + length) (length != 0)
    else match byteAt data i with
      | 0x2C => i + 10 ≤ data.size
      | 0x21 => hasImageAfter fuel data (i + 2) true
      | 0x3B => false
      | _ => hasImageAfter fuel data (i + 1) false

/-- A header, a table of colours if there is one, and an image. -/
def isGif (data : ByteArray) : Bool :=
  let flags := byteAt data 10
  let start := 13 + if 128 ≤ flags then 3 * Nat.pow 2 (flags % 8 + 1) else 0
  (spells data 0 "GIF87a" || spells data 0 "GIF89a") && 13 ≤ data.size &&
    hasImageAfter data.size data start false

/-- A header of a known size with a known number of bits for a pixel. -/
def isBmp (data : ByteArray) : Bool :=
  let header := long data 14
  let bits := if header == 12 then short data 24 else short data 28
  let width := if header == 12 then short data 18 else long data 18
  let height := if header == 12 then short data 20 else long data 22
  spells data 0 "BM" && [12, 40, 52, 56, 64, 108, 124].contains header &&
    14 + header ≤ data.size && [1, 4, 8, 16, 24, 32].contains bits && width != 0 && height != 0

/-- A directory of fields, among them a width and a height. -/
def isTiff (data : ByteArray) : Bool :=
  let low := spells data 0 "II*\x00"
  let high := spells data 0 "MM\x00*"
  let two := if high then shortHigh data else short data
  let start := if high then longHigh data 4 else long data 4
  let tags := (List.range (two start)).map fun k => two (start + 2 + 12 * k)
  (low || high) && 8 ≤ start && start + 2 + 12 * two start ≤ data.size && tags.contains 256 &&
    tags.contains 257

/-- A container of known contents that is all there. -/
def isWebp (data : ByteArray) : Bool :=
  spells data 0 "RIFF" && spells data 8 "WEBPVP8" &&
    [0x20, 0x4C, 0x58].contains (byteAt data 15) && long data 4 + 8 ≤ data.size &&
    20 + long data 16 ≤ data.size

/-- The format of an image. -/
def ofBytes? (data : ByteArray) : Option ImageFormat :=
  if isPng data then some png
  else if isJpeg data then some jpeg
  else if isGif data then some gif
  else if isBmp data then some bmp
  else if isTiff data then some tiff
  else if isWebp data then some webp
  else none

end ImageFormat
end MailMerge
