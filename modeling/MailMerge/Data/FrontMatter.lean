import MailMerge.Data.Json.Reader
import MailMerge.Data.Yaml.Reader
import MailMerge.Text.Blank
import MailMerge.Text.Utf8

/-! Front matter: data between two boundary lines at the beginning of a document. Lines of dashes
enclose indented text, single braces enclose structured text. The rest of the document does not
matter. Documents without front matter have no data.
-/
namespace MailMerge.FrontMatter
open Text

/-- A boundary: what is left of the text when one stands at its beginning. -/
abbrev Boundary := List Char → Option (List Char)

/-- The text is at its end or at the end of a line. -/
def isLineEnd : List Char → Bool
  | [] => true
  | c :: _ => c == '\n'

/-- Passes blank characters up to the last line end among them. -/
def passBlanks : List Char → Option (List Char)
  | [] => some []
  | c :: rest =>
    if isBlank c then
      match passBlanks rest with
      | some tail => some tail
      | none => if c == '\n' then some (c :: rest) else none
    else none

/-- Three dashes or more on a line of their own. -/
def dashes : Boundary := fun text =>
  if startsWith ['-', '-', '-'] text then passBlanks (text.dropWhile (· == '-')) else none

/-- A single brace on a line of its own. -/
def brace : Boundary
  | '\x7b' :: rest => if isLineEnd rest then some rest else none
  | '\x7d' :: rest => if isLineEnd rest then some rest else none
  | _ => none

/-- The text before the first line that is a boundary, and the text after that boundary. -/
def cut? (boundary : Boundary) : Bool → List Char → Option (List Char × List Char)
  | _, [] => none
  | atStart, c :: rest =>
    match if atStart then boundary (c :: rest) else none with
    | some tail => some ([], tail)
    | none => (cut? boundary (c == '\n') rest).map fun (head, tail) => (c :: head, tail)

/-- The text between the boundary at the beginning and the next one. -/
def between? (boundary : Boundary) (text : List Char) : Option (List Char) := do
  let rest ← boundary text
  let (matter, _) ← cut? boundary false rest
  some matter

/-- Line ends in one form. -/
def plainLines : List Char → List Char
  | '\r' :: '\n' :: rest => '\n' :: plainLines rest
  | c :: rest => c :: plainLines rest
  | [] => []

/-- Names that data may not use, because the document itself uses them. -/
def reserved : List String :=
  ["content", "handler", "self"]

/-- The entries of a value that can be data of a document: all keys are texts, and none is
reserved. Values other than mappings hold no entries. -/
def entries? : Value → Option (List (Scalar × Value))
  | .map entries =>
    let free : Scalar → Bool
      | .text key => !reserved.contains key
      | _ => false
    if entries.all fun e => free e.1 then some entries else none
  | _ => some []

/-- The data of a document. -/
def ofText? (text : List Char) : Option Value := do
  let text := trim (plainLines text)
  let value ← match dashes text, brace text with
    | some _, _ =>
      match between? dashes text with
      | some matter => Yaml.read? matter
      | none => some .null
    | none, some _ =>
      match between? brace text with
      | some matter => (Json.read (['\x7b'] ++ matter ++ ['\x7d'])).toOption
      | none => some .null
    | none, none => some .null
  (entries? value).map .map

/-- The data of a document given by its bytes. -/
def ofBytes? (bytes : ByteArray) : Option Value :=
  (decode? bytes).bind fun text => ofText? text.toList

end MailMerge.FrontMatter
