import MailMerge.Text.Word

/-! Characters and names of markup.
-/
namespace MailMerge.Xml

/-- The characters that a document may hold. -/
def isChar (c : Char) : Bool :=
  let n := c.toNat
  if n < 0x20 then n == 0x9 || n == 0xa || n == 0xd else n != 0xfffe && n != 0xffff

/-- White space between the parts of a tag. -/
def isSpace (c : Char) : Bool :=
  c == ' ' || c == '\t' || c == '\n' || c == '\r'

/-- The characters that can start a name. -/
def isNameStart (c : Char) : Bool :=
  c.isAlpha || c == '_' || (0xc0 ≤ c.toNat && c.toNat < 0x10000 && Text.isWord c)

/-- The characters that can continue a name. -/
def isNameChar (c : Char) : Bool :=
  isNameStart c || c.isDigit || c == '-' || c == '.' || c == '\u00b7' ||
    (0x300 ≤ c.toNat && c.toNat < 0x370)

/-- A name without a colon. -/
def isPlainName (s : List Char) : Bool :=
  match s with
  | c :: rest => isNameStart c && rest.all isNameChar
  | [] => false

/-- Line ends of all conventions become line feeds. -/
def unifyLines : List Char → List Char
  | '\r' :: '\n' :: rest => '\n' :: unifyLines rest
  | '\r' :: rest => '\n' :: unifyLines rest
  | c :: rest => c :: unifyLines rest
  | [] => []

end MailMerge.Xml
