/-! A place in indented text: what is still unread, and where on its line it begins. The classes of
characters that layout knows are here as well.
-/
namespace MailMerge.Yaml

/-- Characters that may stand in the text at all. -/
def isAllowed (c : Char) : Bool :=
  c == '\t' || c == '\n' || c == '\r' || (' ' ≤ c && c ≤ '~') || c == '\u0085' ||
    ('\u00a0' ≤ c && c != '\ufeff' && c != '\ufffe' && c != '\uffff')

/-- Characters that end a line. -/
def isBreak (c : Char) : Bool :=
  c == '\n' || c == '\r' || c == '\u0085' || c == '\u2028' || c == '\u2029'

/-- Characters that separate on a line. -/
def isSpace (c : Char) : Bool :=
  c == ' ' || c == '\t'

/-- The text is at its end or begins with a separating character. -/
def isGap : List Char → Bool
  | [] => true
  | c :: _ => isSpace c || isBreak c

/-- The text is at its end or at the end of a line. -/
def isLineEnd : List Char → Bool
  | [] => true
  | c :: _ => isBreak c

/-- The text begins with three equal characters and then a gap. -/
def isTriple (mark : Char) : List Char → Bool
  | a :: b :: c :: rest => a == mark && b == mark && c == mark && isGap rest
  | _ => false

/-- A place in a text. -/
structure Place where
  rest : List Char
  /-- characters before the place -/
  index : Nat := 0
  line : Nat := 0
  column : Nat := 0
  deriving Repr, Inhabited

namespace Place

/-- The place after `n` characters of the same line. -/
def skip (p : Place) (n : Nat) : Place :=
  { p with rest := p.rest.drop n, index := p.index + n, column := p.column + n }

/-- The characters up to the first that fails a test, and the place after them. -/
def take (p : Place) (test : Char → Bool) : List Char × Place :=
  let found := p.rest.takeWhile test
  (found, p.skip found.length)

/-- The place after all characters that pass a test. -/
def pass (p : Place) (test : Char → Bool) : Place :=
  (p.take test).2

/-- The place at the beginning of the next line. -/
def nextLine (p : Place) (width : Nat) : Place :=
  { rest := p.rest.drop width, index := p.index + width, line := p.line + 1, column := 0 }

/-- Reads a line break. All but the two separators of Unicode count as the same character. -/
def lineBreak? (p : Place) : Option (Char × Place) :=
  match p.rest with
  | '\r' :: '\n' :: _ => some ('\n', p.nextLine 2)
  | c :: _ =>
    if c == '\u2028' || c == '\u2029' then some (c, p.nextLine 1)
    else if isBreak c then some ('\n', p.nextLine 1)
    else none
  | [] => none

/-- A line that begins or ends a document starts here. -/
def isDocumentMark (p : Place) : Bool :=
  p.column == 0 && (isTriple '-' p.rest || isTriple '.' p.rest)

end Place

/-- The characters that stand for a gap between two words. Spaces on one line stay as they are. A
single line break becomes a space, of several the first is dropped. -/
def folded (spaces breaks : List Char) : List Char :=
  match breaks with
  | [] => spaces
  | '\n' :: [] => [' ']
  | '\n' :: more => more
  | breaks => breaks

end MailMerge.Yaml
