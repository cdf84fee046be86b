import MailMerge.Directive.Basic
import MailMerge.Text.Blank
import MailMerge.Text.Word
import MailMerge.Text.Lower

/-! The grammar of the directives. A block opens and closes with tags in braces, everything else
is one tag. Keys are word characters and dots, names are word characters.
-/
namespace MailMerge.Directive
open Text

/-- The characters of one class at the start of a text, at least one. -/
def run? (accept : Char → Bool) (text : List Char) : Option (List Char × List Char) :=
  let head := text.takeWhile accept
  if head.isEmpty then none else some (head, text.drop head.length)

/-- Everything before the next closing brace, and what follows the brace. -/
def untilBrace? (text : List Char) : Option (List Char × List Char) :=
  let head := text.takeWhile (· != '\x7d')
  match text.drop head.length with
  | _ :: rest => some (head, rest)
  | [] => none

/-- Drops blanks. -/
def skipBlanks (text : List Char) : List Char :=
  text.dropWhile isBlank

/-- At least one blank, all of them dropped. -/
def blanks? (text : List Char) : Option (List Char) :=
  (run? isBlank text).map (·.2)

/-- A block kept when its condition holds. -/
structure Conditional where
  condition : String
  content : List Char
  deriving Repr

/-- Reads a conditional block: the opening tag holds a blank and at least one more character,
and the block ends with the first closing tag. -/
def conditional? : Recognizer Conditional := fun text => do
  let rest ← after? "\x7b#if".toList text
  let (head, rest) ← untilBrace? rest
  match head with
  | blank :: _ :: _ =>
    if isBlank blank then
      let (content, rest) ← cut? "\x7b/if\x7d".toList rest
      some (⟨String.ofList (trim head), content⟩, rest)
    else none
  | _ => none

/-- A closing brace after optional blanks. -/
def closing? (text : List Char) : Option (List Char) :=
  after? ['\x7d'] (skipBlanks text)

/-- A tag that asks for a table of the rows at a key. -/
structure TableTag where
  key : String
  deriving Repr

/-- Reads a table tag. -/
def table? : Recognizer TableTag := fun text => do
  let rest ← after? "\x7b%".toList text
  let rest ← after? "table:".toList (skipBlanks rest)
  let (key, rest) ← run? isKeyChar rest
  let rest ← closing? rest
  some (⟨String.ofList key⟩, rest)

/-- A tag that asks for a chart of the rows at a key. -/
structure ChartTag where
  chartType : String
  key : String
  title : Option String
  deriving Repr

/-- Reads a chart tag. The title goes up to the closing brace; nothing after its colon is no
title. -/
def chart? : Recognizer ChartTag := fun text => do
  let rest ← after? "\x7b%".toList text
  let rest ← after? "chart:".toList (skipBlanks rest)
  let (chartType, rest) ← run? isWord rest
  let rest ← after? [':'] rest
  let (key, rest) ← run? isKeyChar rest
  let tag (title : Option String) : ChartTag :=
    ⟨lower (String.ofList chartType), String.ofList key, title⟩
  match rest with
  | ':' :: rest =>
    let (title, rest) ← untilBrace? rest
    some (tag (if title.isEmpty then none else some (String.ofList (trim title))), rest)
  | rest =>
    let rest ← closing? rest
    some (tag none, rest)

/-- A tag that asks for the image whose address is at a key. -/
structure ImageTag where
  key : String
  property : Option String
  deriving Repr

/-- Reads an image tag. -/
def image? : Recognizer ImageTag := fun text => do
  let rest ← after? "\x7b%".toList text
  let (key, rest) ← run? isWord (skipBlanks rest)
  match rest with
  | '.' :: rest =>
    let (property, rest) ← run? isWord rest
    let rest ← closing? rest
    some (⟨String.ofList key, some (String.ofList property)⟩, rest)
  | rest =>
    let rest ← closing? rest
    some (⟨String.ofList key, none⟩, rest)

/-- A tag that asks for the value at a key in a style. -/
structure FormatTag where
  key : String
  style : String
  deriving Repr

/-- Reads a format tag. -/
def format? : Recognizer FormatTag := fun text => do
  let rest ← after? "\x7bformat:".toList text
  let (key, rest) ← run? isKeyChar rest
  let rest ← after? [':'] rest
  let (style, rest) ← run? (fun c => isWord c || c == '-') rest
  let rest ← after? ['\x7d'] rest
  some (⟨String.ofList key, String.ofList style⟩, rest)

/-- A block repeated for every item of the list at a key. -/
structure Loop where
  key : String
  item : String
  template : List Char
  deriving Repr

/-- Reads a loop, which ends with the first closing tag. -/
def loop? : Recognizer Loop := fun text => do
  let rest ← after? "\x7b#each".toList text
  let rest ← blanks? rest
  let (key, rest) ← run? isKeyChar rest
  let rest ← blanks? rest
  let rest ← after? "as".toList rest
  let rest ← blanks? rest
  let (item, rest) ← run? isWord rest
  let rest ← after? ['\x7d'] rest
  let (template, rest) ← cut? "\x7b/each\x7d".toList rest
  some (⟨String.ofList key, String.ofList item, template⟩, rest)

/-- A placeholder for the value at a key. -/
structure Placeholder where
  key : String
  deriving Repr

/-- Reads a placeholder: no brace inside, and none of the marks of other tags in front. -/
def placeholder? : Recognizer Placeholder := fun text => do
  let rest ← after? ['\x7b'] text
  match rest with
  | c :: _ =>
    if c == '%' || c == '#' || c == '/' then none
    else
      let (key, rest) ← run? (fun c => c != '\x7b' && c != '\x7d') rest
      let rest ← after? ['\x7d'] rest
      some (⟨String.ofList (trim key)⟩, rest)
  | [] => none

/-- A tag that binds the rows of a table to the list at a key. -/
structure BindTag where
  key : String
  deriving Repr

/-- Reads a bind tag; the key may be empty. -/
def bind? : Recognizer BindTag := fun text => do
  let rest ← after? "\x7bformat-table:".toList text
  let key := rest.takeWhile isKeyChar
  let rest ← after? ['\x7d'] (rest.drop key.length)
  some (⟨String.ofList key⟩, rest)

/-- A block that styles its row when a field of the bound data compares with a value. -/
structure RowRule where
  field : String
  operator : String
  value : String
  style : String
  deriving Repr

/-- The operators of row rules, the longer before those they start with. -/
def rowOperators : List String :=
  ["==", "!=", ">=", "<=", ">", "<"]

/-- Splits the head of a row rule into operator and value, the value not empty. -/
def rowOperator? (head : List Char) : Option (String × List Char) :=
  rowOperators.findSome? fun operator =>
    match after? operator.toList head with
    | some (c :: value) => some (operator, c :: value)
    | _ => none

/-- Reads a row rule. -/
def rowRule? : Recognizer RowRule := fun text => do
  let rest ← after? "\x7bif:".toList text
  let (field, rest) ← run? isWord rest
  let (head, rest) ← untilBrace? rest
  let (operator, value) ← rowOperator? head
  let (style, rest) ← run? isWord rest
  let rest ← after? "\x7b/if\x7d".toList rest
  some (⟨String.ofList field, operator, String.ofList (trim value), String.ofList style⟩, rest)

/-- Reads a field of the loop's current item. -/
def itemField? (item : List Char) : Recognizer String := fun text => do
  let rest ← after? ('\x7b' :: item ++ ['.']) text
  let (field, rest) ← run? isWord rest
  let rest ← after? ['\x7d'] rest
  some (String.ofList field, rest)

/-- The text of a paragraph that stands for a page break. -/
def pageBreak : List Char :=
  "\x7b%pagebreak\x7d".toList

/-- A paragraph that holds nothing but the page break tag. -/
def isPageBreak (text : List Char) : Bool :=
  trim text == pageBreak

end MailMerge.Directive
