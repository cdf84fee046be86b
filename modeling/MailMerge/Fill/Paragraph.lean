import MailMerge.Embed
import MailMerge.Loop
import MailMerge.Table.Build
import MailMerge.Table.Style

/-! Filling one paragraph. Conditional blocks are resolved first; then the rules are tried in the
order table, chart, image, formats, loop, placeholders, until one of them ends the work.
-/
namespace MailMerge.Fill
open Directive Docx

/-- How a paragraph ends. -/
inductive Ending where
  | deleted
  | becameTable
  | becameChart
  | becameImage
  | rewritten
  | unchanged
  deriving DecidableEq, Repr, Inhabited

/-- The word for an ending. -/
def Ending.label : Ending → String
  | .deleted => "deleted"
  | .becameTable => "replaced-table"
  | .becameChart => "replaced-chart"
  | .becameImage => "replaced-image"
  | .rewritten => "rewritten"
  | .unchanged => "unchanged"

/-- What a rule leaves to do. -/
inductive Step where
  /-- the rule does not apply -/
  | next
  /-- no further rule applies -/
  | halt
  | ended (e : Ending)
  deriving DecidableEq, Repr

/-- A paragraph at work, with the text elements it had at the beginning. -/
structure Target where
  paragraph : NodeId
  elements : List NodeId
  deriving Repr

/-- Writes the text of the paragraph at work. -/
def Target.write (t : Target) (text : List Char) : Generation Unit :=
  Generation.edit (·.writeText t.paragraph t.elements (String.ofList text))

/-- The value at a key. -/
def valueAt (key : String) : Generation Value :=
  return (← read).data.resolve key

/-- The items of a list that holds something. -/
def items? : Value → Option (List Value)
  | .list (item :: items) => some (item :: items)
  | _ => none

/-- Judges a condition. One that cannot be judged is false. -/
def holds (condition : String) : Generation Bool := do
  match ← Generation.ofExcept (Condition.judge condition (← read).data) with
  | .holds b => return b
  | .invalid reason =>
    Generation.log .warning s!"Invalid condition '{condition}': {reason.message}"
    return false

/-- Takes a paragraph out of its tree. A cell that has no paragraph left gets an empty one. -/
def removeParagraph (paragraph : NodeId) : Generation Unit := do
  let parent ← Generation.parent? paragraph
  let _ ← Generation.remove paragraph
  if let some cell := parent then
    let f ← Generation.forest
    if f.name cell == cellName && (f.childNamed? cell paragraphName).isNone then
      let empty ← Generation.plant (Docx.paragraph [])
      Generation.edit (·.append cell empty)

/-- Resolves the conditional blocks of a text from a position on: each gives way to its content,
which is not searched again. The first false one takes the paragraph out and leaves no text. The
flag tells whether a block was met before. -/
def resolveBlocks (fuel : Nat) (paragraph : NodeId) (text : List Char) (pos : Nat)
    (met : Bool) : Generation (Option (List Char) × Bool) :=
  match fuel with
  | 0 => return (some text, met)
  | fuel + 1 =>
    match nextConditional? text pos with
    | none => return (some text, met)
    | some found => do
      let block := found.value
      if ← holds block.condition then
        Generation.record .conditional (.text block.condition) .applied
        resolveBlocks fuel paragraph
          (text.take found.start ++ block.content ++ text.drop found.stop)
          (found.start + block.content.length) true
      else
        removeParagraph paragraph
        Generation.record .conditional (.text block.condition) .applied
          "condition false; paragraph removed"
        return (none, false)

/-- Puts a table in the place of a paragraph. In a cell an empty paragraph follows it. -/
def putTable (paragraph table : NodeId) : Generation Unit := do
  let parent ← Generation.parent? paragraph
  let _ ← Generation.replace paragraph table
  if let some cell := parent then
    if (← Generation.forest).name cell == cellName then
      let empty ← Generation.plant (Docx.paragraph [])
      let _ ← Generation.insertAfter table empty

/-- A table tag puts the table of a list in the paragraph's place. -/
def tableRule (t : Target) (text : List Char) : Generation Step := do
  let some found := first? table? text | return .next
  let key := found.value.key
  let some rows := items? (← valueAt key)
    | Generation.record .table (.text key) .skipped "no list data"; return .halt
  match ← Generation.guarded (Generation.ofExcept (Table.build (← read).settings rows)) with
  | .error fault =>
    Generation.record .table (.text key) .failed fault.message
    return .halt
  | .ok element =>
    putTable t.paragraph (← Generation.plant element)
    Generation.log .info s!"Table added for key: {key}"
    Generation.record .table (.text key) .applied
    return .ended .becameTable

/-- A chart tag puts the chart of a list in the paragraph's place. -/
def chartRule (t : Target) (text : List Char) : Generation Step := do
  let some found := first? chart? text | return .next
  let tag := found.value
  let some rows := items? (← valueAt tag.key)
    | Generation.record .chart (.text tag.key) .skipped "no list data"; return .halt
  match ← Generation.guarded (Embed.chart tag.chartType (.list rows) tag.title .null .null) with
  | .error fault =>
    Generation.record .chart (.text tag.key) .failed fault.message
    return .halt
  | .ok element =>
    let drawing ← Generation.plant element
    let _ ← Generation.replace t.paragraph drawing
    Generation.record .chart (.text tag.key) .applied
    return .ended .becameChart

/-- The numeral of a whole number at the start of a text, blanks before it included. -/
def leadingNumeral? (text : List Char) : Option (List Char) :=
  let blanks := text.takeWhile Text.isBlank
  let (sign, rest) := match text.drop blanks.length with
    | '+' :: rest => (['+'], rest)
    | '-' :: rest => (['-'], rest)
    | rest => ([], rest)
  let digits := rest.takeWhile Text.isDecimal
  if digits.isEmpty then none else some (blanks ++ sign ++ digits)

/-- The length that a value gives, if it gives one: a number without its fraction, or the numeral
at the start of its text. -/
def length? (v : Value) : Except Fault (Option Int) :=
  match v with
  | .bool _ => .ok none
  | .int n => .ok (some n)
  | .float x => x.whole.map some
  | v =>
    match leadingNumeral? v.bare.toList with
    | none => .ok none
    | some numeral => (Value.text (String.ofList numeral)).whole.map some

/-- The length at a key, or else the usual one. A length is positive. -/
def lengthAt (key : String) (usual : Int) : Generation Value := do
  match ← Generation.ofExcept (length? (← valueAt key)) with
  | some n => return .int (if 0 < n then n else usual)
  | none => return .int usual

/-- An image tag puts the image at an address in the paragraph's place. -/
def imageRule (t : Target) (text : List Char) : Generation Step := do
  let some found := first? image? text | return .next
  let key := found.value.key
  match ← valueAt key with
  | .text address =>
    if address == "" then
      Generation.record .image (.text key) .skipped "no image URL"
      return .halt
    let s := (← read).settings
    let width ← lengthAt (key ++ ".width") s.imageWidth
    let height ← lengthAt (key ++ ".height") s.imageHeight
    match ← Generation.guarded (Embed.fetched address width height) with
    | .error fault =>
      Generation.record .image (.text key) .failed fault.message
      return .halt
    | .ok element =>
      let drawing ← Generation.plant element
      let _ ← Generation.replace t.paragraph drawing
      Generation.record .image (.text key) .applied
      return .ended .becameImage
  | _ =>
    Generation.record .image (.text key) .skipped "no image URL"
    return .halt

/-- Puts formatted values in the place of format tags, one after the other: each takes the place
of the first text that reads like its tag. -/
def formatAll (text : List Char) : List (Found FormatTag) → Generation (List Char)
  | [] => return text
  | found :: rest => do
    let value ← valueAt found.value.key
    let new ← Generation.ofExcept (value.format found.value.style)
    Generation.record .format (.text found.value.key) .applied
    formatAll (Text.replaceFirst found.raw new.toList text) rest

/-- Format tags give way to values in their style. -/
def formatRule (t : Target) (text : List Char) : Generation Step := do
  match all format? text with
  | [] => return .next
  | found =>
    let formatted ← formatAll text found
    if formatted == text then return .next
    t.write formatted
    return .ended .rewritten

/-- A loop gives way to its template filled in for every item of a list. -/
def loopRule (t : Target) (text : List Char) : Generation Step := do
  let some found := first? loop? text | return .next
  let loop := found.value
  let some items := items? (← valueAt loop.key)
    | Generation.record .loop (.text loop.key) .skipped "no list data"; return .next
  let rendered ← Generation.ofExcept (Loop.render loop.template loop.item items)
  t.write (text.take found.start ++ rendered ++ text.drop found.stop)
  Generation.record .loop (.text loop.key) .applied
  return .ended .rewritten

/-- The text for one placeholder, with its outcome. -/
def placeholderText (found : Found Placeholder) : Generation (Found Placeholder × List Char) := do
  let key := found.value.key
  let value ← valueAt key
  let new ← Generation.ofExcept value.display
  if value.isEmptyText then Generation.record .text (.text key) .skipped "unresolved"
  else Generation.record .text (.text key) .applied
  return (found, new.toList)

/-- Placeholders give way to the values at their keys. -/
def textRule (t : Target) (text : List Char) : Generation Step := do
  match all placeholder? text with
  | [] => return .next
  | found =>
    let texts ← found.mapM placeholderText
    t.write (substitute text texts)
    return .ended .rewritten

/-- Tries rules in order until one ends the work. -/
def tryRules (t : Target) (text : List Char) :
    List (Target → List Char → Generation Step) → Generation (Option Ending)
  | [] => return none
  | rule :: rules => do
    match ← rule t text with
    | .next => tryRules t text rules
    | .halt => return none
    | .ended e => return some e

/-- The rules in the order of their precedence. -/
def rules : List (Target → List Char → Generation Step) :=
  [tableRule, chartRule, imageRule, formatRule, loopRule, textRule]

/-- Fills a paragraph. One that left its tree, or that holds no brace, stays as it is. -/
def paragraph (id : NodeId) : Generation Ending := do
  if !(← Generation.isAttached id) then return .unchanged
  let f ← Generation.forest
  let t : Target := ⟨id, f.textElements id⟩
  let text := f.joinedText t.elements
  if !text.contains '\x7b' then return .unchanged
  match ← resolveBlocks (text.length + 1) id text 0 false with
  | (none, _) => return .deleted
  | (some text, met) =>
    if met then t.write text
    match ← tryRules t text rules with
    | some e => return e
    | none => return if met then .rewritten else .unchanged

end MailMerge.Fill
