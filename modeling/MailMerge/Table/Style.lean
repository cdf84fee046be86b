import MailMerge.Data.Condition
import MailMerge.Session
import MailMerge.Tree.Text

/-! Styling the rows of a template's table by the data they are bound to. A directive in the first
cell binds the table to a list; a rule in the first cell of a row styles the row when the item of
the list at its place satisfies it.
-/
namespace MailMerge.Table
open Docx Xml

/-- What must follow the shading among the properties of a cell. -/
def afterShading : List String :=
  ["noWrap", "tcMar", "textDirection", "tcFitText", "vAlign", "hideMark", "headers", "cellIns",
    "cellDel", "cellMerge", "tcPrChange"]

/-- What must follow the bold mark among the properties of a run. -/
def afterBold : List String :=
  ["bCs", "i", "iCs", "caps", "smallCaps", "strike", "dstrike", "outline", "shadow", "emboss",
    "imprint", "noProof", "snapToGrid", "vanish", "webHidden", "color", "spacing", "w", "kern",
    "position", "sz", "szCs", "highlight", "u", "effect", "bdr", "shd", "fitText", "vertAlign",
    "rtl", "cs", "em", "lang", "eastAsianLayout", "specVanish", "oMath"]

/-- Shades a cell, in the place of any shading it had. -/
def shade (f : Forest) (cell : NodeId) (fill : String) : Forest :=
  let (look, f) := f.firstOrNew cell "tcPr"
  let f := (f.childrenNamed look (main "shd")).foldl (fun f old => f.detach look old) f
  let (new, f) := f.add { name := main "shd", attributes :=
    [(main "val", "clear"), (main "color", "auto"), (main "fill", fill)] }
  f.insertInOrder look new afterShading

/-- Makes a run bold. -/
def embolden (f : Forest) (run : NodeId) : Forest :=
  let (look, f) := f.firstOrNew run "rPr"
  match f.childNamed? look (main "b") with
  | some _ => f
  | none =>
    let (new, f) := f.add { name := main "b" }
    f.insertInOrder look new afterBold

/-- Gives the cells of a row a style: a fill colour, or bold text. Other styles do nothing. -/
def styleRow (s : Settings) (f : Forest) (row : NodeId) (style : String) : Forest :=
  let cells := f.childrenNamed row cellName
  match s.rowFills.lookup style with
  | some fill => cells.foldl (fun f cell => shade f cell fill) f
  | none =>
    if style == "bold" then
      cells.foldl (fun f cell => (f.named cell runName).foldl embolden f) f
    else f

/-- A style that does nothing. -/
def isUnknown (s : Settings) (style : String) : Bool :=
  (s.rowFills.lookup style).isNone && style != "bold"

/-- The text of the first cell of a row, empty without one. -/
def firstCellText (f : Forest) (row : NodeId) : List Char :=
  match f.childNamed? row cellName with
  | some cell => f.cellText cell
  | none => []

/-- The rows of a table, not those of tables in its cells. -/
def rows (f : Forest) (table : NodeId) : List NodeId :=
  f.childrenNamed table rowName

/-- Takes a directive out of the first paragraph of a cell that holds it. -/
def strip (f : Forest) (cell : NodeId) (raw : List Char) : Forest :=
  match (f.named cell paragraphName).find? fun p => Text.occursIn raw (f.paragraphText p) with
  | some p => f.setParagraphText p
      (String.ofList (Text.replaceFirst raw [] (f.paragraphText p)))
  | none => f

/-- Takes a row out of a table, through the index if so wanted and if it knows the row. -/
def dropRow (table row : NodeId) (indexed : Bool) : Generation Unit := do
  let known ← if indexed then Generation.remove row else pure false
  if !known then Generation.edit (·.detach table row)

/-- Binds a table to the list that the directive in its first cell names. A first row with nothing
but the directive is dropped. -/
def bind (table : NodeId) (indexed : Bool) : Generation (Option (List Value)) := do
  let f ← Generation.forest
  match rows f table with
  | [] => return none
  | header :: _ =>
    let text := firstCellText f header
    match Directive.first? Directive.bind? text with
    | none => return none
    | some found => do
      let key := found.value.key
      let data := (← read).data
      match if key == "" then Value.null else data.resolve key with
      | .list items =>
        if found.raw == Text.trim text then dropRow table header indexed
        Generation.record .formatTable (.text key) .applied
        return some items
      | _ =>
        Generation.record .formatTable (.text key) .skipped "key did not resolve to a list"
        return none

/-- Judges a rule against an item. A rule that cannot be judged does not hold. -/
def ruleHolds (item : Value) (rule : Directive.RowRule) : Generation Bool := do
  match ← Generation.ofExcept (Condition.judgeRow item rule.field rule.operator rule.value) with
  | .holds b => return b
  | .invalid reason =>
    Generation.log .debug
      s!"Row condition {rule.field}{rule.operator}{rule.value} treated as false: {reason.message}"
    return false

/-- Applies the rule in the first cell of a row, if it has one. Outcomes are recorded on demand. -/
def applyRule (row : NodeId) (item : Value) (recorded : Bool) : Generation Unit := do
  let f ← Generation.forest
  match f.childNamed? row cellName with
  | none => return ()
  | some cell =>
    match Directive.first? Directive.rowRule? (f.cellText cell) with
    | none => return ()
    | some found =>
      let rule := found.value
      let holds ← ruleHolds item rule
      if holds then
        let s := (← read).settings
        if isUnknown s rule.style then
          Generation.log .debug s!"Unknown row style '{rule.style}' ignored"
        Generation.edit (styleRow s · row rule.style)
      Generation.edit (strip · cell found.raw)
      if recorded then
        Generation.record .rowCondition (.text (rule.field ++ rule.operator ++ rule.value))
          (if holds then .applied else .skipped)

/-- Applies the rules of all rows but the first; the items of the list belong to the rows after
the first, in order. -/
def applyRules (table : NodeId) (items : List Value) (recorded : Bool) : Generation Unit := do
  for (row, item) in ((rows (← Generation.forest) table).drop 1).zip items do
    applyRule row item recorded

end MailMerge.Table
