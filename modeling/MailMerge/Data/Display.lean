import MailMerge.Data.Json.Printer
import MailMerge.Data.IsoDate
import MailMerge.Number.Grouped
import MailMerge.Number.Numeral
import MailMerge.Text.Blank
import MailMerge.Text.Search

/-! Values as document text: plain display, and the named formats for dates and amounts.
-/
namespace MailMerge

/-- The text a value contributes to a document. Null contributes nothing, a float without a
fraction is written as an integer, and containers appear as compact structured text. -/
def Value.display (v : Value) : Except Fault String :=
  match v with
  | .scalar s =>
    match s with
    | .null => .ok ""
    | .bool b => .ok (if b then "true" else "false")
    | .int n => Number.digits n
    | .float x =>
      match x.isIntegral, x.truncated? with
      | true, some n => .ok (toString n)
      | _, _ => .ok x.text
    | s => .ok s.bare
  | v => Json.compact v

namespace Format

/-- A date as day, month and year: moments, and texts in the standard notation. -/
def dateText? : Value → Option String
  | .moment t => some t.date.slashed
  | .text s =>
    let trimmed := Text.trim s.toList
    let zoned := match trimmed.reverse with
      | 'Z' :: before => before.reverse ++ "+00:00".toList
      | _ => trimmed
    (IsoDate.moment? zoned).map (·.date.slashed)
  | _ => none

/-- A number as an amount: numbers, and texts that are numerals. An integer beyond all floats is
a fault. -/
def amountText? : Value → Except Fault (Option String)
  | .int n =>
    match Binary64.ofInt? n with
    | some x => .ok (some x.amount)
    | none => .error (.breakdown .overflow)
  | .float x => .ok (some x.amount)
  | .text s => .ok ((Number.read? s.toList).map Binary64.amount)
  | _ => .ok none

end Format

/-- The text of a value in a named style. What the style cannot read, and every unknown style,
falls back to plain display. -/
def Value.format (v : Value) (style : String) : Except Fault String :=
  if style == "date" then
    match Format.dateText? v with
    | some s => .ok s
    | none => v.display
  else if style == "number" then do
    match ← Format.amountText? v with
    | some s => return s
    | none => v.display
  else v.display

end MailMerge
