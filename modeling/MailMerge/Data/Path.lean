import MailMerge.Data.Value
import MailMerge.Number.Numeral
import MailMerge.Text.Search

/-! Looking up a dotted path in the data. A key of the whole context that equals the path wins;
otherwise the path is walked segment by segment, through mappings by key and through lists by
position, negative positions counting from the end.
-/
namespace MailMerge

/-- The value one segment further, if there is one. -/
def Value.step (v : Value) (segment : List Char) : Option Value :=
  match v with
  | .map entries => Entries.get? entries (String.ofList segment)
  | .list items =>
    match Number.readInt? segment with
    | some (.ofNat i) => items[i]?
    | some (.negSucc i) => if i < items.length then items[items.length - 1 - i]? else none
    | none => none
  | .scalar _ => none

/-- What is absent or null reads as the empty text. -/
def Value.orEmpty : Value → Value
  | .null => .empty
  | v => v

/-- Follows the segments of a path; null has no parts. -/
def Value.walk (v : Value) : List (List Char) → Value
  | [] => v.orEmpty
  | segment :: rest =>
    match v.step segment with
    | some next => next.walk rest
    | none => .empty

/-- The value at a dotted path, the empty text when there is none. -/
def Value.resolve (context : Value) (path : String) : Value :=
  if path == "" then .empty
  else
    let walked := context.walk (Text.splitOn '.' path.toList)
    match context with
    | .map entries =>
      match Entries.get? entries path with
      | some v => v.orEmpty
      | none => walked
    | _ => walked

end MailMerge
