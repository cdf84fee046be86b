import MailMerge.Data.Display
import MailMerge.Directive.Grammar

/-! Rendering of loops: the template once for every item, with the fields of the item filled in.
-/
namespace MailMerge.Loop
open Directive

/-- The text of one field of an item. A missing field, and every field of an item that is no
mapping, is empty. -/
def fieldText (item : Value) (field : String) : Except Fault (List Char) :=
  match item with
  | .map entries => do
    let text ← ((Entries.get? entries field).getD .null).display
    return text.toList
  | _ => .ok []

/-- The template filled in for one item; only the tags of the item are replaced. -/
def renderItem (template : List Char) (name : String) (item : Value) :
    Except Fault (List Char) := do
  let fields ← (all (itemField? name.toList) template).mapM fun found => do
    let text ← fieldText item found.value
    return (found, text)
  return substitute template fields

/-- The template filled in for every item, in order. -/
def render (template : List Char) (name : String) (items : List Value) :
    Except Fault (List Char) := do
  let parts ← items.mapM (renderItem template name)
  return parts.flatten

end MailMerge.Loop
