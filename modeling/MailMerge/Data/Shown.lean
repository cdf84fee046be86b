import MailMerge.Data.Value
import MailMerge.Number.Shortest
import MailMerge.Text.Quoted

/-! Values as messages show them.
-/
namespace MailMerge

/-- A scalar in messages; texts are quoted. -/
def Scalar.shown : Scalar → String
  | .null => "None"
  | .bool b => if b then "True" else "False"
  | .int n => toString n
  | .float x => x.text
  | .text s => Text.quoted s
  | .date d => d.shown
  | .moment t => t.shown

namespace Value

mutual

/-- A value in messages: lists in brackets, mappings in braces. -/
def shown : Value → String
  | .scalar s => s.shown
  | .list items => "[" ++ String.intercalate ", " (shownItems items) ++ "]"
  | .map entries => "\x7b" ++ String.intercalate ", " (shownEntries entries) ++ "\x7d"

/-- The items of a list in messages. -/
def shownItems : List Value → List String
  | [] => []
  | x :: xs => shown x :: shownItems xs

/-- The entries of a mapping in messages. -/
def shownEntries : List (Scalar × Value) → List String
  | [] => []
  | (key, x) :: xs => (key.shown ++ ": " ++ shown x) :: shownEntries xs

end

end Value

/-- A scalar as bare text: texts as they are, dates in their usual notation. -/
def Scalar.bare : Scalar → String
  | .text s => s
  | .date d => d.text
  | .moment t => t.textWith " "
  | s => s.shown

/-- A value as bare text, the form in which it is compared with texts. -/
def Value.bare : Value → String
  | .scalar s => s.bare
  | v => v.shown

end MailMerge
