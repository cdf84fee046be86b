/-! Sorting by an order that is given as a test. Items that come in either order keep theirs.
-/
namespace MailMerge.Text

/-- Puts an item before the first that may come after it. -/
def insertSorted (mayPrecede : α → α → Bool) (item : α) : List α → List α
  | [] => [item]
  | next :: rest =>
    if mayPrecede item next then item :: next :: rest
    else next :: insertSorted mayPrecede item rest

/-- Sorts a list. -/
def sortedBy (mayPrecede : α → α → Bool) (items : List α) : List α :=
  items.foldr (insertSorted mayPrecede) []

end MailMerge.Text
