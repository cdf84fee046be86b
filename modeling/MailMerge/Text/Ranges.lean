/-! Sets of code points given as closed ranges, the form in which the character
classes of this library are tabulated.
-/
namespace MailMerge.Text

/-- Closed ranges of code points, first and last. -/
abbrev Ranges := Array (Nat × Nat)

/-- A character belongs to a table when one of its ranges covers the code point. -/
def Ranges.contains (ranges : Ranges) (c : Char) : Bool :=
  ranges.any fun range => range.1 ≤ c.toNat && c.toNat ≤ range.2

end MailMerge.Text
