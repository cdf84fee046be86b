import MailMerge.Number.Shortest

/-! Amounts with two places and thousands separated by commas.
-/
namespace MailMerge.Number

/-- Separates the digits of a whole number into groups of three from the right. -/
def grouped (digits : List Char) : List Char :=
  let rec go : List Char → List Char
    | a :: b :: c :: d :: rest => a :: b :: c :: ',' :: go (d :: rest)
    | short => short
  (go digits.reverse).reverse

/-- The magnitude rounded to hundredths, a half to the even neighbour, and written with its
thousands grouped. -/
def amountText (m : Nat) (e : Int) : List Char :=
  let (n, d) := Binary64.magnitude m e
  let hundredths := Binary64.roundQuotient (n * 100) d
  let places := digitsOf (hundredths % 100)
  grouped (digitsOf (hundredths / 100)) ++ '.' ::
    (if places.length < 2 then '0' :: places else places)

end Number

/-- A number as an amount: two places, thousands grouped, a minus sign kept on what rounds to
zero. -/
def Binary64.amount : Binary64 → String
  | .nan => "nan"
  | .infinity negative => if negative then "-inf" else "inf"
  | .finite negative m e =>
    String.ofList ((if negative then ['-'] else []) ++ Number.amountText m e)

end MailMerge
