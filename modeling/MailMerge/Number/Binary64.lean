/-! Binary64 numbers as exact values: a sign, a mantissa and a power of two, with the two
infinities and not-a-number beside them. Every operation here is defined by exact arithmetic
on naturals followed by one rounding to nearest, ties to even.
-/
namespace MailMerge

/-- A binary64 number. A finite one stands for `mantissa · 2 ^ exponent`, with the exponent
at its least, -1074, or the mantissa of full width, 53 bits. -/
inductive Binary64 where
  | nan
  | infinity (negative : Bool)
  | finite (negative : Bool) (mantissa : Nat) (exponent : Int)
  deriving DecidableEq, Repr, Inhabited

namespace Binary64

/-- The quotient to the nearest natural, a half to the even neighbour. -/
def roundQuotient (num den : Nat) : Nat :=
  let q := num / den
  let r := num % den
  if den < 2 * r || (2 * r == den && q % 2 == 1) then q + 1 else q

/-- Zero of either sign. -/
def zero (negative : Bool) : Binary64 :=
  .finite negative 0 (-1074)

/-- `num / den / 2 ^ e` as a quotient of naturals. -/
def scaledBy (num den : Nat) (e : Int) : Nat × Nat :=
  (num * Nat.pow 2 (-e).toNat, den * Nat.pow 2 e.toNat)

/-- The nearest binary64 number to a quotient of naturals; too large a one is infinite. -/
def ofQuotient (negative : Bool) (num den : Nat) : Binary64 :=
  if num == 0 then zero negative
  else
    let estimate : Int := (num.log2 : Int) - den.log2 - 52
    let (n, d) := scaledBy num den estimate
    let exact := if n < d * Nat.pow 2 52 then estimate - 1 else estimate
    let e := max exact (-1074)
    let (n, d) := scaledBy num den e
    let m := roundQuotient n d
    let (m, e) := if m == Nat.pow 2 53 then (Nat.pow 2 52, e + 1) else (m, e)
    if 971 < e then .infinity negative else .finite negative m e

/-- The nearest number to `digits · 10 ^ scale`. Powers of ten far outside the range of
finite numbers are decided without computing them. -/
def ofDecimal (negative : Bool) (digits : Nat) (scale : Int) : Binary64 :=
  let width : Int := (Nat.toDigits 10 digits).length
  if digits == 0 || width + scale < -400 then zero negative
  else if 400 < width + scale then .infinity negative
  else ofQuotient negative (digits * Nat.pow 10 scale.toNat) (Nat.pow 10 (-scale).toNat)

/-- The nearest number to an integer, unless the integer is beyond the finite numbers. -/
def ofInt? (n : Int) : Option Binary64 :=
  match ofQuotient (n < 0) n.natAbs 1 with
  | .infinity _ => none
  | x => some x

/-- The numerator and denominator of the magnitude of a finite number. -/
def magnitude (m : Nat) (e : Int) : Nat × Nat :=
  (m * Nat.pow 2 e.toNat, Nat.pow 2 (-e).toNat)

/-- The integer part of a finite number, toward zero. -/
def truncated? : Binary64 → Option Int
  | .finite negative m e =>
    let (n, d) := magnitude m e
    let whole : Int := (n / d : Nat)
    some (if negative then -whole else whole)
  | _ => none

/-- A finite number without a fractional part. -/
def isIntegral : Binary64 → Bool
  | .finite _ m e => let (n, d) := magnitude m e; n % d == 0
  | _ => false

/-- Neither zero of any sign. Not-a-number and the infinities are not zero. -/
def isNonzero : Binary64 → Bool
  | .finite _ m _ => m != 0
  | _ => true

/-- The exact value as numerator and denominator, the infinities and not-a-number apart. -/
def quotient? : Binary64 → Option (Int × Nat)
  | .finite negative m e =>
    let (n, d) := magnitude m e
    some (if negative then -(n : Int) else n, d)
  | _ => none

/-- Order of two numbers; `none` when one of them is not a number. -/
def compare? : Binary64 → Binary64 → Option Ordering
  | .nan, _ | _, .nan => none
  | .infinity a, .infinity b =>
    some (if a == b then .eq else if a then .lt else .gt)
  | .infinity a, .finite .. => some (if a then .lt else .gt)
  | .finite .., .infinity b => some (if b then .gt else .lt)
  | .finite na m e, .finite nb n f =>
    let (p, q) := magnitude m e
    let (r, s) := magnitude n f
    let signed (negative : Bool) (v : Nat) : Int := if negative then -(v : Int) else v
    some (compare (signed na (p * s)) (signed nb (r * q)))

/-- Numeric equality: the zeros are equal and not-a-number differs from itself. -/
def same (x y : Binary64) : Bool :=
  compare? x y == some .eq

/-- Order of a number against an integer of any size, exactly. -/
def compareInt? (x : Binary64) (n : Int) : Option Ordering :=
  match x with
  | .nan => none
  | .infinity negative => some (if negative then .lt else .gt)
  | .finite negative m e =>
    let (p, q) := magnitude m e
    some (compare (if negative then -(p : Int) else p) (n * q))

/-- The number with the other sign. -/
def opposite : Binary64 → Binary64
  | .nan => .nan
  | .infinity negative => .infinity !negative
  | .finite negative m e => .finite (!negative) m e

/-- The sum of two numbers, rounded once. Only two zeros below zero add up to one. -/
def plus : Binary64 → Binary64 → Binary64
  | .nan, _ | _, .nan => .nan
  | .infinity a, .infinity b => if a == b then .infinity a else .nan
  | .infinity a, .finite .. | .finite .., .infinity a => .infinity a
  | .finite na m e, .finite nb n f =>
    let (p, q) := magnitude m e
    let (r, s) := magnitude n f
    let signed (negative : Bool) (v : Nat) : Int := if negative then -(v : Int) else v
    let sum := signed na (p * s) + signed nb (r * q)
    if sum == 0 then zero (na && nb) else ofQuotient (sum < 0) sum.natAbs (q * s)

/-- The product with a natural number, rounded once. -/
def times (x : Binary64) (n : Nat) : Binary64 :=
  match x with
  | .finite negative m e =>
    let (p, q) := magnitude m e
    ofQuotient negative (p * n) q
  | x => if n == 0 then .nan else x

end Binary64
end MailMerge
