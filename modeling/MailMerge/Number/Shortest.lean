import MailMerge.Number.Binary64

/-! The shortest decimal that reads back to a given number, and its natural notation. The
search tries one digit, two digits and so on; on each grid it looks at the two neighbours of
the value, and takes the nearer one that lies in the interval of reals rounding to the value.
-/
namespace MailMerge.Number

/-- A positive decimal `digits · 10 ^ scale`. -/
structure Decimal where
  digits : Nat
  scale : Int
  deriving DecidableEq, Repr, Inhabited

/-- Order of `d` against `n · 2 ^ j`, exactly. -/
def Decimal.compareBinary (d : Decimal) (n : Nat) (j : Int) : Ordering :=
  compare (d.digits * Nat.pow 10 d.scale.toNat * Nat.pow 2 (-j).toNat)
    (n * Nat.pow 2 j.toNat * Nat.pow 10 (-d.scale).toNat)

/-- The decimal lies among the reals that round to `m · 2 ^ e`. Below a power of two the gap is
half as wide; the ends belong to the interval when the mantissa is even. -/
def readsBack (m : Nat) (e : Int) (d : Decimal) : Bool :=
  let low := if m == Nat.pow 2 52 && -1074 < e then 4 * m - 1 else 4 * m - 2
  let below := d.compareBinary low (e - 2)
  let above := d.compareBinary (4 * m + 2) (e - 2)
  let ends := m % 2 == 0
  (below == .gt || (ends && below == .eq)) && (above == .lt || (ends && above == .eq))

/-- The least power `k` with the value below `10 ^ k`, found from an estimate that is at most
two too low. -/
def leadingScale (m : Nat) (e : Int) : Int :=
  let bits : Int := m.log2 + e
  let estimate : Int := bits * 30103 / 100000 - 1
  let fits (k : Int) : Bool := Decimal.compareBinary ⟨1, k⟩ m e == .gt
  if fits estimate then estimate
  else if fits (estimate + 1) then estimate + 1
  else if fits (estimate + 2) then estimate + 2
  else estimate + 3

/-- The nearer neighbour of the value on the grid `10 ^ scale` that reads back. A tie between
two that read back goes to the even one. -/
def onGrid? (m : Nat) (e : Int) (scale : Int) : Option Decimal :=
  let (n, d) := Binary64.magnitude m e
  let num := n * Nat.pow 10 (-scale).toNat
  let den := d * Nat.pow 10 scale.toNat
  let q := num / den
  let low : Decimal := ⟨q, scale⟩
  let high : Decimal := ⟨q + 1, scale⟩
  match readsBack m e low, readsBack m e high with
  | true, true =>
    let twice := 2 * (num % den)
    if twice < den || (twice == den && q % 2 == 0) then some low else some high
  | true, false => some low
  | false, true => some high
  | false, false => none

/-- Moves trailing zeros of the digits into the scale. -/
def Decimal.stripped (d : Decimal) : Nat → Decimal
  | 0 => d
  | fuel + 1 =>
    if d.digits != 0 && d.digits % 10 == 0 then
      Decimal.stripped ⟨d.digits / 10, d.scale + 1⟩ fuel
    else d

/-- The shortest decimal that reads back to a positive number. -/
def shortest (m : Nat) (e : Int) : Decimal :=
  let top := leadingScale m e
  match (List.range 17).findSome? fun places => onGrid? m e (top - (places + 1 : Nat)) with
  | some d => d.stripped 20
  | none =>
    let (n, d) := Binary64.magnitude m e
    ⟨n * Nat.pow 5 d.log2, -(d.log2 : Int)⟩

/-- Decimal digits of a natural number. -/
def digitsOf (n : Nat) : List Char :=
  Nat.toDigits 10 n

/-- Natural notation of a finite number: the shortest digits, positional from 0.0001 up to
10^16 with at least one place after the point, otherwise one leading digit and a signed power
of ten of at least two digits. -/
def naturalText (m : Nat) (e : Int) : List Char :=
  if m == 0 then ['0', '.', '0']
  else
    let d := shortest m e
    let digits := digitsOf d.digits
    let power : Int := d.scale + digits.length - 1
    if -4 ≤ power && power < 16 then
      if 0 ≤ d.scale then digits ++ List.replicate d.scale.toNat '0' ++ ['.', '0']
      else if 0 ≤ power then
        digits.take (power.toNat + 1) ++ '.' :: digits.drop (power.toNat + 1)
      else '0' :: '.' :: List.replicate (-power - 1).toNat '0' ++ digits
    else
      let exponent := digitsOf power.natAbs
      let padded := if exponent.length < 2 then '0' :: exponent else exponent
      let fraction := if digits.length == 1 then [] else '.' :: digits.drop 1
      digits.take 1 ++ fraction ++ 'e' :: (if power < 0 then '-' else '+') :: padded

end Number

/-- The natural notation of a number: `1.5`, `1e+16`, `-0.0`, `inf`, `nan`. -/
def Binary64.text : Binary64 → String
  | .nan => "nan"
  | .infinity negative => if negative then "-inf" else "inf"
  | .finite negative m e =>
    String.ofList ((if negative then ['-'] else []) ++ Number.naturalText m e)

end MailMerge
