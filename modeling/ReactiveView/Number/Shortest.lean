import ReactiveView.Number.Binary64

/-!
# The shortest decimal that reads back

A finite double is written with the fewest significant digits that read back as the same double,
and with the nearest of those. The reals that round to `m · 2 ^ q` form an interval around it, whose
ends belong to it exactly when `m` is even. For 1, 2, … digits the two neighbours of the value on
that decimal grid are tested against the interval in exact arithmetic; if a point of a grid lies in
the interval, so does one of the two neighbours, and the first grid with a hit wins. When both
neighbours hit, the nearer is taken; what happens on an exact tie is a choice of the format
(`Tie`). -/

namespace ReactiveView

open Binary64 (Parts tenTo)

/-- `digits * 10 ^ exponent`. -/
structure Decimal where
  /-- The significant digits as a number. -/
  digits : Nat
  /-- The power of ten of the last digit. -/
  exponent : Int
deriving DecidableEq, Repr

namespace Decimal

/-- Which of two equally near neighbours is written. -/
inductive Tie where
  /-- The one with the greater magnitude. -/
  | up
  /-- The one whose last digit is even. -/
  | even
deriving DecidableEq, Repr

/-- A positive real as a quotient of natural numbers, and the interval of reals that round to the
same double, in units of a quarter of the last place: `low ≤ value ≤ high`. -/
structure Interval where
  /-- The value in quarter units. -/
  value : Nat
  /-- The lower end in quarter units. -/
  low : Nat
  /-- The upper end in quarter units. -/
  high : Nat
  /-- Whether the ends belong to the interval. -/
  closed : Bool
  /-- The exponent of two of a quarter unit. -/
  exponent : Int

/-- The interval of a nonzero finite double. Below a power of two the doubles are twice as dense,
so its lower half is a quarter unit. -/
def Interval.of (v : Parts) : Interval where
  value := 4 * v.significand
  low := 4 * v.significand -
    if v.significand = Binary64.hiddenBit ∧ -1074 < v.exponent then 1 else 2
  high := 4 * v.significand + 2
  closed := v.significand % 2 == 0
  exponent := v.exponent - 2

/-- Whether `c * 10 ^ k` rounds to the double. Both sides of each comparison are multiplied by the
powers of two and ten with negative exponent. -/
def Interval.contains (i : Interval) (c : Nat) (k : Int) : Bool :=
  let point := (c * tenTo k.toNat) <<< (-i.exponent).toNat
  let unit := tenTo (-k).toNat <<< i.exponent.toNat
  if i.closed then i.low * unit ≤ point && point ≤ i.high * unit
  else i.low * unit < point && point < i.high * unit

/-- The exponent of the greatest power of ten that is at most `n / d`, for positive `n` and `d`.
The estimate from the binary logarithm is off by at most one. -/
def floorLog10 (n d : Nat) : Int :=
  let estimate := Int.fdiv (Binary64.floorLog2 n d * 30103) 100000
  let reaches (k : Int) : Bool := d * tenTo k.toNat ≤ n * tenTo (-k).toNat
  if reaches (estimate + 1) then estimate + 1
  else if reaches estimate then estimate
  else estimate - 1

/-- Try the grids `10 ^ k`, `10 ^ (k - 1)`, … for a neighbour of `n / d` inside the interval. -/
def search (tie : Tie) (i : Interval) (n d : Nat) : (grids : Nat) → (k : Int) → Decimal
  | 0, k => ⟨n * tenTo (-k).toNat / (d * tenTo k.toNat), k⟩
  | grids + 1, k =>
    let n' := n * tenTo (-k).toNat
    let d' := d * tenTo k.toNat
    let below := n' / d'
    let r := n' % d'
    match i.contains below k, i.contains (below + 1) k with
    | true, true =>
      let roundUp := d' < 2 * r ||
        (2 * r == d' && match tie with | .up => true | .even => below % 2 == 1)
      ⟨if roundUp then below + 1 else below, k⟩
    | true, false => ⟨below, k⟩
    | false, true => ⟨below + 1, k⟩
    | false, false => search tie i n d grids (k - 1)

/-- Move factors of ten from the digits to the exponent. -/
def strip : (fuel : Nat) → Decimal → Decimal
  | 0, v => v
  | fuel + 1, v =>
    if v.digits ≠ 0 ∧ v.digits % 10 = 0 then strip fuel ⟨v.digits / 10, v.exponent + 1⟩ else v

/-- The shortest decimal of the magnitude of a finite double; zero is `0 * 10 ^ 0`. Seventeen
digits always suffice. -/
def shortest (tie : Tie) (v : Parts) : Decimal :=
  if v.significand = 0 then ⟨0, 0⟩
  else
    let i := Interval.of v
    let (n, d) := Binary64.scaleRatio i.value 1 i.exponent
    (search tie i n d 17 (floorLog10 n d)).strip 20

/-- The decimal digits of a natural number. -/
def digitText (n : Nat) : List Char := Nat.toDigits 10 n

/-- Positional notation: no exponent, a point only before a nonempty fraction. -/
def positional (v : Decimal) : List Char :=
  let ds := digitText v.digits
  if 0 ≤ v.exponent then ds ++ List.replicate v.exponent.toNat '0'
  else
    let places := (-v.exponent).toNat
    if ds.length ≤ places then '0' :: '.' :: (List.replicate (places - ds.length) '0' ++ ds)
    else ds.take (ds.length - places) ++ '.' :: ds.drop (ds.length - places)

/-- The exponent of the leading digit. -/
def leading (v : Decimal) : Int := v.exponent + ((digitText v.digits).length : Int) - 1

/-- Scientific notation: the leading digit, a point before further digits, and a signed
exponent. -/
def scientific (v : Decimal) : List Char :=
  let exponentText : List Char :=
    if v.leading < 0 then '-' :: digitText v.leading.natAbs else '+' :: digitText v.leading.natAbs
  let mantissa : List Char :=
    match digitText v.digits with
    | d :: e :: rest => d :: '.' :: e :: rest
    | ds => ds
  mantissa ++ 'e' :: exponentText

end Decimal
end ReactiveView
