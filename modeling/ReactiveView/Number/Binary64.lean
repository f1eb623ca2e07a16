/-!
# Doubles as exact numbers

A finite double is `± significand · 2 ^ exponent`; `decode` reads that triple off the word. In the
other direction `ofRatio` rounds an exact quotient of natural numbers to the nearest double, a tie
going to the even significand, so that reading a decimal numeral is correctly rounded whatever its
length. `remEuclid` is the remainder that is never negative: the truncated remainder is exact on
doubles, and it is computed on the exact values here.
-/

namespace ReactiveView.Binary64

/-- The unit of the exponent field of a word, which is also the leading bit of a normal significand.
-/
def hiddenBit : Nat := 1 <<< 52

/-- The sign bit of a word. -/
def signBit : Nat := 1 <<< 63

/-- A power of ten. -/
def tenTo (k : Nat) : Nat := Nat.pow 10 k

/-- The exact value of a finite double: `± significand * 2 ^ exponent`. -/
structure Parts where
  /-- The sign bit; a zero has one too. -/
  negative : Bool
  /-- The integral significand, below `2 ^ 53`. -/
  significand : Nat
  /-- The exponent of the unit in the last place. -/
  exponent : Int
deriving DecidableEq, Repr

/-- The value of a finite double; `none` for the infinities and for NaN. -/
def decode (x : Float) : Option Parts :=
  let bits : Nat := x.toBits.toNat
  let field : Nat := bits / hiddenBit % 2048
  let fraction : Nat := bits % hiddenBit
  if field = 2047 then none
  else if field = 0 then some ⟨decide (signBit ≤ bits), fraction, -1074⟩
  else some ⟨decide (signBit ≤ bits), fraction + hiddenBit, (field : Int) - 1075⟩

/-- The quotient rounded to the nearest natural number, a tie going to the even one. -/
def roundDiv (n d : Nat) : Nat :=
  let q := n / d
  let r := n % d
  if d < 2 * r ∨ (2 * r = d ∧ q % 2 = 1) then q + 1 else q

/-- `a * 2 ^ e` and `b` as a quotient of natural numbers with the same value as `a * 2 ^ e / b`. -/
def scaleRatio (a b : Nat) (e : Int) : Nat × Nat :=
  (a <<< e.toNat, b <<< (-e).toNat)

/-- The exponent of the greatest power of two that is at most `n / d`, for positive `n` and `d`. -/
def floorLog2 (n d : Nat) : Int :=
  let e : Int := (n.log2 : Int) - d.log2
  let (n', d') := scaleRatio n d (-e)
  if n' < d' then e - 1 else e

/-- The word of the infinity without its sign. -/
def infinityWord : Nat := 2047 * hiddenBit

/-- The word, without its sign, of the double nearest to `n / d`; `d` is positive. -/
def magnitudeWord (n d : Nat) : Nat :=
  if n = 0 then 0
  else
    let unit : Int := max (floorLog2 n d - 52) (-1074)
    let (n', d') := scaleRatio n d (-unit)
    min ((unit + 1074).toNat * hiddenBit + roundDiv n' d') infinityWord

/-- The double with the given sign and magnitude word. -/
def ofWord (negative : Bool) (magnitude : Nat) : Float :=
  Float.ofBits (UInt64.ofNat (magnitude + if negative then signBit else 0))

/-- The double nearest to `± n / d`. -/
def ofRatio (negative : Bool) (n d : Nat) : Float := ofWord negative (magnitudeWord n d)

/-- The number of decimal digits of `n`, zero for zero. -/
def digitCount (n : Nat) : Nat := if n = 0 then 0 else (Nat.toDigits 10 n).length

/-- The double nearest to `± digits * 10 ^ exponent`. Exponents far outside the range of doubles
are answered without forming the power of ten. -/
def ofDecimal (negative : Bool) (digits : Nat) (exponent : Int) : Float :=
  let top : Int := exponent + digitCount digits
  if digits = 0 ∨ top < -400 then ofWord negative 0
  else if 400 < top then ofWord negative infinityWord
  else ofRatio negative (digits * tenTo exponent.toNat) (tenTo (-exponent).toNat)

/-- The infinity of the given sign. -/
def infinity (negative : Bool) : Float := ofWord negative infinityWord

/-- The quiet NaN. -/
def nan : Float := ofWord false (infinityWord + hiddenBit / 2)

/-- Whether the value is an integer; the infinities and NaN are not. -/
def isInteger (x : Float) : Bool :=
  match decode x with
  | none => false
  | some v => v.significand % (1 <<< (-v.exponent).toNat) == 0

/-- Whether the value is finite. -/
def isFinite (x : Float) : Bool := (decode x).isSome

/-- The integer next to the value toward zero, clamped to 64 bits; zero for NaN. -/
def truncate (x : Float) : Int64 := x.toInt64

/-- The remainder of the quotient truncated toward zero, with the sign of `x`. -/
def remTruncated (x y : Float) : Float :=
  match decode x, decode y with
  | some a, some b =>
    if b.significand = 0 then nan
    else
      let unit := min a.exponent b.exponent
      let m := a.significand <<< (a.exponent - unit).toNat
      let n := b.significand <<< (b.exponent - unit).toNat
      let (p, q) := scaleRatio (m % n) 1 unit
      ofRatio a.negative p q
  | some _, none => if y.isNaN then nan else x
  | none, _ => nan

/-- The remainder that is never negative: a negative truncated remainder gains `|y|`. -/
def remEuclid (x y : Float) : Float :=
  let r := remTruncated x y
  if r < 0.0 then r + y.abs else r

end ReactiveView.Binary64
