import ReactiveView.Number.Shortest
import ReactiveView.Text.Slice

/-!
# Numerals

The text of doubles and of 64-bit integers. `FloatFormat` gathers the choices of a written form:
`display` is the form of text nodes and attributes (always positional, `1` for one, `inf` and `NaN`
spelled out), `wire` the form of JSON numbers (a fraction or an exponent always shown, positional
notation from `1e-5` up to `1e16`). `readFloat?` and `readInt64?` read the numerals that a
conversion accepts.
-/

namespace ReactiveView

open Decimal (Tie)

/-- The choices of a written form of finite doubles. -/
structure FloatFormat where
  /-- Which of two equally near shortest forms is written. -/
  tie : Tie
  /-- Whether a number whose leading digit stands at this power of ten is written positionally. -/
  isPositional : Int → Bool
  /-- Whether an integer written positionally ends in `.0`. -/
  showsFraction : Bool

/-- Text of values: no exponent ever, and no fraction on integers. -/
def FloatFormat.display : FloatFormat := ⟨.up, fun _ => true, false⟩

/-- JSON numbers: positional for magnitudes in `[1e-5, 1e16)`, with a fraction on integers. -/
def FloatFormat.wire : FloatFormat := ⟨.even, fun e => -5 ≤ e && e < 16, true⟩

/-- The text of a finite double in a format. -/
def FloatFormat.render (f : FloatFormat) (v : Binary64.Parts) : String :=
  let d := Decimal.shortest f.tie v
  let body :=
    if f.isPositional d.leading then
      if f.showsFraction && 0 ≤ d.exponent then d.positional ++ ['.', '0'] else d.positional
    else d.scientific
  String.ofList (if v.negative then '-' :: body else body)

/-- The text of a double in messages, text nodes and attributes. -/
def displayFloat (x : Float) : String :=
  match Binary64.decode x with
  | some v => FloatFormat.display.render v
  | none => if x.isNaN then "NaN" else if x < 0.0 then "-inf" else "inf"

/-- The value of a numeral: digits with an optional point among or around them, and an optional
exponent. At least one digit stands before the exponent. -/
def readDecimal? (negative : Bool) (cs : List Char) : Option Float :=
  let (whole, rest) := cs.span Text.isAsciiDigit
  let (fraction, rest) : List Char × List Char :=
    match rest with
    | '.' :: tail => tail.span Text.isAsciiDigit
    | _ => ([], rest)
  if whole.isEmpty && fraction.isEmpty then none
  else
    let digits := Text.digitsValue 0 (whole ++ fraction)
    let shift : Int := -(fraction.length : Int)
    match rest with
    | [] => some (Binary64.ofDecimal negative digits shift)
    | e :: tail =>
      if e = 'e' ∨ e = 'E' then
        let (below, ds) : Bool × List Char :=
          match tail with
          | '-' :: ds => (true, ds)
          | '+' :: ds => (false, ds)
          | ds => (false, ds)
        if ds.isEmpty || !ds.all Text.isAsciiDigit then none
        else
          let exponent : Int := Text.digitsValue 0 ds
          some (Binary64.ofDecimal negative digits
            (shift + if below then -exponent else exponent))
      else none

/-- Read a double: an optional sign, then a decimal numeral or `inf`, `infinity` or `nan` in any
case. -/
def readFloat? (cs : List Char) : Option Float :=
  let (negative, body) : Bool × List Char :=
    match cs with
    | '-' :: rest => (true, rest)
    | '+' :: rest => (false, rest)
    | _ => (false, cs)
  let word := body.map Char.toLower
  if word = "inf".toList ∨ word = "infinity".toList then some (Binary64.infinity negative)
  else if word = "nan".toList then some Binary64.nan
  else readDecimal? negative body

/-- The 64-bit integer with the given value, when it is in range. -/
def int64? (i : Int) : Option Int64 :=
  if Int64.minValue.toInt ≤ i ∧ i ≤ Int64.maxValue.toInt then some (Int64.ofInt i) else none

/-- Read a 64-bit integer: an optional sign and at least one digit, in range. -/
def readInt64? (cs : List Char) : Option Int64 :=
  let (negative, body) : Bool × List Char :=
    match cs with
    | '-' :: rest => (true, rest)
    | '+' :: rest => (false, rest)
    | _ => (false, cs)
  if body.isEmpty || !body.all Text.isAsciiDigit then none
  else
    let magnitude : Int := Text.digitsValue 0 body
    int64? (if negative then -magnitude else magnitude)

/-- The decimal text of a 64-bit integer. -/
def displayInt (i : Int64) : String :=
  let n := i.toInt
  let body := Decimal.digitText n.natAbs
  String.ofList (if n < 0 then '-' :: body else body)

/-- An integer that is in range keeps its value. -/
theorem toInt_of_int64? {i : Int} {n : Int64} (h : int64? i = some n) : n.toInt = i := by
  unfold int64? at h
  split at h
  · rename_i hr
    cases h
    have top : Int64.maxValue.toInt = 9223372036854775807 := rfl
    exact Int64.toInt_ofInt_of_le hr.1 (by omega)
  · cases h

/-- The range is exactly that of 64-bit integers. -/
theorem int64?_eq_none_iff {i : Int} :
    int64? i = none ↔ i < Int64.minValue.toInt ∨ Int64.maxValue.toInt < i := by
  unfold int64?
  split <;> grind

end ReactiveView
