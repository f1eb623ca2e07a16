import ReactiveView.Json.Basic
import ReactiveView.Text.Slice

/-!
# JSON texts

`Document.parse?` reads the structure of a JSON text and leaves its numerals and texts as they are
written: a member that no reader asks for must be well formed, but its numbers may be out of range
and its escapes need not pair up. `Numeral.value?` and `Document.text?` then read those leaves.

A numeral is read into 64 significant bits and scaled by a power of ten in floating point; this is
exact for numerals of up to fifteen digits and small exponents, and what it gives beyond that is
fixed by the order of the operations.
-/

namespace ReactiveView

/-- A numeral as it is written. -/
structure Numeral where
  /-- Whether a minus sign stands in front. -/
  negative : Bool
  /-- The digits before the point. -/
  whole : List Char
  /-- The digits behind the point; there are none exactly when there is no point. -/
  fraction : List Char
  /-- The exponent: whether it is negative, and its digits. -/
  exponent : Option (Bool × List Char)
deriving DecidableEq, Repr

/-- One unit of a text as it is written. -/
inductive Glyph where
  /-- A character, written as itself or by a short escape. -/
  | char (c : Char)
  /-- A code unit of sixteen bits, written by number. -/
  | unit (n : Nat)
deriving DecidableEq, Repr

/-- The structure of a JSON text. -/
inductive Document where
  /-- The empty value. -/
  | null
  /-- A truth value. -/
  | bool (b : Bool)
  /-- A number. -/
  | number (n : Numeral)
  /-- A text. -/
  | text (glyphs : List Glyph)
  /-- A sequence. -/
  | array (items : List Document)
  /-- Members in the order in which they stand, repeated keys included. -/
  | object (members : List (List Glyph × Document))

/-- A number that was read. -/
inductive Number where
  /-- An integer of 64 bits, signed or unsigned. -/
  | int (i : Int)
  /-- Any other number. -/
  | float (x : Float)
deriving Repr

namespace Numeral

/-- Take digits onto a significand as long as it fits into 64 bits; the digits left over. -/
def absorb (significand : Nat) : List Char → Nat × List Char
  | [] => (significand, [])
  | d :: ds =>
    let next := Text.digitsValue significand [d]
    if next < UInt64.size then absorb next ds else (significand, d :: ds)

/-- Scale by a power of ten, in steps of at most `10 ^ 308`; `none` beyond the greatest double. -/
def scale : (steps : Nat) → Float → Int → Option Float
  | 0, x, _ => some x
  | steps + 1, x, e =>
    if e.natAbs ≤ 308 then
      let power := Binary64.ofDecimal false 1 e.natAbs
      if 0 ≤ e then
        let y := x * power
        if Binary64.isFinite y then some y else none
      else some (x / power)
    else if x == 0.0 then some x
    else if 0 ≤ e then none
    else scale steps (x / Binary64.ofDecimal false 1 308) (e + 308)

/-- The double of a significand and a power of ten. Three steps take any significand to zero. -/
def ofParts (negative : Bool) (significand : Nat) (exponent : Int) : Option Float :=
  (scale 4 (UInt64.ofNat significand).toFloat exponent).map fun x => if negative then -x else x

/-- The value of a numeral; `none` when it is beyond the greatest double. -/
def value? (n : Numeral) : Option Number :=
  let (significand, dropped) := absorb 0 n.whole
  match n.fraction, n.exponent, dropped with
  | [], none, [] =>
    if !n.negative then some (.int significand)
    else if significand = 0 ∨ 2 * significand > UInt64.size then
      some (.float (-(UInt64.ofNat significand).toFloat))
    else some (.int (-(significand : Int)))
  | _, _, _ =>
    let (digits, left) := absorb significand n.fraction
    let start : Int := (dropped.length : Int) - ((n.fraction.length - left.length : Nat) : Int)
    match n.exponent with
    | none => (ofParts n.negative digits start).map .float
    | some (below, ds) =>
      let e : Int := Text.digitsValue 0 ds
      if 2 * e < UInt32.size then
        (ofParts n.negative digits (if below then start - e else start + e)).map .float
      else if digits ≠ 0 ∧ !below then none
      else some (.float (if n.negative then -0.0 else 0.0))

end Numeral

namespace Document

/-- The blanks between the parts of a text. -/
def isGap (c : Char) : Bool := c == ' ' || c == '\n' || c == '\t' || c == '\r'

/-- Skip blanks. -/
def skipGap (cs : List Char) : List Char := cs.dropWhile isGap

/-- The value of a hexadecimal digit. -/
def hexValue? (c : Char) : Option Nat :=
  if '0' ≤ c ∧ c ≤ '9' then some (c.toNat - '0'.toNat)
  else if 'a' ≤ c ∧ c ≤ 'f' then some (c.toNat - 'a'.toNat + 10)
  else if 'A' ≤ c ∧ c ≤ 'F' then some (c.toNat - 'A'.toNat + 10)
  else none

/-- The value of four hexadecimal digits. -/
def hexUnit? (a b c d : Char) : Option Nat := do
  let a ← hexValue? a
  let b ← hexValue? b
  let c ← hexValue? c
  let d ← hexValue? d
  return ((a * 16 + b) * 16 + c) * 16 + d

/-- The character of a short escape. -/
def shortEscape? (c : Char) : Option Char :=
  match c with
  | '"' => some '"'
  | '\\' => some '\\'
  | '/' => some '/'
  | 'b' => some '\x08'
  | 'f' => some '\x0c'
  | 'n' => some '\n'
  | 'r' => some '\r'
  | 't' => some '\t'
  | _ => none

/-- The glyphs up to the closing quote, and what follows it. -/
def glyphs? : List Char → Option (List Glyph × List Char)
  | [] => none
  | '"' :: rest => some ([], rest)
  | '\\' :: 'u' :: a :: b :: c :: d :: rest => do
    let n ← hexUnit? a b c d
    let (gs, rest) ← glyphs? rest
    return (.unit n :: gs, rest)
  | '\\' :: e :: rest => do
    let c ← shortEscape? e
    let (gs, rest) ← glyphs? rest
    return (.char c :: gs, rest)
  | c :: rest =>
    if c.toNat < 0x20 then none
    else do
      let (gs, rest) ← glyphs? rest
      return (.char c :: gs, rest)

/-- The characters of a text. A unit of the upper surrogate range is followed by one of the lower
range, and no other unit of the lower range occurs. -/
def characters? : List Glyph → Option (List Char)
  | [] => some []
  | .char c :: gs => (characters? gs).map (c :: ·)
  | .unit n :: gs =>
    if 0xD800 ≤ n ∧ n < 0xDC00 then
      match gs with
      | .unit m :: gs =>
        if 0xDC00 ≤ m ∧ m < 0xE000 then
          (characters? gs).map
            (Char.ofNat (0x10000 + (n - 0xD800) * 0x400 + (m - 0xDC00)) :: ·)
        else none
      | _ => none
    else if 0xDC00 ≤ n ∧ n < 0xE000 then none
    else (characters? gs).map (Char.ofNat n :: ·)

/-- The text that glyphs stand for. -/
def textOf? (gs : List Glyph) : Option String := (characters? gs).map String.ofList

/-- A numeral behind its sign: no digit follows a leading zero, and at least one digit follows a
point and an exponent mark. -/
def numeral? (negative : Bool) (cs : List Char) : Option (Numeral × List Char) :=
  let (whole, rest) := cs.span Text.isAsciiDigit
  let wellFormed : Bool := match whole with
    | [] => false
    | ['0'] => true
    | d :: _ => d != '0'
  if !wellFormed then none
  else
    let fraction? : Option (List Char × List Char) :=
      match rest with
      | '.' :: tail =>
        let (ds, tail) := tail.span Text.isAsciiDigit
        if ds.isEmpty then none else some (ds, tail)
      | _ => some ([], rest)
    match fraction? with
    | none => none
    | some (fraction, rest) =>
      match rest with
      | [] => some (⟨negative, whole, fraction, none⟩, rest)
      | e :: tail =>
        if e = 'e' ∨ e = 'E' then
          let (below, tail) : Bool × List Char :=
            match tail with
            | '-' :: tail => (true, tail)
            | '+' :: tail => (false, tail)
            | _ => (false, tail)
          let (ds, tail) := tail.span Text.isAsciiDigit
          if ds.isEmpty then none else some (⟨negative, whole, fraction, some (below, ds)⟩, tail)
        else some (⟨negative, whole, fraction, none⟩, rest)

mutual

/-- A value at the front of the text, and what follows it. `fuel` bounds the nesting. -/
def valueAt? : (fuel : Nat) → List Char → Option (Document × List Char)
  | 0, _ => none
  | fuel + 1, cs =>
    match skipGap cs with
    | 'n' :: 'u' :: 'l' :: 'l' :: rest => some (.null, rest)
    | 't' :: 'r' :: 'u' :: 'e' :: rest => some (.bool true, rest)
    | 'f' :: 'a' :: 'l' :: 's' :: 'e' :: rest => some (.bool false, rest)
    | '"' :: rest => (glyphs? rest).map fun (gs, rest) => (.text gs, rest)
    | '-' :: rest => (numeral? true rest).map fun (n, rest) => (.number n, rest)
    | '[' :: rest =>
      match skipGap rest with
      | ']' :: rest => some (.array [], rest)
      | rest => (itemsAt? fuel rest).map fun (items, rest) => (.array items, rest)
    | '\x7b' :: rest =>
      match skipGap rest with
      | '\x7d' :: rest => some (.object [], rest)
      | rest => (membersAt? fuel rest).map fun (members, rest) => (.object members, rest)
    | rest => (numeral? false rest).map fun (n, rest) => (.number n, rest)

/-- The items of an array up to its end; there is at least one. -/
def itemsAt? : (fuel : Nat) → List Char → Option (List Document × List Char)
  | 0, _ => none
  | fuel + 1, cs => do
    let (item, rest) ← valueAt? fuel cs
    match skipGap rest with
    | ']' :: rest => return ([item], rest)
    | ',' :: rest =>
      let (items, rest) ← itemsAt? fuel rest
      return (item :: items, rest)
    | _ => none

/-- The members of an object up to its end; there is at least one. -/
def membersAt? : (fuel : Nat) → List Char → Option (List (List Glyph × Document) × List Char)
  | 0, _ => none
  | fuel + 1, cs =>
    match skipGap cs with
    | '"' :: rest => do
      let (key, rest) ← glyphs? rest
      match skipGap rest with
      | ':' :: rest =>
        let (value, rest) ← valueAt? fuel rest
        match skipGap rest with
        | '\x7d' :: rest => return ([(key, value)], rest)
        | ',' :: rest =>
          let (members, rest) ← membersAt? fuel rest
          return ((key, value) :: members, rest)
        | _ => none
      | _ => none
    | _ => none

end

/-- Read a JSON text: one value with nothing but blanks around it. Every second nested call is for
a shorter text, so twice the length of the text bounds the nesting. -/
def parse? (text : String) : Option Document :=
  let cs := text.toList
  match valueAt? (2 * cs.length + 2) cs with
  | some (d, rest) => if (skipGap rest).isEmpty then some d else none
  | none => none

end Document
end ReactiveView
