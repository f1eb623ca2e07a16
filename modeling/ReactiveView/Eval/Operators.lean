import ReactiveView.Eval.Error

/-!
# Operators

The operators of the language on values. Integer arithmetic fails beyond 64 bits instead of
wrapping; division always gives a double, and the remainder is never negative. A text may be
repeated, as long as the result is not too long.
-/

namespace ReactiveView

/-- The integer result of an operator, when it is in range. -/
def checkedInt (i : Int) : Except EvalCause Value :=
  match int64? i with
  | some n => .ok (.int n)
  | none => .error .overflow

namespace Value

/-- The magnitude of a number. -/
def number? : Value → Option Float
  | int i => some i.toFloat
  | float x => some x
  | _ => none

/-- Whether the value is a number equal to zero. -/
def isZero (v : Value) : Bool :=
  match v.number? with
  | some x => x == 0.0
  | none => false

/-- The error of an operator that does not apply. -/
def mismatch (op : BinaryOp) (left right : Value) : EvalCause :=
  .typeMismatch op left.typeName right.typeName

/-- An operator on doubles, for operands that are numbers. -/
def arithmetic (op : BinaryOp) (f : Float → Float → Float) (left right : Value) :
    Except EvalCause Value :=
  match left.number?, right.number? with
  | some x, some y => .ok (float (f x y))
  | _, _ => .error (mismatch op left right)

/-- The order of two values: integers and texts exactly, false before true, and other numbers by
magnitude. -/
def compare? : Value → Value → Option Ordering
  | int a, int b => some (if a < b then .lt else if a = b then .eq else .gt)
  | str a, str b => some (if a < b then .lt else if a = b then .eq else .gt)
  | bool a, bool b => some (compare a.toNat b.toNat)
  | left, right =>
    match left.number?, right.number? with
    | some x, some y => if x < y then some .lt else if x == y then some .eq
      else if y < x then some .gt else none
    | _, _ => none

/-- Whether `part` occurs in `whole`. -/
def occursIn (part : List Char) : (whole : List Char) → Bool
  | [] => part.isEmpty
  | c :: cs => part.isPrefixOf (c :: cs) || occursIn part cs

/-- Whether a list has an equal item, a map the key, or a text the part. -/
def containsValue (container needle : Value) : Except EvalCause Bool :=
  match container, needle with
  | list items, v => .ok (items.any fun item => item.same v)
  | map entries, str key => .ok (entries.contains key)
  | map _, _ => .ok false
  | str whole, str part => .ok (occursIn part.toList whole.toList)
  | null, _ => .ok false
  | _, _ => .error (mismatch .elem needle container)

/-- The position that an index means in a sequence of a given length; a negative one counts from the
end. -/
def position? (index : Int64) (length : Nat) : Option Nat :=
  let i := index.toInt
  let place := if i < 0 then (length : Int) + i else i
  if 0 ≤ place ∧ place < length then some place.toNat else none

/-- The item of a list or a text by index, or of a map by the text of the key. -/
def subscript (target index : Value) : Except EvalCause Value :=
  match target, index with
  | list items, int i =>
    match (position? i items.length).bind (items[·]?) with
    | some v => .ok v
    | none => .error (.indexOutOfRange i)
  | str s, int i =>
    let cs := s.toList
    match (position? i cs.length).bind (cs[·]?) with
    | some c => .ok (str c.toString)
    | none => .error (.indexOutOfRange i)
  | map entries, key => .ok ((entries.get? key.display).getD null)
  | other, _ => .error (.notSubscriptable other.typeName)

/-- A text repeated, when the result is not too long. -/
def repeated (s : String) (n : Int64) : Except EvalCause Value :=
  let count := n.toInt.toNat
  if s.isEmpty then .ok (str "")
  else if s.utf8ByteSize * count ≤ maxSequence then
    .ok (str (String.join (List.replicate count s)))
  else .error .overflow

/-- Apply an operator of one operand. -/
def applyUnary (op : UnaryOp) (v : Value) : Except EvalCause Value :=
  match op, v with
  | .not, v => .ok (bool !v.truthy)
  | .neg, int i => checkedInt (-i.toInt)
  | .neg, float x => .ok (float (-x))
  | .neg, other => .error (.badOperand other.typeName)

/-- The outcome of a comparison operator. -/
def ordered (op : BinaryOp) (holds : Ordering → Bool) (left right : Value) :
    Except EvalCause Value :=
  match compare? left right with
  | some o => .ok (bool (holds o))
  | none => .error (mismatch op left right)

/-- Sums of numbers, and concatenations. -/
def add (left right : Value) : Except EvalCause Value :=
  match left, right with
  | int a, int b => checkedInt (a.toInt + b.toInt)
  | str a, str b => .ok (str (a ++ b))
  | list a, list b => .ok (list (a ++ b))
  | _, _ => arithmetic .add (· + ·) left right

/-- Differences of numbers. -/
def sub (left right : Value) : Except EvalCause Value :=
  match left, right with
  | int a, int b => checkedInt (a.toInt - b.toInt)
  | _, _ => arithmetic .sub (· - ·) left right

/-- Products of numbers, and repetitions of texts. -/
def mul (left right : Value) : Except EvalCause Value :=
  match left, right with
  | int a, int b => checkedInt (a.toInt * b.toInt)
  | str s, int n => repeated s n
  | int n, str s => repeated s n
  | _, _ => arithmetic .mul (· * ·) left right

/-- Quotients, which are doubles always. -/
def div (left right : Value) : Except EvalCause Value :=
  if right.isZero then .error .divisionByZero else arithmetic .div (· / ·) left right

/-- Remainders, which are never negative. The least integer has no remainder by minus one. -/
def rem (left right : Value) : Except EvalCause Value :=
  match left, right with
  | int a, int b =>
    if b = 0 then .error .divisionByZero
    else if b = -1 ∧ a = Int64.minValue then .error .overflow
    else checkedInt (a.toInt % b.toInt)
  | _, _ =>
    if right.isZero then .error .divisionByZero
    else arithmetic .rem Binary64.remEuclid left right

/-- Apply an operator of two operands. -/
def applyBinary (op : BinaryOp) (left right : Value) : Except EvalCause Value :=
  match op with
  | .eq => .ok (bool (left.same right))
  | .notEq => .ok (bool !(left.same right))
  | .lt => ordered .lt (· == .lt) left right
  | .ltEq => ordered .ltEq (· != .gt) left right
  | .gt => ordered .gt (· == .gt) left right
  | .gtEq => ordered .gtEq (· != .lt) left right
  | .elem => (containsValue right left).map bool
  | .add => add left right
  | .sub => sub left right
  | .mul => mul left right
  | .div => div left right
  | .rem => rem left right

end Value
end ReactiveView
