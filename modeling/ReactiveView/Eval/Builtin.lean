import ReactiveView.Eval.Error
import ReactiveView.Text.Blank
import ReactiveView.Text.Casing

/-!
# Built-in functions

The functions that every expression may call unless a variable of the same name hides them.
-/

namespace ReactiveView

/-- A built-in function. -/
inductive Builtin where
  /-- The length of a text, a list or a map. -/
  | len
  /-- The display text of a value. -/
  | str
  /-- Conversion to an integer. -/
  | int
  /-- Conversion to a double. -/
  | float
  /-- The upper case form of a text. -/
  | upper
  /-- The lower case form of a text. -/
  | lower
  /-- The integers from a start, before a stop, by a step. -/
  | range
  /-- The display texts of items with a separator between them. -/
  | join
  /-- The keys of a map. -/
  | keys
  /-- Whether a value is not null. -/
  | notNone
deriving DecidableEq

namespace Builtin

/-- The name a function is called by. -/
def name : Builtin → String
  | len => "len"
  | str => "str"
  | int => "int"
  | float => "float"
  | upper => "upper"
  | lower => "lower"
  | range => "range"
  | join => "join"
  | keys => "keys"
  | notNone => "not_none"

/-- All functions. -/
def all : List Builtin := [len, str, int, float, upper, lower, range, join, keys, notNone]

/-- The function of a name. -/
def ofName? (x : String) : Option Builtin := all.find? fun b => b.name = x

/-- How few and how many arguments a function takes. -/
def arity : Builtin → Nat × Nat
  | range => (1, 3)
  | join => (1, 2)
  | _ => (1, 1)

/-- An error about an argument. -/
def fault (b : Builtin) (f : ArgumentFault) : Except EvalCause Value :=
  .error (.invalidArgument b.name f)

/-- The number of items or characters of a value. -/
def length (v : Value) : Except EvalCause Value :=
  let ofNat (n : Nat) : Except EvalCause Value := .ok (.int (Int64.ofNat n))
  match v with
  | .str s => ofNat s.length
  | .list items => ofNat items.length
  | .map entries => ofNat entries.size
  | .null => ofNat 0
  | other => fault len (.noLength other.typeName)

/-- Conversion to an integer: a double is truncated, a text is read without the blanks around it,
and null is zero. -/
def toInt (v : Value) : Except EvalCause Value :=
  match v with
  | .int i => .ok (.int i)
  | .float x => .ok (.int (Binary64.truncate x))
  | .bool b => .ok (.int (if b then 1 else 0))
  | .str s =>
    match readInt64? (Text.trim s.toList) with
    | some i => .ok (.int i)
    | none => fault int (.invalidLiteral s)
  | .null => .ok (.int 0)
  | other => fault int (.noConversion other.typeName)

/-- Conversion to a double. -/
def toFloat (v : Value) : Except EvalCause Value :=
  match v with
  | .int i => .ok (.float i.toFloat)
  | .float x => .ok (.float x)
  | .str s =>
    match readFloat? (Text.trim s.toList) with
    | some x => .ok (.float x)
    | none => fault float (.invalidLiteral s)
  | .null => .ok (.float 0.0)
  | other => fault float (.noConversion other.typeName)

/-- An argument of `range`: an integer, an integral double or a truth value. -/
def bound (v : Value) : Except EvalCause Int64 :=
  match v with
  | .int i => .ok i
  | .float x =>
    if Binary64.isInteger x then .ok (Binary64.truncate x)
    else .error (.invalidArgument range.name (.notInteger v.typeName))
  | .bool b => .ok (if b then 1 else 0)
  | other => .error (.invalidArgument range.name (.notInteger other.typeName))

/-- Whether `i` lies strictly before `stop` in the direction of the step. -/
def isBefore (stop step i : Int64) : Bool := (0 < step && i < stop) || (step < 0 && stop < i)

/-- Count on from `i` by `step` as long as that is before `stop`, and put what is counted behind
`items`, where there is room for so many more. A count that leaves 64 bits has passed `stop`. -/
def countOn (stop step : Int64) (items : Array Value) (i : Int64) :
    (room : Nat) → Except EvalCause Value
  | 0 => if isBefore stop step i then fault range .tooManyItems else .ok (.list items.toList)
  | room + 1 =>
    if isBefore stop step i then
      let items := items.push (.int i)
      match int64? (i.toInt + step.toInt) with
      | some next => countOn stop step items next room
      | none => .ok (.list items.toList)
    else .ok (.list items.toList)

/-- The terms `start`, `start + step`, … before `stop`, unless they are too many. -/
def progression (start stop step : Int64) : Except EvalCause Value :=
  if step = 0 then fault range .zeroStep else countOn stop step #[] start maxSequence

/-- The display texts of the items of a value with `sep` between them. -/
def joined (v : Value) (sep : String) : Except EvalCause Value :=
  match v.items? with
  | some items => .ok (.str (String.intercalate sep (items.map Value.display)))
  | none => .error (.notIterable v.typeName)

/-- The keys of a map; null has none. -/
def keyList (v : Value) : Except EvalCause Value :=
  match v with
  | .map entries => .ok (.list (entries.keys.map .str))
  | .null => .ok (.list [])
  | other => fault keys (.notMap other.typeName)

/-- Call a function with a number of arguments that it takes. -/
def apply : Builtin → List Value → Except EvalCause Value
  | len, v :: _ => length v
  | str, v :: _ => .ok (.str v.display)
  | int, v :: _ => toInt v
  | float, v :: _ => toFloat v
  | upper, v :: _ => .ok (.str (Text.upper v.display))
  | lower, v :: _ => .ok (.str (Text.lower v.display))
  | range, [stop] => do progression 0 (← bound stop) 1
  | range, [start, stop] => do
    let start ← bound start
    progression start (← bound stop) 1
  | range, start :: stop :: step :: _ => do
    let start ← bound start
    let stop ← bound stop
    progression start stop (← bound step)
  | join, [v] => joined v ""
  | join, v :: sep :: _ => joined v sep.display
  | keys, v :: _ => keyList v
  | notNone, v :: _ => .ok (.bool !v.isNull)
  | b, [] => .error (.arity b.name b.arity.1 0)

/-- Call a function: the number of arguments is checked first. -/
def call (b : Builtin) (args : List Value) : Except EvalCause Value :=
  let (least, most) := b.arity
  if args.length < least then .error (.arity b.name least args.length)
  else if most < args.length then .error (.arity b.name most args.length)
  else b.apply args

end Builtin

/-- Whether a name is that of a built-in function. -/
def isBuiltin (name : String) : Bool := (Builtin.ofName? name).isSome

/-- Call a built-in function by name. -/
def callBuiltin (name : String) (args : List Value) : Except EvalCause Value :=
  match Builtin.ofName? name with
  | some b => b.call args
  | none => .error (.undefined name)

end ReactiveView
