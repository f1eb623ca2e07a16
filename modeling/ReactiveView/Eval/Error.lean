import ReactiveView.Value.Basic

/-!
# Evaluation errors

Why an expression has no value or a code block stops. An `EvalError` is a cause together with the
template line of the innermost statement that was being executed; `EvalError.atLine` attaches a line
to an error that has none, except to an interruption, which never carries one.
-/

namespace ReactiveView

/-- What is wrong with an argument of a built-in function or an intrinsic. -/
inductive ArgumentFault where
  /-- An integer was expected. -/
  | notInteger (type : String)
  /-- A map was expected. -/
  | notMap (type : String)
  /-- A node was expected. -/
  | notNode
  /-- The node does not exist any more. -/
  | deadNode
  /-- The value has no length. -/
  | noLength (type : String)
  /-- The text is no numeral. -/
  | invalidLiteral (text : String)
  /-- The value cannot be converted to a number. -/
  | noConversion (type : String)
  /-- A range cannot have steps of zero. -/
  | zeroStep
  /-- A range would have too many items. -/
  | tooManyItems
  /-- An operation of the host failed with a message. -/
  | host (message : String)
deriving DecidableEq

/-- The message of a fault. -/
def ArgumentFault.message : ArgumentFault → String
  | notInteger type => "expected an integer, got " ++ type
  | notMap type => "expected a map, got " ++ type
  | notNode => "expected a node"
  | deadNode => "node no longer exists"
  | noLength type => type ++ " has no length"
  | invalidLiteral text => "invalid literal '" ++ text ++ "'"
  | noConversion type => "cannot convert " ++ type
  | zeroStep => "step must not be zero"
  | tooManyItems => "too many items"
  | host message => message

/-- Why an evaluation failed. -/
inductive EvalCause where
  /-- A name has no value. -/
  | undefined (name : String)
  /-- An operator does not apply to values of these kinds. -/
  | typeMismatch (op : BinaryOp) (left right : String)
  /-- The negation of something that is no number. -/
  | badOperand (type : String)
  /-- A value that cannot be called was called. -/
  | notCallable (type : String)
  /-- A value has no such member. -/
  | noAttribute (type name : String)
  /-- A value has no items by index or key. -/
  | notSubscriptable (type : String)
  /-- A list or a text has no item at the index. -/
  | indexOutOfRange (index : Int64)
  /-- A value has no items to go through. -/
  | notIterable (type : String)
  /-- A quotient or remainder by zero. -/
  | divisionByZero
  /-- The result is no 64-bit integer, or a text is repeated too often. -/
  | overflow
  /-- A call has too few or too many arguments. -/
  | arity (name : String) (expected found : Nat)
  /-- An argument is not what it should be. -/
  | invalidArgument (name : String) (fault : ArgumentFault)
  /-- Calls are nested too deeply. -/
  | recursionLimit
  /-- The run was cut off. -/
  | interrupted
deriving DecidableEq

/-- The message of a cause. -/
def EvalCause.message : EvalCause → String
  | undefined name => "name '" ++ name ++ "' is not defined"
  | typeMismatch op left right =>
    "unsupported operand types for " ++ op.symbol ++ ": " ++ left ++ " and " ++ right
  | badOperand type => "bad operand type for -: " ++ type
  | notCallable type => "'" ++ type ++ "' is not callable"
  | noAttribute type name => type ++ " has no attribute '" ++ name ++ "'"
  | notSubscriptable type => type ++ " is not subscriptable"
  | indexOutOfRange index => "index " ++ displayInt index ++ " out of range"
  | notIterable type => type ++ " is not iterable"
  | divisionByZero => "division by zero"
  | overflow => "integer overflow"
  | arity name expected found =>
    name ++ "() takes " ++ toString expected ++ " argument(s), " ++ toString found ++ " given"
  | invalidArgument name fault => name ++ "(): " ++ fault.message
  | recursionLimit => "maximum call depth exceeded"
  | interrupted => "interrupted"

/-- The name by which a host tells a cause from others. -/
def EvalCause.name : EvalCause → String
  | undefined _ => "Undefined"
  | typeMismatch .. => "TypeMismatch"
  | badOperand _ => "BadOperand"
  | notCallable _ => "NotCallable"
  | noAttribute .. => "NoAttribute"
  | notSubscriptable _ => "NotSubscriptable"
  | indexOutOfRange _ => "IndexOutOfRange"
  | notIterable _ => "NotIterable"
  | divisionByZero => "DivisionByZero"
  | overflow => "Overflow"
  | arity .. => "Arity"
  | invalidArgument .. => "InvalidArgument"
  | recursionLimit => "RecursionLimit"
  | interrupted => "Interrupted"

/-- A failed evaluation. -/
structure EvalError where
  /-- Why it failed. -/
  cause : EvalCause
  /-- The template line of the statement that failed, if one was being executed. -/
  line : Option Nat := none
deriving DecidableEq

namespace EvalError

instance : Coe EvalCause EvalError := ⟨fun cause => ⟨cause, none⟩⟩

/-- Attach a line. The innermost line stays, and an interruption gets none. -/
def atLine (line : Nat) (e : EvalError) : EvalError :=
  if e.line.isSome ∨ e.cause = .interrupted then e else { e with line := some line }

/-- The message of an error, its line in front. -/
def message (e : EvalError) : String :=
  match e.line with
  | some line => "line " ++ toString line ++ ": " ++ e.cause.message
  | none => e.cause.message

/-- Whether the run was cut off. -/
def isInterruption (e : EvalError) : Bool := e.cause = .interrupted

/-- Only the first line counts. -/
theorem atLine_atLine (m n : Nat) (e : EvalError) :
    (e.atLine m).atLine n = e.atLine m := by
  unfold atLine
  by_cases h : e.line.isSome ∨ e.cause = .interrupted
  · simp [h]
  · simp [h]

end EvalError
end ReactiveView
