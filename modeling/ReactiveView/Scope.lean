import ReactiveView.Cancel
import ReactiveView.Eval.Interpreter

/-!
# Scopes

The variables of one component instance, in the order in which they were defined. `Scope.write?` is
the write that matters for reactivity: a value equal to the present one changes nothing.

A scope is also the simplest environment of the interpreter (`Scope.env`). Its state records the
names that were looked up, and carries a cancellation token.
-/

namespace ReactiveView

/-- Variables in the order of their definition. -/
abbrev Scope := OrderedMap String Value

namespace Scope

/-- Write a variable; nothing is written when the present value is equal to the new one. -/
def write? (scope : Scope) (name : String) (v : Value) : Option Scope :=
  match scope.get? name with
  | some old => if old.same v then none else some (scope.insert name v)
  | none => some (scope.insert name v)

/-- Write a variable unless its value is equal to the new one. -/
def write (scope : Scope) (name : String) (v : Value) : Scope := (scope.write? name v).getD scope

/-- The variables as a map value. -/
def toValue (scope : Scope) : Value := .map scope

/-- Whether two scopes define the same variables with equal values, in any order. -/
def same (a b : Scope) : Bool := a.sameBy Value.same b

/-- The state of code that runs against a scope. -/
structure Run where
  /-- The variables. -/
  scope : Scope
  /-- The number of functions defined so far. -/
  serial : Nat := 0
  /-- When the run is cut off. -/
  cancel : Cancel := {}
  /-- The names that were looked up, latest first. -/
  reads : List String := []

/-- A scope as an environment: there are no nodes and no intrinsics. -/
def env : Env (StateM Run) where
  lookup name := do
    modify fun r => { r with reads := name :: r.reads }
    return (← get).scope.get? name
  has name := do return (← get).scope.contains name
  assign name v := modify fun r => { r with scope := r.scope.write name v }
  this := return .null
  member _ _ := return none
  isIntrinsic _ := false
  callIntrinsic name _ := return .error ⟨.undefined name, none⟩
  interrupted := do
    let r ← get
    let (stop, cancel) := r.cancel.poll
    set { r with cancel := cancel }
    return stop
  freshSerial := do
    let r ← get
    set { r with serial := r.serial + 1 }
    return r.serial

end Scope
end ReactiveView
