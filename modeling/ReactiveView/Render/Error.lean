import ReactiveView.Eval.Error
import ReactiveView.Tree.Arena

/-!
# Errors and diagnostics

An operation of the engine fails with an `EngineError`. Most problems do not make it fail: they are
recorded as a `Diagnostic`, and rendering goes on.
-/

namespace ReactiveView

/-- Why an operation failed. -/
inductive EngineError where
  /-- There is no such component. -/
  | componentNotFound (name : String)
  /-- The initial hook of a component refused or failed. -/
  | initFailed (context : String)
  /-- There is no such node. -/
  | nodeNotFound (id : NodeId)
  /-- The node is no component instance. -/
  | notAContext (id : NodeId)
  /-- There is no such function. -/
  | hookNotFound (context hook : String)
  /-- The operation was cut off. -/
  | cancelled
  /-- Code failed. -/
  | eval (e : EvalError)
  /-- Updates went on causing updates. -/
  | updateDepth (rounds : Nat)
deriving DecidableEq

/-- The message of an error. -/
def EngineError.message : EngineError → String
  | componentNotFound name => "component '" ++ name ++ "' not found"
  | initFailed context => "init of '" ++ context ++ "' failed"
  | nodeNotFound id => "node " ++ toString id.oid.toNat ++ " does not exist"
  | notAContext id => "node " ++ toString id.oid.toNat ++ " is not a context"
  | hookNotFound context hook => "'" ++ hook ++ "' is not defined in '" ++ context ++ "'"
  | cancelled => "cancelled"
  | eval e => e.message
  | updateDepth rounds => "update depth limit of " ++ toString rounds ++ " exceeded"

/-- The name by which a host tells an error from others; that of failed code is the name of the
cause. -/
def EngineError.name : EngineError → String
  | componentNotFound _ => "ComponentNotFound"
  | initFailed _ => "InitFailed"
  | nodeNotFound _ => "NodeNotFound"
  | notAContext _ => "NotAContext"
  | hookNotFound _ _ => "HookNotFound"
  | cancelled => "Cancelled"
  | eval e => e.cause.name
  | updateDepth _ => "UpdateDepth"

/-- A problem that rendering went on after. -/
structure Diagnostic where
  /-- The name of the component in which it was met. -/
  context : String
  /-- The node at which it was met. -/
  node : Option NodeId
  /-- What the problem is. -/
  message : String
  /-- The template line, if it is known. -/
  line : Option Nat
deriving DecidableEq

/-- The text of a diagnostic: where it was met, and what it is. -/
def Diagnostic.text (d : Diagnostic) : String :=
  match d.line with
  | none => d.context ++ ": " ++ d.message
  | some line => d.context ++ ":" ++ toString line ++ ": " ++ d.message

end ReactiveView
