import ReactiveView.Proofs.Simulation

/-!
# Corresponding hosts

The interpreter runs against an environment in the monad of its host. Two hosts are compared by a
relation between their computations that sequencing respects (`Correspondence`). It is a relation between
their evaluations as well (`Correspondence.simulation`); so when the operations of the environments are
related, so is everything that the interpreter does with them (`eval_related`, `exec_related`,
`callValue_related`).

The two hosts may be the same one in two states. A property of the computations of a single host is
the relation that looks at one side only.
-/

namespace ReactiveView

/-- A relation between the computations of two hosts that sequencing respects. Related computations
have equal results as far as what follows them can tell. -/
structure Correspondence (m m' : Type → Type) [Monad m] [Monad m'] where
  /-- The relation. -/
  rel : {α : Type} → m α → m' α → Prop
  /-- Results without an effect are related. -/
  rel_pure : ∀ {α : Type} (a : α), rel (pure a) (pure a)
  /-- So are related computations followed by related ones. -/
  rel_bind : ∀ {α β : Type} {x : m α} {x' : m' α} {f : α → m β} {f' : α → m' β},
    rel x x' → (∀ a, rel (f a) (f' a)) → rel (x >>= f) (x' >>= f')
  /-- So are the images of related computations. -/
  rel_map : ∀ {α β : Type} {x : m α} {x' : m' α} (f : α → β), rel x x' → rel (f <$> x) (f <$> x')

namespace Correspondence

variable {m m' : Type → Type} [Monad m] [Monad m'] (C : Correspondence m m') {α β : Type}

/-- Two evaluations are related as computations of a value or an error. -/
def relEval (x : Eval m α) (x' : Eval m' α) : Prop := C.rel x.run x'.run

variable {C}

/-- Evaluations follow each other like computations. -/
theorem relEval_bind {x : Eval m α} {x' : Eval m' α} {f : α → Eval m β} {f' : α → Eval m' β}
    (hx : C.relEval x x') (hf : ∀ a, C.relEval (f a) (f' a)) :
    C.relEval (x >>= f) (x' >>= f') := by
  refine C.rel_bind hx fun r => ?_
  cases r with
  | ok a => exact hf a
  | error err => exact C.rel_pure _

/-- Questions to related environments are related evaluations. -/
theorem relEval_ask {x : m α} {x' : m' α} (h : C.rel x x') :
    C.relEval (Interpreter.ask x) (Interpreter.ask x') := C.rel_map Except.ok h

/-- Related evaluations stay related when a line is attached to their errors. -/
theorem relEval_withLine (line : Nat) {x : Eval m α} {x' : Eval m' α} (h : C.relEval x x') :
    C.relEval (Interpreter.withLine line x) (Interpreter.withLine line x') := by
  unfold relEval at h ⊢
  simp only [Interpreter.withLine, tryCatch, tryCatchThe, MonadExceptOf.tryCatch,
    ExceptT.tryCatch, ExceptT.mk, ExceptT.run] at h ⊢
  refine C.rel_bind h fun r => ?_
  cases r with
  | ok a => exact C.rel_pure _
  | error err => exact C.rel_pure _

/-- A relation between computations is one between evaluations. -/
def simulation (C : Correspondence m m') : Simulation m m' where
  rel := C.relEval
  rel_pure a := C.rel_pure (Except.ok a)
  rel_throw err := C.rel_pure (Except.error err)
  rel_bind := relEval_bind
  rel_withLine := relEval_withLine

end Correspondence

section

variable {m m' : Type → Type} [Monad m] [Monad m']

/-- Two environments whose operations are related. -/
structure Env.Related (C : Correspondence m m') (env : Env m) (env' : Env m') : Prop where
  /-- Looking up a name. -/
  lookup : ∀ name, C.rel (env.lookup name) (env'.lookup name)
  /-- Asking for a variable. -/
  has : ∀ name, C.rel (env.has name) (env'.has name)
  /-- Writing a variable. -/
  assign : ∀ name v, C.rel (env.assign name v) (env'.assign name v)
  /-- The node whose code is run. -/
  this : C.rel env.this env'.this
  /-- The member of a value. -/
  member : ∀ target name, C.rel (env.member target name) (env'.member target name)
  /-- Which intrinsics there are. -/
  isIntrinsic : ∀ name, env.isIntrinsic name = env'.isIntrinsic name
  /-- Calling an intrinsic. -/
  callIntrinsic : ∀ name args, C.rel (env.callIntrinsic name args) (env'.callIntrinsic name args)
  /-- Asking whether to stop. -/
  interrupted : C.rel env.interrupted env'.interrupted
  /-- Numbering a function. -/
  freshSerial : C.rel env.freshSerial env'.freshSerial

variable {C : Correspondence m m'} {env : Env m} {env' : Env m'}

open Correspondence

/-- What code asks of two environments is related when their operations are. -/
theorem Env.Related.simulated (h : env.Related C env') : env.Simulated C.simulation env' where
  looks := {
    lookup name _ := relEval_ask (h.lookup name)
    this := relEval_ask h.this
    member target name := relEval_ask (h.member target name)
    isIntrinsic := h.isIntrinsic }
  has name := relEval_ask (h.has name)
  assign name v := relEval_ask (h.assign name v)
  callIntrinsic := h.callIntrinsic
  poll := by
    refine relEval_bind (relEval_ask h.interrupted) fun stop => ?_
    cases stop
    · exact C.simulation.rel_pure ()
    · exact C.simulation.rel_throw _
  freshSerial := relEval_ask h.freshSerial

end

namespace Interpreter

variable {m m' : Type → Type} [Monad m] [Monad m'] {C : Correspondence m m'} {env : Env m} {env' : Env m'}

/-- Calling a value within the limit of nested calls. -/
theorem callValue_related (h : env.Related C env') (f : Value) (args : List Value) :
    C.relEval (callValue env f args) (callValue env' f args) :=
  callValue_simulated h.simulated f args

/-- Evaluating an expression outside of functions. -/
theorem eval_related (h : env.Related C env') (e : Expr) :
    C.relEval (eval env e) (eval env' e) := eval_simulated h.simulated e

/-- Running a code block. -/
theorem exec_related (h : env.Related C env') (lineOffset : Nat) (stmts : List Stmt) :
    C.relEval (exec env lineOffset stmts) (exec env' lineOffset stmts) :=
  exec_simulated h.simulated lineOffset stmts

end Interpreter
end ReactiveView
