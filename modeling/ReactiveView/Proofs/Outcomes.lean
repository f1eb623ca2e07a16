import ReactiveView.Proofs.Correspondence
import ReactiveView.Scope

/-!
# Outcomes of expressions

An expression that calls no function of a code block is evaluated over the variables of a scope alone
(`Scope.outcome?`). That is its outcome in the interpreter, which leaves the scope and looks up no other
names than those that stand in the expression (`Scope.eval_reads_of_outcome?`).
-/

namespace ReactiveView

/-- A scope as an environment that is only read. Whatever else an evaluation may ask for has no
outcome. -/
def Scope.still (s : Scope) : Env Option where
  lookup name := some (s.get? name)
  has _ := none
  assign _ _ := none
  this := some .null
  member _ _ := some none
  isIntrinsic _ := false
  callIntrinsic name _ := some (.error ⟨.undefined name, none⟩)
  interrupted := none
  freshSerial := none

/-- Call built-in functions; calling a function of a code block has no outcome. -/
def Scope.stillCall (s : Scope) : Interpreter.Caller Option :=
  Interpreter.callWith s.still fun _ _ => (none : Option (Except EvalError Value))

/-- The outcome of an expression over a scope, if it calls no function of a code block. -/
def Scope.outcome? (s : Scope) (e : Expr) : Option (Except EvalError Value) :=
  (Interpreter.evalWith s.still s.stillCall none e).run

/-- The outcomes of expressions in turn. -/
def Scope.outcomes? (s : Scope) (es : List Expr) : Option (Except EvalError (List Value)) :=
  (Interpreter.evalList s.still s.stillCall none es).run

namespace Scope

/-! ## What has an outcome -/

section

open Interpreter

/-- A name is looked up among the variables, then among the built-in functions. -/
theorem outcome?_name (s : Scope) (x : String) : s.outcome? (.name x) =
    match s.get? x with
    | some v => some (.ok v)
    | none => if isBuiltin x then some (.ok (.builtin x)) else some (.error ⟨.undefined x, none⟩) := by
  have hrun : s.outcome? (.name x) = ExceptT.bindCont (m := Option) (fun found => match found with
      | some v => pure v
      | none => if isBuiltin x || false then pure (.builtin x) else fail (.undefined x))
        (Except.ok (s.get? x)) := rfl
  rw [hrun]
  cases s.get? x with
  | some v => rfl
  | none =>
    change ExceptT.run (m := Option) (if isBuiltin x || false then _ else _) = _
    rw [Bool.or_false]
    split <;> rfl

/-- Taking a member has an outcome. -/
theorem isSome_memberOf (s : Scope) (v : Value) (name : String) :
    (memberOf s.still v name).run.isSome = true := by
  cases v <;> rfl

theorem isSome_lift (r : Except EvalCause Value) :
    (lift r : Eval Option Value).run.isSome = true := by
  cases r <;> rfl

/-- Evaluations that have outcomes have one together. -/
theorem isSome_bind {α β : Type} {x : Eval Option α} {f : α → Eval Option β}
    (hx : x.run.isSome = true) (hf : ∀ a, (f a).run.isSome = true) :
    (x >>= f).run.isSome = true := by
  obtain ⟨r, hr⟩ := Option.isSome_iff_exists.1 hx
  change (x.run.bind (ExceptT.bindCont f)).isSome = true
  rw [hr]
  cases r with
  | error err => rfl
  | ok a => exact hf a

end

/-! ## Runs -/

/-- What has happened to a run since an earlier moment: its scope is the same, and the names that were
looked up satisfy `reads`. -/
def Run.Reads (reads : String → Prop) (r r' : Run) : Prop :=
  r'.scope = r.scope ∧ ∃ new, r'.reads = new ++ r.reads ∧ ∀ x ∈ new, reads x

theorem Run.Reads.refl (reads : String → Prop) (r : Run) : r.Reads reads r :=
  ⟨rfl, [], rfl, List.forall_mem_nil _⟩

theorem Run.Reads.trans {reads : String → Prop} {r r' r'' : Run} (h : r.Reads reads r')
    (h' : r'.Reads reads r'') : r.Reads reads r'' := by
  obtain ⟨hscope, new, hnew, hreads⟩ := h
  obtain ⟨hscope', new', hnew', hreads'⟩ := h'
  refine ⟨hscope'.trans hscope, new' ++ new, ?_, List.forall_mem_append.2 ⟨hreads', hreads⟩⟩
  rw [hnew', hnew, List.append_assoc]

/-- Code that runs against a scope does what an outcome says. -/
def reading (s : Scope) (reads : String → Prop) : Correspondence (StateM Run) Option where
  rel x x' := ∀ a, x' = some a → ∀ r : Run, r.scope = s → ∃ r', x.run r = (a, r') ∧ r.Reads reads r'
  rel_pure a := by
    rintro b hb r -
    cases hb
    exact ⟨r, rfl, .refl reads r⟩
  rel_bind := by
    intro α β x x' f f' hx hf b hb r hr
    obtain ⟨a, ha, hb⟩ := Option.bind_eq_some_iff.1 hb
    obtain ⟨r₁, hrun, hr₁⟩ := hx a ha r hr
    obtain ⟨r₂, hrun', hr₂⟩ := hf a b hb r₁ (hr₁.1.trans hr)
    refine ⟨r₂, ?_, hr₁.trans hr₂⟩
    rw [StateT.run_bind, hrun]
    exact hrun'
  rel_map := by
    intro α β x x' f hx b hb r hr
    obtain ⟨a, ha, rfl⟩ := Option.map_eq_some_iff.1 hb
    obtain ⟨r₁, hrun, hr₁⟩ := hx a ha r hr
    refine ⟨r₁, ?_, hr₁⟩
    rw [StateT.run_map, hrun]
    rfl

/-- What expressions ask of a scope is what it says where it is only read. -/
theorem env_reading (s : Scope) (reads : String → Prop) :
    Scope.env.Looks (s.reading reads).simulation reads s.still where
  lookup name hname := by
    refine Correspondence.relEval_ask (C := s.reading reads) ?_
    rintro a ha r rfl
    cases ha
    exact ⟨_, rfl, rfl, [name], rfl, List.forall_mem_singleton.2 hname⟩
  this := by
    refine Correspondence.relEval_ask (C := s.reading reads) ?_
    rintro a ha r -
    cases ha
    exact ⟨r, rfl, .refl reads r⟩
  member target name := by
    refine Correspondence.relEval_ask (C := s.reading reads) ?_
    rintro a ha r -
    cases ha
    exact ⟨r, rfl, .refl reads r⟩
  isIntrinsic _ := rfl

/-- Where functions of code blocks are not called, values are called alike. -/
theorem callValue_reading (s : Scope) (reads : String → Prop) :
    Interpreter.CallersSimulated (s.reading reads).simulation (Interpreter.callValue Scope.env)
      s.stillCall := by
  refine Interpreter.callWith_simulated (fun name args => ?_) fun f args a ha => nomatch ha
  rintro a ha r -
  cases ha
  exact ⟨r, rfl, .refl reads r⟩

/-- The outcome of an expression is what the interpreter gives; no name is looked up that does not stand in
the expression. -/
theorem eval_reads_of_outcome? {s : Scope} {e : Expr} {a : Except EvalError Value}
    (h : s.outcome? e = some a) {r : Run} (hr : r.scope = s) :
    ∃ r', (Interpreter.eval Scope.env e).run.run r = (a, r') ∧ r.Reads (· ∈ e.names) r' :=
  Interpreter.evalWith_simulated (s.env_reading _) (s.callValue_reading _) none e (fun _ h => h)
    a h r hr

theorem eval_of_outcome? {s : Scope} {e : Expr} {a : Except EvalError Value}
    (h : s.outcome? e = some a) {r : Run} (hr : r.scope = s) :
    ∃ r', (Interpreter.eval Scope.env e).run.run r = (a, r') ∧ r'.scope = s := by
  obtain ⟨r', hrun, hscope, -⟩ := eval_reads_of_outcome? h hr
  exact ⟨r', hrun, hscope.trans hr⟩

end Scope
end ReactiveView
