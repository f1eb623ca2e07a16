import ReactiveView.Proofs.Correspondence
import ReactiveView.Proofs.Selective.Values
import ReactiveView.Render.Evaluation

/-!
# What expressions read

Expressions that call nothing see the rendered tree as variables only (`Vars`). Such an expression is
evaluated without an engine: `Vars.env` supplies the variables and records which of them are looked
up, and has no outcome where an evaluation would ask for anything else. An expression that is
readable always has an outcome there (`Vars.run_eq`): a value, which is inert if the variables are, or
an error that is no interruption. It reads no name that does not occur in the expression.

The outcome depends on nothing but the variables that were read (`Vars.run_congr`). That is what
makes it safe to evaluate an expression again only when one of these was written.
-/

namespace ReactiveView

/-! ## Variables -/

/-- What expressions see: values by their names. -/
abbrev Vars := String → Option Value

namespace Vars

/-- The variables of a scope. The name `forloop` is left to loops. -/
def ofScope (scope : Scope) : Vars := fun x => if x = "forloop" then none else scope.get? x

/-- Variables with one name bound again. The name `forloop` is left to loops. -/
def bind (ρ : Vars) (name : String) (v : Value) : Vars := fun x =>
  if x = name ∧ x ≠ "forloop" then some v else ρ x

/-- All values are inert. -/
def Inert (ρ : Vars) : Prop := ∀ ⦃x v⦄, ρ x = some v → v.inert = true

/-- Binding an inert value keeps variables inert. -/
theorem Inert.bind {ρ : Vars} (h : ρ.Inert) (name : String) {v : Value} (hv : v.inert = true) :
    (ρ.bind name v).Inert := by
  intro x w hw
  unfold Vars.bind at hw
  split at hw
  · rwa [← Option.some.inj hw]
  · exact h hw

/-- The variables of a scope with inert values are inert. -/
theorem inert_ofScope {scope : Scope} (h : ∀ x v, scope.get? x = some v → v.inert = true) :
    (ofScope scope).Inert := by
  intro x v hv
  unfold ofScope at hv
  split at hv
  · cases hv
  · exact h x v hv

end Vars

/-! ## Readable expressions -/

/-- Whether a name is an ordinary variable: neither private to code nor supplied by the engine. -/
def isPlainName (name : String) : Bool :=
  isTrackedKey name && name != "refs" && name != "forloop"

namespace Expr

mutual

/-- Whether an expression contains neither a call nor a reference to its node. -/
def callFree : Expr → Bool
  | literal _ | name _ => true
  | this | call _ _ => false
  | member object _ => object.callFree
  | index object key => object.callFree && key.callFree
  | list items => callFreeList items
  | unary _ operand => operand.callFree
  | binary _ left right => left.callFree && right.callFree
  | logical _ left right => left.callFree && right.callFree
  | cond condition yes no => condition.callFree && yes.callFree && no.callFree
  | format parts => callFreeParts parts

/-- Whether no expression of a list contains a call or a reference to its node. -/
def callFreeList : List Expr → Bool
  | [] => true
  | e :: es => e.callFree && callFreeList es

/-- Whether no substitution of a format string contains a call or a reference to its node. -/
def callFreeParts : List FormatPart → Bool
  | [] => true
  | .text _ :: parts => callFreeParts parts
  | .expr e :: parts => e.callFree && callFreeParts parts

end

/-- Whether an expression asks for nothing but ordinary variables. -/
def readable (e : Expr) : Bool := e.callFree && e.names.all isPlainName

end Expr

/-! ## Evaluation over variables -/

/-- A computation that records the names that it looks up, and that may have no outcome. -/
abbrev Reading := StateT (List String) Option

/-- Variables as an environment. Whatever else an evaluation may ask for has no outcome. -/
def Vars.env (ρ : Vars) : Env Reading where
  lookup name := fun log => if isPlainName name then some (ρ name, log ++ [name]) else none
  has _ := fun _ => none
  assign _ _ := fun _ => none
  this := fun _ => none
  member target _ := fun log => if target.asNode?.isSome then none else some (none, log)
  isIntrinsic name := Intrinsic.names.contains name
  callIntrinsic _ _ := fun _ => none
  interrupted := fun _ => none
  freshSerial := fun _ => none

/-- The outcome of an expression over variables, and what it has read. -/
def Vars.run (ρ : Vars) (e : Expr) : Option (Except EvalError Value × List String) :=
  (Interpreter.eval ρ.env e).run.run []

/-- The value that is shown for an expression: null if the evaluation fails. -/
def Vars.value (ρ : Vars) (e : Expr) : Value :=
  match ρ.run e with
  | some (.ok v, _) => v
  | _ => .null

/-- The names that the evaluation of an expression looks up, in order. -/
def Vars.reads (ρ : Vars) (e : Expr) : List String := ((ρ.run e).map (·.2)).getD []

/-! ## There is an outcome -/

/-- An evaluation has an outcome, with an error that is no interruption or a result of a kind, and
reads certain names at most. -/
def Eval.Ends {α : Type} (names : List String) (good : α → Prop) (x : Eval Reading α) : Prop :=
  ∀ log, ∃ r new, x.run log = some (r, log ++ new) ∧ (∀ n ∈ new, n ∈ names) ∧
    match r with
    | .ok a => good a
    | .error err => err.isInterruption = false

namespace Eval.Ends

variable {α β : Type} {names : List String} {good : α → Prop} {good' : β → Prop}

/-- A result. -/
theorem ok {a : α} (h : good a) : Eval.Ends names good (pure a) := fun log =>
  ⟨.ok a, [], by rw [List.append_nil]; rfl, fun _ hn => absurd hn List.not_mem_nil, h⟩

/-- A failure. -/
theorem fail {cause : EvalCause} (h : cause ≠ .interrupted) :
    Eval.Ends names good (Interpreter.fail cause) := fun log =>
  ⟨.error ⟨cause, none⟩, [], by rw [List.append_nil]; rfl, fun _ hn => absurd hn List.not_mem_nil,
    decide_eq_false h⟩

/-- One evaluation after another. -/
theorem bind {x : Eval Reading α} {f : α → Eval Reading β} (hx : x.Ends names good)
    (hf : ∀ a, good a → (f a).Ends names good') : Eval.Ends names good' (x >>= f) := by
  intro log
  obtain ⟨r, new, hrun, hnew, hr⟩ := hx log
  have hbind : (x >>= f).run log =
      (x.run log).bind fun p => ExceptT.bindCont f p.1 p.2 := rfl
  rw [hrun, Option.bind_some] at hbind
  cases r with
  | error err => exact ⟨.error err, new, hbind, hnew, hr⟩
  | ok a =>
    obtain ⟨r, new', hrun', hnew', hr'⟩ := hf a hr (log ++ new)
    refine ⟨r, new ++ new', ?_, fun n hn => (List.mem_append.1 hn).elim (hnew n) (hnew' n), hr'⟩
    rw [hbind, ← List.append_assoc]
    exact hrun'

/-- The outcome of an operator. -/
theorem lift {r : Except EvalCause Value} (h : Value.Sane r) :
    Eval.Ends names (·.inert = true) (Interpreter.lift r) := by
  cases r with
  | ok v => exact ok h
  | error cause => exact fail h

/-- A question to the environment. -/
theorem ask {x : Reading α} {a : α} {new : List String} (hx : ∀ log, x log = some (a, log ++ new))
    (hnew : ∀ n ∈ new, n ∈ names) (h : good a) : Eval.Ends names good (Interpreter.ask x) := by
  intro log
  refine ⟨.ok a, new, ?_, hnew, h⟩
  have hrun : (Interpreter.ask x : Eval Reading α).run log =
      (x log).bind fun p => some (Except.ok p.1, p.2) := rfl
  rw [hrun, hx]
  rfl

end Eval.Ends

section

open Interpreter

variable {ρ : Vars} {names : List String}

/-- Looking a name up. -/
theorem lookupName_ends (hρ : ρ.Inert) {x : String} (hplain : isPlainName x = true)
    (hx : x ∈ names) : Eval.Ends names (·.inert = true) (lookupName ρ.env none x) := by
  have hlookup : ∀ log, ρ.env.lookup x log = some (ρ x, log ++ [x]) := fun log => if_pos hplain
  have hread : ∀ n ∈ [x], n ∈ names := fun n hn => by rwa [List.mem_singleton.1 hn]
  have hfound : Eval.Ends names (fun found : Option Value => ∀ v, found = some v → v.inert = true)
      (ask (ρ.env.lookup x)) := .ask hlookup hread fun v hv => hρ hv
  refine hfound.bind fun found hfound => ?_
  cases found with
  | some v => exact .ok (hfound v rfl)
  | none =>
    dsimp only
    split
    · exact .ok rfl
    · exact .fail EvalCause.noConfusion

/-- Taking a member of an inert value. -/
theorem memberOf_ends {target : Value} (htarget : target.inert = true) (field : String) :
    Eval.Ends names (·.inert = true) (memberOf ρ.env target field) := by
  unfold memberOf
  split
  · exact .ok (Value.inert_getD htarget field)
  · -- an inert value is no node, and what is no map has no members
    have hnode : target.asNode?.isSome = false := by
      cases target with
      | node oid => cases htarget
      | _ => rfl
    have hmember : ∀ log, ρ.env.member target field log = some (none, log ++ []) := fun log => by
      rw [List.append_nil]
      exact if_neg (by simp [hnode])
    have hfound : Eval.Ends names (· = none) (ask (ρ.env.member target field)) :=
      .ask hmember (fun _ hn => absurd hn List.not_mem_nil) rfl
    refine hfound.bind fun found hfound => ?_
    subst hfound
    exact .fail EvalCause.noConfusion

mutual

/-- A readable expression has an outcome. -/
theorem evalWith_ends (hρ : ρ.Inert) (call : Caller Reading) : ∀ e : Expr, e.callFree = true →
    (∀ x ∈ e.names, isPlainName x = true ∧ x ∈ names) →
    Eval.Ends names (·.inert = true) (evalWith ρ.env call none e)
  | .literal l, _, _ => .ok (Value.inert_literal l)
  | .name x, _, hnames =>
    have hx := hnames x (List.mem_singleton.2 rfl)
    lookupName_ends hρ hx.1 hx.2
  | .member object field, hfree, hnames =>
    .bind (evalWith_ends hρ call object hfree hnames) fun _ hv => memberOf_ends hv field
  | .index object key, hfree, hnames => by
    obtain ⟨hobject, hkey⟩ := Bool.and_eq_true_iff.1 hfree
    refine .bind (evalWith_ends hρ call object hobject fun x hx =>
      hnames x (List.mem_append_left _ hx)) fun _ hv => ?_
    refine .bind (evalWith_ends hρ call key hkey fun x hx =>
      hnames x (List.mem_append_right _ hx)) fun k _ => ?_
    exact .lift (.subscript hv k)
  | .list items, hfree, hnames =>
    .bind (evalList_ends hρ call items hfree hnames) fun vs hvs =>
      .ok (by simpa [Value.inert] using Value.inertItems_iff.2 hvs)
  | .unary op operand, hfree, hnames =>
    .bind (evalWith_ends hρ call operand hfree hnames) fun v _ => .lift (.applyUnary op v)
  | .binary op left right, hfree, hnames => by
    obtain ⟨hleft, hright⟩ := Bool.and_eq_true_iff.1 hfree
    refine .bind (evalWith_ends hρ call left hleft fun x hx =>
      hnames x (List.mem_append_left _ hx)) fun _ hv => ?_
    refine .bind (evalWith_ends hρ call right hright fun x hx =>
      hnames x (List.mem_append_right _ hx)) fun _ hw => ?_
    exact .lift (.applyBinary op hv hw)
  | .logical op left right, hfree, hnames => by
    obtain ⟨hleft, hright⟩ := Bool.and_eq_true_iff.1 hfree
    -- either the left value decides, or the right operand is read too
    have hr := evalWith_ends hρ call right hright fun x hx =>
      hnames x (List.mem_append_right _ hx)
    refine .bind (evalWith_ends hρ call left hleft fun x hx =>
      hnames x (List.mem_append_left _ hx)) fun v hv => ?_
    cases op <;> cases v.truthy
    · exact .ok hv
    · exact hr
    · exact hr
    · exact .ok hv
  | .cond condition yes no, hfree, hnames => by
    obtain ⟨hfree, hno⟩ := Bool.and_eq_true_iff.1 hfree
    obtain ⟨hcondition, hyes⟩ := Bool.and_eq_true_iff.1 hfree
    refine .bind (evalWith_ends hρ call condition hcondition fun x hx =>
      hnames x (List.mem_append_left _ (List.mem_append_left _ hx))) fun v _ => ?_
    cases v.truthy
    · exact evalWith_ends hρ call no hno fun x hx => hnames x (List.mem_append_right _ hx)
    · exact evalWith_ends hρ call yes hyes fun x hx =>
        hnames x (List.mem_append_left _ (List.mem_append_right _ hx))
  | .format parts, hfree, hnames =>
    .bind (evalParts_ends hρ call "" parts hfree hnames) fun _ _ => .ok rfl
  | .this, hfree, _ => by cases hfree
  | .call _ _, hfree, _ => by cases hfree
termination_by structural e => e

/-- So have readable expressions in turn. -/
theorem evalList_ends (hρ : ρ.Inert) (call : Caller Reading) : ∀ es : List Expr,
    Expr.callFreeList es = true →
    (∀ x ∈ Expr.namesOfList es, isPlainName x = true ∧ x ∈ names) →
    Eval.Ends names (fun vs => ∀ v ∈ vs, v.inert = true) (evalList ρ.env call none es)
  | [], _, _ => .ok fun _ hv => absurd hv List.not_mem_nil
  | e :: es, hfree, hnames => by
    obtain ⟨he, hes⟩ := Bool.and_eq_true_iff.1 hfree
    refine .bind (evalWith_ends hρ call e he fun x hx =>
      hnames x (List.mem_append_left _ hx)) fun v hv => ?_
    refine .bind (evalList_ends hρ call es hes fun x hx =>
      hnames x (List.mem_append_right _ hx)) fun vs hvs => ?_
    exact .ok (List.forall_mem_cons.2 ⟨hv, hvs⟩)
termination_by structural es => es

/-- So have the substitutions of a format string. -/
theorem evalParts_ends (hρ : ρ.Inert) (call : Caller Reading) : ∀ (out : String)
    (parts : List FormatPart), Expr.callFreeParts parts = true →
    (∀ x ∈ Expr.namesOfParts parts, isPlainName x = true ∧ x ∈ names) →
    Eval.Ends names (fun _ => True) (evalParts ρ.env call none out parts)
  | _, [], _, _ => .ok trivial
  | out, .text s :: parts, hfree, hnames => evalParts_ends hρ call (out ++ s) parts hfree hnames
  | out, .expr e :: parts, hfree, hnames => by
    obtain ⟨he, hparts⟩ := Bool.and_eq_true_iff.1 hfree
    refine .bind (evalWith_ends hρ call e he fun x hx =>
      hnames x (List.mem_append_left _ hx)) fun v _ => ?_
    exact evalParts_ends hρ call (out ++ v.display) parts hparts fun x hx =>
      hnames x (List.mem_append_right _ hx)
termination_by structural _ parts => parts

end

end

namespace Vars

variable {ρ ρ' : Vars} {e : Expr}

/-- The outcome of a readable expression: its value, and null for an error, which is no
interruption. -/
theorem run_eq (hρ : ρ.Inert) (he : e.readable = true) : ∃ r, ρ.run e = some (r, ρ.reads e) ∧
    (∀ v, r = .ok v → v = ρ.value e) ∧
    (∀ err, r = .error err → err.isInterruption = false ∧ ρ.value e = .null) ∧
    (ρ.value e).inert = true ∧ ∀ x ∈ ρ.reads e, x ∈ e.names ∧ isPlainName x = true := by
  obtain ⟨hfree, hnames⟩ := Bool.and_eq_true_iff.1 he
  rw [List.all_eq_true] at hnames
  have hplain : ∀ x ∈ e.names, isPlainName x = true ∧ x ∈ e.names := fun x hx => ⟨hnames x hx, hx⟩
  obtain ⟨r, new, hrun, hnew, hr⟩ := evalWith_ends hρ (Interpreter.callValue ρ.env) e hfree hplain []
  have hrun : ρ.run e = some (r, new) := hrun
  have hreads : ρ.reads e = new := by rw [reads, hrun]; rfl
  refine ⟨r, by rw [hreads, hrun], ?_, ?_, ?_, ?_⟩
  · rintro v rfl
    rw [value, hrun]
  · rintro err rfl
    exact ⟨hr, by rw [value, hrun]⟩
  · unfold value
    rw [hrun]
    cases r with
    | ok v => exact hr
    | error err => rfl
  · intro x hx
    rw [hreads] at hx
    exact ⟨hnew x hx, hnames x (hnew x hx)⟩

/-- The value of a readable expression is inert. -/
theorem inert_value (hρ : ρ.Inert) (he : e.readable = true) : (ρ.value e).inert = true := by
  obtain ⟨r, -, -, -, h, -⟩ := run_eq hρ he
  exact h

/-! ## What outcomes depend on -/

/-- Computations over two sets of variables: the second one does what the first one does if the
variables agree on what the first one reads. -/
def agreeing (ρ ρ' : Vars) : Correspondence Reading Reading where
  rel x x' := ∀ log a log', x log = some (a, log') → (∀ n ∈ log, n ∈ log') ∧
    ((∀ n ∈ log', ρ n = ρ' n) → x' log = some (a, log'))
  rel_pure a log b log' h := by
    cases h
    exact ⟨fun _ hn => hn, fun _ => rfl⟩
  rel_bind := by
    intro α β x x' f f' hx hf log b log' h
    obtain ⟨⟨a, log₁⟩, hxa, hfb⟩ := Option.bind_eq_some_iff.1 h
    obtain ⟨hsub, hx'⟩ := hx log a log₁ hxa
    -- what the first part has read is in the log of the whole, so the variables agree on it
    obtain ⟨hsub', hf'⟩ := hf a log₁ b log' hfb
    refine ⟨fun n hn => hsub' n (hsub n hn), fun hagree => ?_⟩
    exact Option.bind_eq_some_iff.2
      ⟨(a, log₁), hx' fun n hn => hagree n (hsub' n hn), hf' hagree⟩
  rel_map := by
    intro α β x x' f hx log b log' h
    obtain ⟨⟨a, log₁⟩, hxa, hb⟩ := Option.bind_eq_some_iff.1 h
    cases hb
    obtain ⟨hsub, hx'⟩ := hx log a log' hxa
    exact ⟨hsub, fun hagree => Option.bind_eq_some_iff.2 ⟨(a, log'), hx' hagree, rfl⟩⟩

/-- The environments of two sets of variables. -/
theorem env_agreeing (ρ ρ' : Vars) : ρ.env.Related (agreeing ρ ρ') ρ'.env where
  lookup name log a log' h := by
    simp only [env] at h ⊢
    split at h
    · cases h
      refine ⟨fun n hn => List.mem_append_left _ hn, fun hagree => ?_⟩
      rw [hagree name (List.mem_append_right _ (List.mem_singleton.2 rfl))]
      exact if_pos ‹_›
    · cases h
  has _ _ _ _ h := by cases h
  assign _ _ _ _ _ h := by cases h
  this _ _ _ h := by cases h
  member target name log a log' h := by
    simp only [env] at h ⊢
    split at h
    · cases h
    · cases h
      exact ⟨fun _ hn => hn, fun _ => if_neg ‹_›⟩
  isIntrinsic _ := rfl
  callIntrinsic _ _ _ _ _ h := by cases h
  interrupted _ _ _ h := by cases h
  freshSerial _ _ _ h := by cases h

/-- The outcome of an expression depends on the variables that it reads only. -/
theorem run_congr (hρ : ρ.Inert) (he : e.readable = true) (h : ∀ x ∈ ρ.reads e, ρ x = ρ' x) :
    ρ'.run e = ρ.run e := by
  obtain ⟨r, hrun, -⟩ := run_eq hρ he
  rw [hrun]
  exact (Interpreter.eval_related (env_agreeing ρ ρ') e [] r _ hrun).2 h

/-- So does its value. -/
theorem value_congr (hρ : ρ.Inert) (he : e.readable = true) (h : ∀ x ∈ ρ.reads e, ρ x = ρ' x) :
    ρ'.value e = ρ.value e := by
  unfold value
  rw [run_congr hρ he h]

/-- So does what it reads. -/
theorem reads_congr (hρ : ρ.Inert) (he : e.readable = true) (h : ∀ x ∈ ρ.reads e, ρ x = ρ' x) :
    ρ'.reads e = ρ.reads e := by
  unfold reads
  rw [run_congr hρ he h]

end Vars
end ReactiveView
