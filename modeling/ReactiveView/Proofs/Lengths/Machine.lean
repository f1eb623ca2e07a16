import ReactiveView.Proofs.Lengths.Values
import ReactiveView.Proofs.Termination.Calls

/-!
# Where code produces what is too long

When all values that code can reach are short, and the host keeps its own short
(`Env.KeepsShort`), a run has short values only, at every moment, until one of a few operations
gives a text or a list whose length nobody looks at (`Machine.joins`): a literal or a list of the
source, a concatenation, a format string, and the built-in functions that write texts or list keys.
One step of a machine keeps all values short unless it is such an operation
(`Machine.Short.step`); what a run comes to is short, or one of its moments made the first value that is
not (`Invocation.short_unless_joined`).
-/

namespace ReactiveView

open Interpreter

variable {σ α β : Type} {H : σ → Prop} {env : Env (StateM σ)}

/-! ## Questions -/

/-- A question leaves a host that satisfies `H` in such a state, and has an answer that satisfies
`post`, or an error. -/
def Yields (H : σ → Prop) (post : α → Prop) (x : Eval (StateM σ) α) : Prop :=
  ∀ s, H s → H (x.run.run s).2 ∧ ∀ a, (x.run.run s).1 = .ok a → post a

namespace Yields

variable {post : α → Prop} {post' : β → Prop} {x : Eval (StateM σ) α}

theorem pure {a : α} (h : post a) : Yields H post (Pure.pure a) := by
  refine fun s hs => ⟨hs, ?_⟩
  rintro _ ⟨⟩
  exact h

theorem fail (cause : EvalCause) : Yields H post (Interpreter.fail cause) := fun _ hs => ⟨hs, nofun⟩

theorem lift {r : Except EvalCause α} (h : ∀ a, r = .ok a → post a) :
    Yields H post (Interpreter.lift r) := by
  cases r with
  | ok a => exact .pure (h a rfl)
  | error cause => exact .fail cause

theorem bind {f : α → Eval (StateM σ) β} (hx : Yields H post x)
    (hf : ∀ a, post a → Yields H post' (f a)) : Yields H post' (x >>= f) := by
  intro s hs
  obtain ⟨hstate, hpost⟩ := hx s hs
  rw [Eval.bind_eq_both, Eval.run_both]
  rcases hrun : x.run.run s with ⟨err | a, s'⟩
  · rw [hrun] at hstate
    exact ⟨hstate, nofun⟩
  · rw [hrun] at hstate hpost
    exact hf a (hpost a rfl) s' hstate

end Yields

/-! ## Hosts -/

/-- All variables have short values. -/
def ShortVars (vars : OrderedMap String Value) : Prop := ∀ name v, vars.get? name = some v → v.Short

theorem shortVars_empty : ShortVars .empty := by
  rintro _ _ ⟨⟩

theorem ShortVars.insert {vars : OrderedMap String Value} (h : ShortVars vars) (name : String) {v : Value}
    (hv : v.Short) : ShortVars (vars.insert name v) := by
  intro other w hw
  rw [OrderedMap.get?_insert] at hw
  split at hw
  · exact Option.some.inj hw ▸ hv
  · exact h other w hw

/-- A call begins with short values if its arguments are short. -/
theorem shortVars_bindParams (params : List String) {args : List Value} (hargs : ∀ v ∈ args, v.Short)
    {frame : OrderedMap String Value} (hframe : ShortVars frame) :
    ShortVars (bindParams params args frame) := by
  induction params generalizing args frame with
  | nil => cases args <;> exact hframe
  | cons p params ih =>
    cases args with
    | nil => exact ih hargs (hframe.insert p .null)
    | cons v args =>
      obtain ⟨hv, hargs⟩ := List.forall_mem_cons.1 hargs
      exact ih hargs (hframe.insert p hv)

/-- A host whose state satisfies `H` as long as it is given short values, and that gives short values
then. -/
structure Env.KeepsShort (env : Env (StateM σ)) (H : σ → Prop) : Prop where
  lookup : ∀ name, Yields H (∀ v ∈ ·, v.Short) (ask (env.lookup name))
  has : ∀ name, Yields H (fun _ => True) (ask (env.has name))
  assign : ∀ name v, v.Short → Yields H (fun _ => True) (ask (env.assign name v))
  this : Yields H Value.Short (ask env.this)
  member : ∀ target name, target.Short → Yields H (∀ v ∈ ·, v.Short) (ask (env.member target name))
  callIntrinsic : ∀ name args, (∀ v ∈ args, v.Short) →
    Yields H Value.Short (env.callIntrinsic name args : Eval (StateM σ) Value)
  interrupted : Yields H (fun _ => True) (ask env.interrupted)
  freshSerial : Yields H (fun _ => True) (ask env.freshSerial)

/-- A scope with short values keeps them short. -/
theorem Scope.keepsShort : Scope.env.KeepsShort fun r => ShortVars r.scope where
  lookup name r hr := by
    refine ⟨hr, fun found hfound v hv => hr name v ?_⟩
    obtain rfl := Except.ok.inj hfound
    exact hv
  has _ _ hr := ⟨hr, fun _ _ => trivial⟩
  assign name v hv r hr := by
    refine ⟨?_, fun _ _ => trivial⟩
    change ShortVars (r.scope.write name v)
    unfold Scope.write write?
    split
    · split
      · exact hr
      · exact hr.insert name hv
    · exact hr.insert name hv
  this _ hr := ⟨hr, by rintro _ ⟨⟩; exact .null⟩
  member _ _ _ _ hr := ⟨hr, by rintro _ ⟨⟩ _ ⟨⟩⟩
  callIntrinsic _ _ _ _ hr := ⟨hr, by rintro _ ⟨⟩⟩
  interrupted _ hr := ⟨hr, fun _ _ => trivial⟩
  freshSerial _ hr := ⟨hr, fun _ _ => trivial⟩

/-- The locals of a running function have short values. -/
def ShortLocals (locals : Locals) : Prop := ∀ frame ∈ locals, ShortVars frame

section

variable (henv : env.KeepsShort H) {locals : Locals}

include henv

theorem short_lookupName (hlocals : ShortLocals locals) (name : String) :
    Yields H Value.Short (lookupName env locals name) := by
  unfold lookupName
  split
  · next v hv =>
    obtain ⟨frame, hframe, hget⟩ := Option.bind_eq_some_iff.1 hv
    exact .pure (hlocals frame hframe name v hget)
  · refine (henv.lookup name).bind fun found hfound => ?_
    cases found with
    | some v => exact .pure (hfound v rfl)
    | none =>
      dsimp only
      split
      · exact .pure (.builtin name)
      · exact .fail _

theorem short_assignName (hlocals : ShortLocals locals) (name : String) {v : Value} (hv : v.Short) :
    Yields H ShortLocals (assignName env locals name v) := by
  cases locals with
  | none => exact (henv.assign name v hv).bind fun _ _ => .pure nofun
  | some frame =>
    have hframe : ShortVars frame := hlocals frame rfl
    have hnew : Yields H ShortLocals (pure (some (frame.insert name v)) : Eval (StateM σ) Locals) := by
      refine .pure fun frame' hframe' => ?_
      exact Option.some.inj hframe' ▸ hframe.insert name hv
    rw [assignName]
    split
    · exact hnew
    · refine (henv.has name).bind fun present _ => ?_
      split
      · exact (henv.assign name v hv).bind fun _ _ => .pure hlocals
      · exact hnew

theorem short_memberOf {target : Value} (htarget : target.Short) (name : String) :
    Yields H Value.Short (memberOf env target name) := by
  unfold memberOf
  split
  · exact .pure (htarget.get? name)
  · refine (henv.member target name htarget).bind fun found hfound => ?_
    cases found with
    | some v => exact .pure (hfound v rfl)
    | none => exact .fail _

theorem short_poll (call : Caller (StateM σ)) (lineOffset : Nat) :
    Yields H (fun _ => True) (Code.poll ⟨env, call, lineOffset⟩) := by
  refine henv.interrupted.bind fun stop _ => ?_
  split
  · exact .fail _
  · exact .pure trivial

/-- What an assignment writes, unless it may be a concatenation. -/
theorem short_assigned (call : Caller (StateM σ)) (lineOffset : Nat) (hlocals : ShortLocals locals)
    {op : AssignOp} (target : String) {v : Value} (hv : v.Short)
    (hop : op = .add → v.isSequence = false) :
    Yields H Value.Short (Code.assigned ⟨env, call, lineOffset⟩ locals op target v) := by
  cases op with
  | set => exact .pure hv
  | add =>
    refine (short_lookupName henv hlocals target).bind fun old _ => .lift ?_
    exact Value.short_applyBinary (Value.joins_of_not_isSequence _ _ (hop rfl))
  | sub =>
    refine (short_lookupName henv hlocals target).bind fun old _ => .lift ?_
    exact Value.short_applyBinary rfl

/-- A function that is no function of a code block is called. -/
theorem short_callWith (user : Function → List Value → Eval (StateM σ) Value) {name : String}
    {args : List Value} (hargs : ∀ v ∈ args, v.Short)
    (hname : (Builtin.ofName? name).any Builtin.joins = false) :
    Yields H Value.Short (callWith env user (.builtin name) args) := by
  rw [callWith]
  split
  · refine .lift ?_
    unfold callBuiltin
    cases hfound : Builtin.ofName? name with
    | none => exact shortResult_error _
    | some b =>
      rw [hfound] at hname
      exact Builtin.short_call hname args
  · exact henv.callIntrinsic name args hargs

end

/-! ## Moments of a run -/

/-- A piece of work on short values. -/
def Task.Short : Task → Prop
  | .call f args => f.Short ∧ ∀ v ∈ args, v.Short
  | .rounds _ _ items => ∀ v ∈ items, v.Short
  | .eval _ | .evalList _ | .evalParts _ _ | .block _ | .stmt _ => True

/-- An answer that has short values. The text of a format string is no value yet. -/
def Answer.Short : Answer → Prop
  | .value v => v.Short
  | .values vs => ∀ v ∈ vs, v.Short
  | .text _ => True
  | .flow .next => True
  | .flow (.result v) => v.Short

/-- What waits with short values. -/
def Waiting.Short : Waiting → Prop
  | .subscript v | .call v | .binary _ v | .front v => v.Short
  | .rounds _ _ items => ∀ v ∈ items, v.Short
  | _ => True

/-- What is done next is done with short values. -/
def Control.Short : Control → Prop
  | .task t => t.Short
  | .gave (.ok a) => a.Short
  | .gave (.error _) => True

/-- A piece of work that begins with a text of the source, or with a function that writes texts or list
keys. -/
def Task.joins : Task → Bool
  | .eval (.literal (.str _)) => true
  | .call (.builtin name) _ => (Builtin.ofName? name).any Builtin.joins
  | _ => false

/-- Whether an answer is made a list or a text, or may be concatenated. -/
def Waiting.joins : Waiting → Answer → Bool
  | .list, .values _ => true
  | .format, .text _ => true
  | .binary op v, .value w => Value.joins op v w
  | .assign .add _, .value v => v.isSequence
  | _, _ => false

namespace Machine

variable {m m' : Machine σ}

/-- Whether the next step may give a text or a list whose length it does not look at. -/
def joins (m : Machine σ) : Bool :=
  match m.control, m.waiting with
  | .task t, _ => t.joins
  | .gave (.ok a), w :: _ => w.joins a
  | .gave _, _ => false

/-- All values beside what is done next are short, and the host satisfies `H`. -/
structure Holds (H : σ → Prop) (m : Machine σ) : Prop where
  waiting : ∀ w ∈ m.waiting, w.Short
  frames : ∀ frame ∈ m.frames, ShortVars frame
  host : H m.host

/-- All values are short, and the host satisfies `H`. -/
structure Short (H : σ → Prop) (m : Machine σ) : Prop extends Holds H m where
  control : m.control.Short

namespace Holds

variable (h : m.Holds H)

include h

theorem work {t : Task} (ht : t.Short) : (m.work t).Short H := { h with control := ht }

theorem push {w : Waiting} (hw : w.Short) {t : Task} (ht : t.Short) : (m.push w t).Short H :=
  ⟨⟨List.forall_mem_cons.2 ⟨hw, h.waiting⟩, h.frames, h.host⟩, ht⟩

theorem give {a : Answer} (ha : a.Short) : (m.give a).Short H := { h with control := ha }

theorem raise (err : EvalError) : (m.raise err).Short H := { h with control := trivial }

theorem locals : ShortLocals m.locals := fun frame hframe =>
  h.frames frame (List.mem_of_mem_head? hframe)

theorem setLocals {locals : Locals} (hlocals : ShortLocals locals) : (m.setLocals locals).Holds H := by
  refine { h with frames := ?_ }
  cases locals with
  | none => exact h.frames
  | some frame =>
    exact List.forall_mem_cons.2 ⟨hlocals frame rfl, fun f hf => h.frames f (List.mem_of_mem_tail hf)⟩

/-- The host is asked, or an operator applied. -/
theorem ask {x : Eval (StateM σ) α} {post : α → Prop} {next : Machine σ → α → Machine σ}
    (hx : Yields H post x) (hnext : ∀ (m : Machine σ) a, m.Holds H → post a → (next m a).Short H) :
    (m.ask x next).Short H := by
  obtain ⟨hhost, hpost⟩ := hx m.host h.host
  unfold Machine.ask
  rcases hrun : x.run.run m.host with ⟨err | a, host⟩
  · rw [hrun] at hhost
    have hm : Holds H { m with host := host } := ⟨h.waiting, h.frames, hhost⟩
    exact hm.raise err
  · rw [hrun] at hhost hpost
    have hm : Holds H { m with host := host } := ⟨h.waiting, h.frames, hhost⟩
    exact hnext _ a hm (hpost a rfl)

/-- The host is asked for a value. -/
theorem askValue {x : Eval (StateM σ) Value} (hx : Yields H Value.Short x) :
    (m.ask x fun m v => m.give (.value v)).Short H :=
  h.ask hx fun _ _ h hv => h.give hv

end Holds

section

variable (henv : env.KeepsShort H) (h : m.Holds H)

include henv h

theorem Holds.startExpr {e : Expr} (he : (Task.eval e).joins = false) :
    (m.startExpr env e).Short H := by
  cases e with
  | literal l =>
    refine h.give ?_
    cases l with
    | null => exact .null
    | bool b => exact .bool b
    | int i => exact .int i
    | float x => exact .float x
    | str s => cases he
  | name x => exact h.askValue (short_lookupName henv h.locals x)
  | this => exact h.askValue henv.this
  | _ => refine h.push ?_ ?_ <;> exact trivial

theorem Holds.startStmt (s : Stmt) : (m.startStmt env s).Short H := by
  cases s with
  | function line name params body =>
    rw [Machine.startStmt]
    refine h.ask (henv.freshSerial.bind fun serial _ =>
      short_assignName henv h.locals name (.func _)) fun m locals h hlocals => ?_
    exact (h.setLocals hlocals).give trivial
  | ret line value =>
    cases value with
    | none => exact h.give .null
    | some e => refine h.push ?_ ?_ <;> exact trivial
  | _ => refine h.push ?_ ?_ <;> exact trivial

theorem Holds.startCall {f : Value} {args : List Value} (hargs : ∀ v ∈ args, v.Short)
    (hcall : (Task.call f args).joins = false) : (m.startCall env args f).Short H := by
  cases f with
  | func f =>
    rw [Machine.startCall]
    split
    · exact h.raise _
    · split
      · exact h.raise _
      · -- the locals of the call are its arguments
        refine ⟨⟨List.forall_mem_cons.2 ⟨trivial, h.waiting⟩, ?_, h.host⟩, trivial⟩
        exact List.forall_mem_cons.2 ⟨shortVars_bindParams _ hargs shortVars_empty, h.frames⟩
  | builtin name => exact h.askValue (short_callWith henv _ hargs hcall)
  | _ => exact h.raise _

/-- A piece of work begins with short values. -/
theorem Holds.start {t : Task} (ht : t.Short) (hjoins : t.joins = false) :
    (m.start env t).Short H := by
  cases t with
  | eval e => exact h.startExpr henv hjoins
  | evalList es =>
    cases es with
    | nil => exact h.give (List.forall_mem_nil _)
    | cons e es => refine h.push ?_ ?_ <;> exact trivial
  | evalParts out parts =>
    cases parts with
    | nil => exact h.give trivial
    | cons part parts =>
      cases part with
      | text s => exact h.work trivial
      | expr e => refine h.push ?_ ?_ <;> exact trivial
  | call f args => exact h.startCall henv ht.2 hjoins
  | block stmts =>
    cases stmts with
    | nil => exact h.give trivial
    | cons s stmts =>
      rw [Machine.start]
      refine h.ask (short_poll henv _ m.lineOffset) fun m _ h _ => ?_
      refine h.push ?_ ?_ <;> exact trivial
  | stmt s => exact h.startStmt henv s
  | rounds var body items =>
    cases items with
    | nil => exact h.give trivial
    | cons item items =>
      obtain ⟨hitem, hitems⟩ := List.forall_mem_cons.1 ht
      rw [Machine.start]
      refine h.ask ((short_poll henv _ m.lineOffset).bind fun _ _ =>
        short_assignName henv h.locals var hitem) fun m locals h hlocals => ?_
      refine (h.setLocals hlocals).push ?_ trivial
      exact hitems

theorem Holds.resumeValue {v : Value} (hv : v.Short) {w : Waiting} (hw : w.Short)
    (hjoins : w.joins (.value v) = false) (hm : m.resumeValue env v w = some m') : m'.Short H := by
  cases w with
  | member field =>
    obtain rfl := Option.some.inj hm
    exact h.askValue (short_memberOf henv hv field)
  | key key =>
    obtain rfl := Option.some.inj hm
    refine h.push ?_ trivial
    exact hv
  | subscript target =>
    obtain rfl := Option.some.inj hm
    exact h.askValue (.lift (Value.Short.subscript hw v))
  | args args =>
    obtain rfl := Option.some.inj hm
    refine h.push ?_ trivial
    exact hv
  | unary op =>
    obtain rfl := Option.some.inj hm
    exact h.askValue (.lift (Value.short_applyUnary op v))
  | right op e =>
    obtain rfl := Option.some.inj hm
    refine h.push ?_ trivial
    exact hv
  | binary op left =>
    -- the operands are short, but what counts is that they are not concatenated
    obtain rfl := Option.some.inj hm
    exact h.askValue (.lift (Value.short_applyBinary hjoins))
  | logical op e =>
    simp only [Machine.resumeValue] at hm
    split at hm
    · obtain rfl := Option.some.inj hm
      exact h.give hv
    · obtain rfl := Option.some.inj hm
      exact h.give hv
    · obtain rfl := Option.some.inj hm
      exact h.work trivial
  | rest es =>
    obtain rfl := Option.some.inj hm
    refine h.push ?_ trivial
    exact hv
  | assign op target =>
    obtain rfl := Option.some.inj hm
    -- the old value is not known here, so no text and no list may be added to it
    have hop (hadd : op = .add) : v.isSequence = false := by
      subst hadd
      exact hjoins
    refine h.ask ((short_assigned henv _ m.lineOffset h.locals target hv hop).bind fun w hw =>
      short_assignName henv h.locals target hw) fun m locals h hlocals => ?_
    exact (h.setLocals hlocals).give trivial
  | loop var body =>
    simp only [Machine.resumeValue] at hm
    split at hm
    · obtain rfl := Option.some.inj hm
      exact h.raise _
    · next items hitems =>
      obtain rfl := Option.some.inj hm
      exact h.work (hv.of_items? hitems)
  | ret =>
    obtain rfl := Option.some.inj hm
    exact h.give hv
  | cond | part | branch =>
    obtain rfl := Option.some.inj hm
    exact h.work trivial
  | drop =>
    obtain rfl := Option.some.inj hm
    exact h.give trivial
  | _ => cases hm

omit henv in
theorem Holds.resumeFlow {flow : Flow} (hflow : (Answer.flow flow).Short) {w : Waiting}
    (hw : w.Short) (hm : m.resumeFlow flow w = some m') : m'.Short H := by
  cases w with
  | stmts line rest =>
    cases flow with
    | next =>
      obtain rfl := Option.some.inj hm
      exact h.work trivial
    | result v =>
      obtain rfl := Option.some.inj hm
      exact h.give hflow
  | rounds var body items =>
    cases flow with
    | next =>
      obtain rfl := Option.some.inj hm
      exact h.work hw
    | result v =>
      obtain rfl := Option.some.inj hm
      exact h.give hflow
  | leave lineOffset =>
    have hframes : ∀ frame ∈ m.frames.tail, ShortVars frame := fun frame hframe =>
      h.frames frame (List.mem_of_mem_tail hframe)
    cases flow with
    | next =>
      obtain rfl := Option.some.inj hm
      exact ⟨⟨h.waiting, hframes, h.host⟩, .null⟩
    | result v =>
      obtain rfl := Option.some.inj hm
      exact ⟨⟨h.waiting, hframes, h.host⟩, hflow⟩
  | _ => cases hm

/-- What waits takes a short answer. -/
theorem Holds.resume {a : Answer} (ha : a.Short) {w : Waiting} (hw : w.Short)
    (hjoins : w.joins a = false) (hm : m.resume env w a = some m') : m'.Short H := by
  cases a with
  | value v => exact h.resumeValue henv ha hw hjoins hm
  | flow flow => exact h.resumeFlow ha hw hm
  | values vs =>
    cases w with
    | call f =>
      obtain rfl := Option.some.inj hm
      exact h.work ⟨hw, ha⟩
    | list => cases hjoins
    | front v =>
      obtain rfl := Option.some.inj hm
      exact h.give (List.forall_mem_cons.2 ⟨hw, ha⟩)
    | _ => cases hm
  | text s =>
    cases w with
    | format => cases hjoins
    | _ => cases hm

omit henv in
/-- An error carries no value. -/
theorem Holds.unwind (err : EvalError) (w : Waiting) : (m.unwind env err w).Short H := by
  cases w with
  | leave lineOffset =>
    exact ⟨⟨h.waiting, fun frame hframe => h.frames frame (List.mem_of_mem_tail hframe), h.host⟩,
      trivial⟩
  | _ => exact h.raise _

end

/-- A step keeps all values short, unless it may give a text or a list whose length it does not look at.
-/
theorem Short.step (henv : env.KeepsShort H) (h : m.Short H) (hjoins : m.joins = false)
    (hm : m.step env = some m') : m'.Short H := by
  obtain ⟨control, waiting, frames, lineOffset, host⟩ := m
  obtain ⟨⟨hwaiting, hframes, hhost⟩, hcontrol⟩ := h
  cases control with
  | task t =>
    obtain rfl := Option.some.inj hm
    exact Holds.start henv ⟨hwaiting, hframes, hhost⟩ hcontrol hjoins
  | gave r =>
    cases waiting with
    | nil => cases hm
    | cons w waiting =>
      obtain ⟨hw, hwaiting⟩ := List.forall_mem_cons.1 hwaiting
      have hholds : Holds H (⟨.gave r, waiting, frames, lineOffset, host⟩ : Machine σ) :=
        ⟨hwaiting, hframes, hhost⟩
      cases r with
      | ok a => exact hholds.resume henv hcontrol hw hjoins hm
      | error err =>
        obtain rfl := Option.some.inj hm
        exact hholds.unwind err w

/-- The first step of a run to a value that is not short is one that does not look at lengths. -/
theorem Short.steps (henv : env.KeepsShort H) (h : m.Short H) (hm : Steps env m m') :
    m'.Short H ∨ ∃ m₁ m₂, Steps env m m₁ ∧ m₁.Short H ∧ m₁.joins = true ∧
      m₁.step env = some m₂ ∧ ¬ m₂.Short H := by
  induction hm with
  | refl => exact .inl h
  | @tail m₁ m₂ hsteps hstep ih =>
    rcases ih with hshort | hfound
    · -- either the last moment is short too, or it is the first that is not
      by_cases hnext : m₂.Short H
      · exact .inl hnext
      · have hjoins : m₁.joins = true := by
          rw [← Bool.not_eq_false]
          exact fun hjoins => hnext (hshort.step henv hjoins hstep)
        exact .inr ⟨m₁, m₂, hsteps, hshort, hjoins, hstep, hnext⟩
    · exact .inr hfound

end Machine

namespace Invocation

open Machine

/-- Code that is entered with short values, over a host that keeps its values short, gives short
values and leaves the host with short values, unless one of its steps makes the first value that is not
short; and that step is one of a few that do not look at lengths: it takes a text of the source, makes
a list or the text of a format string, concatenates two texts or two lists, or calls a built-in
function that writes texts or list keys. -/
theorem short_unless_joined (henv : env.KeepsShort H) (invocation : Invocation)
    (hshort : invocation.task.Short) {host : σ} (hhost : H host) :
    ((∀ a, ((invocation.result env).run.run host).1 = .ok a → a.Short) ∧
        H ((invocation.result env).run.run host).2) ∨
      ∃ m m', Steps env (invocation.machine host) m ∧ m.Short H ∧ m.joins = true ∧
        m.step env = some m' ∧ ¬ m'.Short H := by
  have hstart : (invocation.machine host).Short H :=
    ⟨⟨List.forall_mem_nil _, List.forall_mem_nil _, hhost⟩, hshort⟩
  refine (hstart.steps henv (steps_result env invocation host)).imp_left fun hend => ?_
  refine ⟨fun a ha => ?_, hend.host⟩
  have hcontrol := hend.control
  rw [ha] at hcontrol
  exact hcontrol

/-- A text of the greatest length is repeated; a concatenation makes it longer. -/
theorem short_unless_joined_longer :
    let e : Expr := .binary .add (.binary .mul (.literal (.str "a")) (.literal (.int 1048576)))
      (.literal (.str "b"))
    let r : Scope.Run := { scope := .empty }
    (∃ s, (((Invocation.eval e).result Scope.env).run.run r).1 = .ok (.value (.str s)) ∧
      s.utf8ByteSize = maxSequence + 1) ∧
    ∃ m m', Steps Scope.env ((Invocation.eval e).machine r) m ∧
      m.Short (fun r => ShortVars r.scope) ∧ m.joins = true ∧ m.step Scope.env = some m' ∧
      ¬ m'.Short fun r => ShortVars r.scope := by
  intro e r
  -- the text has the greatest length that is allowed; it is never written out
  have hrepeated : Value.applyBinary .mul (.str "a") (.int 1048576) =
      .ok (.str (String.join (List.replicate 1048576 "a"))) := by
    rw [Value.applyBinary, Value.mul, Value.repeated, if_neg (by decide), if_pos (by decide)]
    rfl
  have hsize : (String.join (List.replicate 1048576 "a") ++ "b").utf8ByteSize = maxSequence + 1 := by
    rw [String.utf8ByteSize_append, utf8ByteSize_join_replicate]
    rfl
  obtain ⟨s, hresult, hsize⟩ :
      ∃ s, (((Invocation.eval e).result Scope.env).run.run r).1 = .ok (.value (.str s)) ∧
        s.utf8ByteSize = maxSequence + 1 := by
    refine ⟨_, ?_, hsize⟩
    rw [result, Eval.run_map, Interpreter.eval]
    simp only [e, evalWith, pure_bind, Literal.value, hrepeated, Interpreter.lift]
    rfl
  refine ⟨⟨s, hresult, hsize⟩, ?_⟩
  have hvars : ShortVars r.scope := shortVars_empty
  rcases short_unless_joined Scope.keepsShort (.eval e) trivial hvars with ⟨hshort, -⟩ | h
  · -- the text is too long
    have hlong : (Value.str s).Short := hshort _ hresult
    cases hlong with
    | str length =>
      rw [ShortText, hsize] at length
      exact absurd length (Nat.not_succ_le_self _)
  · exact h

end Invocation
end ReactiveView
