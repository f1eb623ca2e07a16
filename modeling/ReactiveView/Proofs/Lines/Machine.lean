import ReactiveView.Proofs.Lines.Values
import ReactiveView.Proofs.Termination.Calls

/-!
# Runs on the lines of the template

`Machine.absolute` rewrites a moment of a run: all statements in it get the lines of the template,
each from the offset of the code that it belongs to, and no offset is left. A run from a rewritten
moment is the rewritten run, moment by moment (`Machine.step_absolute`), for every host that takes
functions as they are (`Env.Opaque`); a scope is one (`Scope.opaque_env`).
-/

namespace ReactiveView

open Interpreter
open Value (absolute)

variable {σ α β γ δ : Type} {env : Env (StateM σ)} {H : σ → σ}

/-! ## Hosts -/

/-- Locals with the statements of functions on the lines of the template. -/
def absoluteLocals (locals : Locals) : Locals :=
  locals.map fun frame => frame.mapValues Value.absolute

/-- A host that takes functions as they are. When those in its state are rewritten, as `H` does, and
those that it is given, its answers and its next states are what they were, rewritten. It knows no
lines of statements, so its own errors have none. -/
structure Env.Opaque (env : Env (StateM σ)) (H : σ → σ) : Prop where
  lookup : ∀ name s, (env.lookup name).run (H s) =
    (((env.lookup name).run s).1.map absolute, H ((env.lookup name).run s).2)
  has : ∀ name s, (env.has name).run (H s) = (((env.has name).run s).1, H ((env.has name).run s).2)
  assign : ∀ name v s, (env.assign name v.absolute).run (H s) = ((), H ((env.assign name v).run s).2)
  this : ∀ s, env.this.run (H s) = ((env.this.run s).1.absolute, H (env.this.run s).2)
  member : ∀ target name s, (env.member target.absolute name).run (H s) =
    (((env.member target name).run s).1.map absolute, H ((env.member target name).run s).2)
  callIntrinsic : ∀ name args s, (env.callIntrinsic name (args.map absolute)).run (H s) =
    (((env.callIntrinsic name args).run s).1.map absolute, H ((env.callIntrinsic name args).run s).2)
  line_intrinsic : ∀ name args s err,
    ((env.callIntrinsic name args).run s).1 = .error err → err.line = none
  interrupted : ∀ s, env.interrupted.run (H s) =
    ((env.interrupted.run s).1, H (env.interrupted.run s).2)
  freshSerial : ∀ s, env.freshSerial.run (H s) =
    ((env.freshSerial.run s).1, H (env.freshSerial.run s).2)

/-! ## Questions -/

/-- No line is known for an error of a question. -/
def Bare (x : Eval (StateM σ) α) : Prop := ∀ s err, (x.run.run s).1 = .error err → err.line = none

theorem Bare.bind {x : Eval (StateM σ) α} {k : α → Eval (StateM σ) β} (hx : Bare x)
    (hk : ∀ a, Bare (k a)) : Bare (x >>= k) := by
  intro s err
  rw [Eval.bind_eq_both, Eval.run_both]
  have hline := hx s
  revert hline
  rcases x.run.run s with ⟨_ | a, s'⟩
  · rintro hline ⟨⟩
    exact hline err rfl
  · exact fun _ => hk a s' err

theorem Bare.ask (y : StateM σ α) : Bare (Interpreter.ask y) := nofun

/-- A question in a rewritten state has the answer that it has, rewritten, or the same error. -/
structure Rewrites (H : σ → σ) (f : α → β) (x : Eval (StateM σ) α) (x' : Eval (StateM σ) β) :
    Prop where
  run : ∀ s, x'.run.run (H s) = ((x.run.run s).1.map f, H (x.run.run s).2)
  bare : Bare x

namespace Rewrites

variable {f : α → β} {x : Eval (StateM σ) α} {x' : Eval (StateM σ) β}

theorem pure (a : α) : Rewrites H f (Pure.pure a) (Pure.pure (f a)) := ⟨fun _ => rfl, nofun⟩

theorem fail (cause : EvalCause) :
    Rewrites H f (Interpreter.fail cause) (Interpreter.fail cause) where
  run _ := rfl
  bare := by
    rintro _ _ ⟨⟩
    rfl

theorem lift {r : Except EvalCause α} {r' : Except EvalCause β} (h : r' = r.map f) :
    Rewrites H f (Interpreter.lift r) (Interpreter.lift r') := by
  cases h
  cases r with
  | ok a => exact .pure a
  | error cause => exact .fail cause

theorem ask {y : StateM σ α} {y' : StateM σ β}
    (h : ∀ s, y'.run (H s) = (f (y.run s).1, H (y.run s).2)) :
    Rewrites H f (Interpreter.ask y) (Interpreter.ask y') where
  run s := by
    rw [Eval.run_ask, Eval.run_ask, h]
    rfl
  bare := .ask y

theorem bind {g : γ → δ} {k : α → Eval (StateM σ) γ} {k' : β → Eval (StateM σ) δ}
    (hx : Rewrites H f x x') (hk : ∀ a, Rewrites H g (k a) (k' (f a))) :
    Rewrites H g (x >>= k) (x' >>= k') where
  run s := by
    rw [Eval.bind_eq_both, Eval.bind_eq_both, Eval.run_both, Eval.run_both, hx.run s]
    rcases x.run.run s with ⟨_ | a, s'⟩
    · rfl
    · exact (hk a).run s'
  bare := hx.bare.bind fun a => (hk a).bare

end Rewrites

theorem localValue?_absolute (locals : Locals) (name : String) :
    localValue? (absoluteLocals locals) name = (localValue? locals name).map absolute := by
  cases locals with
  | none => rfl
  | some frame => exact OrderedMap.get?_mapValues _ _ _

theorem lookupName_absolute (h : env.Opaque H) (locals : Locals) (name : String) :
    Rewrites H absolute (lookupName env locals name)
      (lookupName env (absoluteLocals locals) name) := by
  unfold lookupName
  rw [localValue?_absolute]
  cases localValue? locals name with
  | some v => exact .pure v
  | none =>
    refine (Rewrites.ask (h.lookup name)).bind fun v => ?_
    cases v with
    | some v => exact .pure v
    | none =>
      change Rewrites H absolute (if _ then _ else _) (if _ then _ else _)
      split
      · exact .pure _
      · exact .fail _

theorem absolute_insert (frame : OrderedMap String Value) (name : String) (v : Value) :
    absoluteLocals (some (frame.insert name v)) =
      some ((frame.mapValues absolute).insert name v.absolute) :=
  congrArg some (OrderedMap.mapValues_insert _ _ _ _)

theorem assignName_absolute (h : env.Opaque H) (locals : Locals) (name : String) (v : Value) :
    Rewrites H absoluteLocals (assignName env locals name v)
      (assignName env (absoluteLocals locals) name v.absolute) := by
  cases locals with
  | none => exact (Rewrites.ask (f := id) (h.assign name v)).bind fun _ => .pure none
  | some frame =>
    change Rewrites H absoluteLocals _ (assignName env (some (frame.mapValues absolute)) _ _)
    rw [assignName, assignName, OrderedMap.contains_mapValues, ← absolute_insert]
    split
    · exact .pure (some (frame.insert name v))
    · refine (Rewrites.ask (f := id) (h.has name)).bind fun present => ?_
      cases present with
      | true => exact (Rewrites.ask (f := id) (h.assign name v)).bind fun _ => .pure (some frame)
      | false => exact .pure (some (frame.insert name v))

/-- The host answers for the members of every value but a map. -/
theorem memberOf_host {target : Value} (hmap : ∀ entries, target ≠ .map entries) (name : String) :
    memberOf env target name = ask (env.member target name) >>= fun found =>
      found.elim (Interpreter.fail (.noAttribute target.typeName name)) pure := by
  unfold memberOf
  split
  · exact absurd rfl (hmap _)
  · refine congrArg (ask (env.member target name) >>= ·) (funext fun found => ?_)
    cases found <;> rfl

theorem memberOf_absolute (h : env.Opaque H) (target : Value) (name : String) :
    Rewrites H absolute (memberOf env target name) (memberOf env target.absolute name) := by
  by_cases hmap : ∃ entries, target = .map entries
  · obtain ⟨entries, rfl⟩ := hmap
    rw [Value.absolute_map, memberOf, memberOf, OrderedMap.get?_mapValues]
    cases entries.get? name <;> exact .pure _
  · have hmap' : ∀ entries, target.absolute ≠ .map entries := by
      cases target with
      | map entries => exact absurd ⟨entries, rfl⟩ hmap
      | list items =>
        rw [Value.absolute_list]
        exact nofun
      | _ => exact nofun
    rw [memberOf_host (not_exists.1 hmap), memberOf_host hmap', Value.typeName_absolute]
    refine (Rewrites.ask (h.member target name)).bind fun found => ?_
    cases found with
    | some v => exact .pure v
    | none => exact .fail _

theorem poll_absolute (h : env.Opaque H) (call call' : Caller (StateM σ))
    (lineOffset lineOffset' : Nat) :
    Rewrites H id (Code.poll ⟨env, call, lineOffset⟩) (Code.poll ⟨env, call', lineOffset'⟩) := by
  refine (Rewrites.ask (f := id) h.interrupted).bind fun stop => ?_
  cases stop with
  | true => exact .fail _
  | false => exact .pure ()

theorem assigned_absolute (h : env.Opaque H) (call call' : Caller (StateM σ))
    (lineOffset lineOffset' : Nat) (locals : Locals) (op : AssignOp) (target : String) (v : Value) :
    Rewrites H absolute (Code.assigned ⟨env, call, lineOffset⟩ locals op target v)
      (Code.assigned ⟨env, call', lineOffset'⟩ (absoluteLocals locals) op target v.absolute) := by
  cases op with
  | set => exact .pure v
  | add =>
    exact (lookupName_absolute h locals target).bind fun old =>
      .lift (Value.applyBinary_absolute _ old v)
  | sub =>
    exact (lookupName_absolute h locals target).bind fun old =>
      .lift (Value.applyBinary_absolute _ old v)

/-- A call of a built-in function or an intrinsic. -/
theorem callBuiltin_rewrites (h : env.Opaque H)
    (user user' : Function → List Value → Eval (StateM σ) Value) (name : String) (args : List Value) :
    Rewrites H absolute (callWith env user (.builtin name) args)
      (callWith env user' (.builtin name) (args.map absolute)) := by
  rw [callWith, callWith]
  split
  · exact .lift (callBuiltin_absolute name args)
  · exact ⟨h.callIntrinsic name args, h.line_intrinsic name args⟩

/-! ## Moments -/

/-- How statements ended. -/
def Flow.absolute : Flow → Flow
  | next => next
  | result v => result v.absolute

/-- An answer with the statements of functions on the lines of the template. -/
def Answer.absolute : Answer → Answer
  | .value v => .value v.absolute
  | .values vs => .values (vs.map Value.absolute)
  | .text s => .text s
  | .flow ended => .flow ended.absolute

/-- The statements of a code block, on the lines of the template. -/
abbrev Stmt.absoluteOf (lineOffset : Nat) (stmts : List Stmt) : List Stmt :=
  Stmt.mapLinesOf (lineAt lineOffset) stmts

/-- Work in code that begins on a line. -/
def Task.absolute (lineOffset : Nat) : Task → Task
  | .call f args => .call f.absolute (args.map Value.absolute)
  | .block stmts => .block (Stmt.absoluteOf lineOffset stmts)
  | .stmt s => .stmt (s.mapLines (lineAt lineOffset))
  | .rounds var body items =>
    .rounds var (Stmt.absoluteOf lineOffset body) (items.map Value.absolute)
  | t => t

/-- Something that waits in code that begins on a line. -/
def Waiting.absolute (lineOffset : Nat) : Waiting → Waiting
  | .subscript target => .subscript target.absolute
  | .call f => .call f.absolute
  | .binary op left => .binary op left.absolute
  | .front v => .front v.absolute
  | .branch yes no =>
    .branch (Stmt.absoluteOf lineOffset yes) (Stmt.absoluteOf lineOffset no)
  | .loop var body => .loop var (Stmt.absoluteOf lineOffset body)
  | .stmts line later => .stmts (lineAt lineOffset line) (Stmt.absoluteOf lineOffset later)
  | .rounds var body items =>
    .rounds var (Stmt.absoluteOf lineOffset body) (items.map Value.absolute)
  | .leave _ => .leave 0
  | w => w

/-- The line on which the code begins that waits below. -/
def Waiting.below (lineOffset : Nat) : Waiting → Nat
  | .leave lineOffset => lineOffset
  | _ => lineOffset

/-- All that waits, the first of it in code that begins on a line. -/
def Waiting.absoluteAll (lineOffset : Nat) : List Waiting → List Waiting
  | [] => []
  | w :: waiting => w.absolute lineOffset :: absoluteAll (w.below lineOffset) waiting

/-- What a machine is about to do in code that begins on a line. -/
def Control.absolute (lineOffset : Nat) : Control → Control
  | .task t => .task (t.absolute lineOffset)
  | .gave r => .gave (r.map Answer.absolute)

namespace Machine

/-- A moment of a run with all statements on the lines of the template. -/
def absolute (H : σ → σ) (m : Machine σ) : Machine σ where
  control := m.control.absolute m.lineOffset
  waiting := Waiting.absoluteAll m.lineOffset m.waiting
  frames := m.frames.map fun frame => frame.mapValues Value.absolute
  lineOffset := 0
  host := H m.host

variable {m m' : Machine σ}

theorem locals_absolute (H : σ → σ) (m : Machine σ) :
    (m.absolute H).locals = absoluteLocals m.locals := List.head?_map

theorem setLocals_absolute (H : σ → σ) (m : Machine σ) (locals : Locals) :
    (m.absolute H).setLocals (absoluteLocals locals) = (m.setLocals locals).absolute H := by
  cases locals with
  | none => rfl
  | some frame =>
    unfold setLocals absolute setInnermost
    rw [List.map_cons, List.map_tail]
    rfl

/-- A question to the host, and what is done with the answer. -/
theorem ask_absolute {f : α → β} {x : Eval (StateM σ) α} {x' : Eval (StateM σ) β}
    (hx : Rewrites H f x x') {next : Machine σ → α → Machine σ} {next' : Machine σ → β → Machine σ}
    (hnext : ∀ s a, next' (({ m with host := s } : Machine σ).absolute H) (f a) =
      (next { m with host := s } a).absolute H) :
    (m.absolute H).ask x' next' = (m.ask x next).absolute H := by
  have hrun : x'.run.run (m.absolute H).host = _ := hx.run m.host
  unfold ask
  rw [hrun]
  rcases x.run.run m.host with ⟨err | a, s⟩
  · rfl
  · exact hnext s a

/-- A question whose answer is a value. -/
theorem ask_give_absolute {x x' : Eval (StateM σ) Value} (hx : Rewrites H Value.absolute x x') :
    (m.absolute H).ask x' (fun m v => m.give (.value v)) =
      (m.ask x fun m v => m.give (.value v)).absolute H :=
  ask_absolute hx fun _ _ => rfl

theorem startExpr_absolute (h : env.Opaque H) (m : Machine σ) (e : Expr) :
    (m.absolute H).startExpr env e = (m.startExpr env e).absolute H := by
  cases e with
  | literal l =>
    rw [startExpr, ← Value.absolute_literal l]
    rfl
  | name x =>
    rw [startExpr, startExpr, locals_absolute]
    exact ask_give_absolute (lookupName_absolute h m.locals x)
  | this => exact ask_give_absolute (.ask h.this)
  | _ => rfl

theorem startStmt_absolute (h : env.Opaque H) (m : Machine σ) (s : Stmt) :
    (m.absolute H).startStmt env (s.mapLines (lineAt m.lineOffset)) =
      (m.startStmt env s).absolute H := by
  cases s with
  | function line name params body =>
    -- the function keeps the offset of this code, and none where its body is rewritten
    rw [Stmt.mapLines, startStmt, startStmt, locals_absolute]
    refine ask_absolute ((Rewrites.ask (f := id) h.freshSerial).bind fun serial =>
      assignName_absolute h m.locals name _) fun s locals => ?_
    rw [setLocals_absolute]
    rfl
  | ret line value => cases value <;> rfl
  | _ => rfl

theorem bindParams_absolute (params : List String) (args : List Value)
    (frame : OrderedMap String Value) :
    bindParams params (args.map Value.absolute) (frame.mapValues Value.absolute) =
      (bindParams params args frame).mapValues Value.absolute := by
  induction params generalizing args frame with
  | nil => cases args <;> rfl
  | cons p params ih =>
    cases args with
    | nil =>
      rw [List.map_nil, bindParams, bindParams, ← ih, OrderedMap.mapValues_insert]
      rfl
    | cons v args => rw [List.map_cons, bindParams, bindParams, ← ih, OrderedMap.mapValues_insert]

theorem startCall_absolute (h : env.Opaque H) (m : Machine σ) (args : List Value) (f : Value) :
    (m.absolute H).startCall env (args.map Value.absolute) f.absolute =
      (m.startCall env args f).absolute H := by
  cases f with
  | func f =>
    have hframes : (m.absolute H).frames.length = m.frames.length := List.length_map _
    change (m.absolute H).startCall env _ (.func f.absolute) = _
    rw [startCall, startCall, hframes, List.length_map]
    split
    · rfl
    · change (if f.params.length < args.length then _ else _) = absolute H _
      split
      · rfl
      · unfold absolute
        rw [List.map_cons, ← bindParams_absolute]
        rfl
  | builtin name => exact ask_give_absolute (callBuiltin_rewrites h _ _ name args)
  | list items =>
    rw [Value.absolute_list]
    rfl
  | map entries =>
    rw [Value.absolute_map]
    rfl
  | _ => rfl

theorem start_absolute (h : env.Opaque H) (m : Machine σ) (t : Task) :
    (m.absolute H).start env (t.absolute m.lineOffset) = (m.start env t).absolute H := by
  cases t with
  | eval e => exact startExpr_absolute h m e
  | evalList es => cases es <;> rfl
  | evalParts out parts =>
    cases parts with
    | nil => rfl
    | cons part parts => cases part <;> rfl
  | call f args => exact startCall_absolute h m args f
  | block stmts =>
    cases stmts with
    | nil => rfl
    | cons s stmts =>
      rw [Task.absolute, Stmt.absoluteOf, Stmt.mapLinesOf, start, start, Stmt.line_mapLines]
      exact ask_absolute (poll_absolute h _ _ _ _) fun _ _ => rfl
  | stmt s => exact startStmt_absolute h m s
  | rounds var body items =>
    cases items with
    | nil => rfl
    | cons item items =>
      rw [Task.absolute, List.map_cons, start, start, locals_absolute]
      refine ask_absolute ((poll_absolute h _ _ _ _).bind fun _ =>
        assignName_absolute h m.locals var item) fun s locals => ?_
      rw [setLocals_absolute]
      rfl

/-- A moment above which something waits that is rewritten with what is below it. -/
def absoluteBelow (H : σ → σ) (w : Waiting) (m : Machine σ) : Machine σ :=
  { m.absolute H with waiting := Waiting.absoluteAll (w.below m.lineOffset) m.waiting }

theorem resumeValue_absolute (h : env.Opaque H) (m : Machine σ) (v : Value) (w : Waiting) :
    (m.absoluteBelow H w).resumeValue env v.absolute (w.absolute m.lineOffset) =
      (m.resumeValue env v w).map (absolute H) := by
  cases w with
  | member field => exact congrArg some (ask_give_absolute (memberOf_absolute h v field))
  | subscript target =>
    exact congrArg some (ask_give_absolute (.lift (Value.subscript_absolute target v)))
  | unary op => exact congrArg some (ask_give_absolute (.lift (Value.applyUnary_absolute op v)))
  | binary op left =>
    exact congrArg some (ask_give_absolute (.lift (Value.applyBinary_absolute op left v)))
  | logical op e =>
    simp only [Waiting.absolute, resumeValue, Value.truthy_absolute]
    split <;> rfl
  | cond yes no =>
    simp only [Waiting.absolute, resumeValue, Value.truthy_absolute]
    rfl
  | part out parts =>
    simp only [Waiting.absolute, resumeValue, Value.display_absolute]
    rfl
  | assign op target =>
    have hlocals : (m.absoluteBelow H (.assign op target)).locals = absoluteLocals m.locals :=
      locals_absolute H m
    simp only [Waiting.absolute, resumeValue, hlocals]
    refine congrArg some ?_
    change (m.absolute H).ask _ _ = _
    refine ask_absolute ((assigned_absolute h _ _ _ _ m.locals op target v).bind fun v =>
      assignName_absolute h m.locals target v) fun s locals => ?_
    rw [setLocals_absolute]
    rfl
  | branch yes no =>
    simp only [Waiting.absolute, resumeValue, Value.truthy_absolute]
    cases v.truthy <;> rfl
  | loop var body =>
    simp only [Waiting.absolute, resumeValue, Value.items?_absolute, Value.typeName_absolute]
    cases v.items? <;> rfl
  | _ => rfl

theorem resumeFlow_absolute (H : σ → σ) (m : Machine σ) (flow : Flow) (w : Waiting) :
    (m.absoluteBelow H w).resumeFlow flow.absolute (w.absolute m.lineOffset) =
      (m.resumeFlow flow w).map (absolute H) := by
  cases w with
  | stmts line rest => cases flow <;> rfl
  | rounds var body items => cases flow <;> rfl
  | leave lineOffset =>
    -- the caller's offset is restored; in the rewritten moment it is none, as everywhere
    have hframes : (m.absolute H).frames.tail = (m.frames.tail).map fun frame =>
        frame.mapValues Value.absolute := List.map_tail.symm
    cases flow <;>
    · refine congrArg some ?_
      unfold absolute give
      rw [← hframes]
      rfl
  | _ => cases flow <;> rfl

theorem resume_absolute (h : env.Opaque H) (m : Machine σ) (w : Waiting) (a : Answer) :
    (m.absoluteBelow H w).resume env (w.absolute m.lineOffset) a.absolute =
      (m.resume env w a).map (absolute H) := by
  cases a with
  | value v =>
    have hvalue := resumeValue_absolute h m v w
    cases w <;> exact hvalue
  | flow flow =>
    have hflow := resumeFlow_absolute H m flow w
    cases w <;> exact hflow
  | values vs =>
    cases w with
    | list =>
      simp only [Waiting.absolute, Answer.absolute, resume, ← Value.absolute_list]
      rfl
    | _ => rfl
  | text s => cases w <;> rfl

theorem unwind_absolute (H : σ → σ) (m : Machine σ) (err : EvalError) (w : Waiting) :
    (m.absoluteBelow H w).unwind env err (w.absolute m.lineOffset) =
      (m.unwind env err w).absolute H := by
  cases w with
  | leave lineOffset =>
    unfold unwind absolute raise
    rw [List.map_tail]
    rfl
  | _ => rfl

/-- A rewritten moment is followed by the rewritten moment that follows. -/
theorem step_absolute (h : env.Opaque H) (m : Machine σ) :
    (m.absolute H).step env = (m.step env).map (absolute H) := by
  obtain ⟨control, waiting, frames, lineOffset, host⟩ := m
  cases control with
  | task t => exact congrArg some (start_absolute h ⟨.task t, waiting, frames, lineOffset, host⟩ t)
  | gave r =>
    cases waiting with
    | nil => cases r <;> rfl
    | cons w waiting =>
      cases r with
      | ok a => exact resume_absolute h ⟨.gave (.ok a), waiting, frames, lineOffset, host⟩ w a
      | error err =>
        exact congrArg some
          (unwind_absolute H ⟨.gave (.error err), waiting, frames, lineOffset, host⟩ err w)

/-- A run from a rewritten moment goes through the rewritten moments. -/
theorem steps_absolute (h : env.Opaque H) {m m' : Machine σ} (hm : Steps env m m') :
    Steps env (m.absolute H) (m'.absolute H) := by
  refine hm.lift (absolute H) fun m₁ m₂ hstep => ?_
  change (m₁.absolute H).step env = some (m₂.absolute H)
  rw [step_absolute h, hstep]
  rfl

end Machine

/-! ## Scopes -/

namespace Scope

/-- A run with the functions in its variables rewritten. -/
def Run.absolute (r : Run) : Run := { r with scope := r.scope.mapValues Value.absolute }

theorem write_absolute (scope : Scope) (name : String) (v : Value) :
    Scope.write (scope.mapValues Value.absolute) name v.absolute =
      (scope.write name v).mapValues Value.absolute := by
  unfold write write?
  rw [OrderedMap.get?_mapValues]
  cases scope.get? name with
  | none => exact (OrderedMap.mapValues_insert _ _ _ _).symm
  | some old =>
    simp only [Option.map_some, Value.same_absolute]
    split
    · rfl
    · exact (OrderedMap.mapValues_insert _ _ _ _).symm

/-- A scope takes functions as they are. -/
theorem opaque_env : Scope.env.Opaque Run.absolute where
  lookup name r := Prod.ext (OrderedMap.get?_mapValues _ _ _) rfl
  has name r := Prod.ext (OrderedMap.contains_mapValues _ _ _) rfl
  assign name v r :=
    Prod.ext rfl (congrArg (fun scope => { r with scope := scope }) (write_absolute r.scope name v))
  this _ := rfl
  member _ _ _ := rfl
  callIntrinsic _ _ _ := rfl
  line_intrinsic _ _ _ _ h := by
    cases h
    rfl
  interrupted _ := rfl
  freshSerial _ := rfl

end Scope
end ReactiveView
