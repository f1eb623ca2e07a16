import ReactiveView.Proofs.Lines.Machine

/-!
# The lines in errors

An error arises at one moment of a run (`Machine.Raises`), without a line, and everything that waits
lets it pass until the run ends. The first statement that it leaves attaches its line, and that is the
innermost one that was being executed (`Machine.executing?`); all others find a line there. Which
template line this is depends on the offset of the code at each statement that is left, and the end of
each call restores the offset of the caller. On rewritten moments nothing is left of this: there the
line is the one that the statement has (`Machine.unwinds`, `Invocation.error_iff`).
-/

namespace ReactiveView

open Interpreter

/-- The line of the innermost statement that waits for its end. -/
def Waiting.innermost? : List Waiting → Option Nat
  | [] => none
  | .stmts line _ :: _ => some line
  | _ :: waiting => innermost? waiting

namespace Machine

variable {σ α : Type} {env : Env (StateM σ)} {H : σ → σ} {m m' : Machine σ}

/-- The line of the innermost statement that is being executed, if there is one. -/
def executing? (m : Machine σ) : Option Nat := Waiting.innermost? m.waiting

/-- An error has arisen and is passed on. -/
def failed (m : Machine σ) : Bool :=
  match m.control with
  | .gave (.error _) => true
  | _ => false

/-- An error arises: work fails, or an answer cannot be used. -/
def Raises (env : Env (StateM σ)) (m : Machine σ) (err : EvalError) : Prop :=
  m.failed = false ∧ ∃ m', m.step env = some m' ∧ m'.control = .gave (.error err)

/-! ## Where an error arises -/

/-- If this moment fails, then without a line, and what waits is still there. -/
def FailsAbove (waiting : List Waiting) (m : Machine σ) : Prop :=
  ∀ err, m.control = .gave (.error err) → err.line = none ∧ m.waiting = waiting

theorem failsAbove_of_not_failed {waiting : List Waiting} (h : m.failed = false) :
    m.FailsAbove waiting := by
  intro err herr
  rw [failed, herr] at h
  cases h

theorem failsAbove_fail (m : Machine σ) (cause : EvalCause) :
    (m.fail cause).FailsAbove m.waiting := by
  rintro _ ⟨⟩
  exact ⟨rfl, rfl⟩

theorem failsAbove_ask {x : Eval (StateM σ) α} (hx : Bare x) {next : Machine σ → α → Machine σ}
    (hnext : ∀ m a, (next m a).failed = false) : (m.ask x next).FailsAbove m.waiting := by
  have hline := hx m.host
  revert hline
  unfold ask
  rcases x.run.run m.host with ⟨err | a, s⟩
  · rintro hline _ ⟨⟩
    exact ⟨hline err rfl, rfl⟩
  · exact fun _ => failsAbove_of_not_failed (hnext _ _)

theorem failsAbove_startExpr (h : env.Opaque H) (m : Machine σ) (e : Expr) :
    (m.startExpr env e).FailsAbove m.waiting := by
  cases e with
  | literal => exact failsAbove_of_not_failed rfl
  | name x => exact failsAbove_ask (lookupName_absolute h m.locals x).bare fun _ _ => rfl
  | this => exact failsAbove_ask (Rewrites.ask h.this).bare fun _ _ => rfl
  | _ => exact failsAbove_of_not_failed rfl

theorem failsAbove_startCall (h : env.Opaque H) (m : Machine σ) (args : List Value) (f : Value) :
    (m.startCall env args f).FailsAbove m.waiting := by
  cases f with
  | func f =>
    rw [startCall]
    split
    · exact failsAbove_fail m _
    · split
      · exact failsAbove_fail m _
      · exact failsAbove_of_not_failed rfl
  | builtin name =>
    exact failsAbove_ask (callBuiltin_rewrites h (callUser env 0) (callUser env 0) name args).bare
      fun _ _ => rfl
  | _ => exact failsAbove_fail m _

theorem failsAbove_start (h : env.Opaque H) (m : Machine σ) (t : Task) :
    (m.start env t).FailsAbove m.waiting := by
  cases t with
  | eval e => exact failsAbove_startExpr h m e
  | evalList es => cases es <;> exact failsAbove_of_not_failed rfl
  | evalParts out parts =>
    cases parts with
    | nil => exact failsAbove_of_not_failed rfl
    | cons part parts => cases part <;> exact failsAbove_of_not_failed rfl
  | call f args => exact failsAbove_startCall h m args f
  | block stmts =>
    cases stmts with
    | nil => exact failsAbove_of_not_failed rfl
    | cons s stmts =>
      exact failsAbove_ask (poll_absolute h (callValue env) (callValue env) m.lineOffset 0).bare
        fun _ _ => rfl
  | stmt s =>
    cases s with
    | function line name params body =>
      exact failsAbove_ask ((Bare.ask env.freshSerial).bind fun serial =>
        (assignName_absolute h m.locals name _).bare) fun _ _ => rfl
    | ret line value => cases value <;> exact failsAbove_of_not_failed rfl
    | _ => exact failsAbove_of_not_failed rfl
  | rounds var body items =>
    cases items with
    | nil => exact failsAbove_of_not_failed rfl
    | cons item items =>
      have hpoll := (poll_absolute h (callValue env) (callValue env) m.lineOffset 0).bare
      exact failsAbove_ask (hpoll.bind fun _ => (assignName_absolute h m.locals var item).bare)
        fun _ _ => rfl

theorem failsAbove_resumeValue (h : env.Opaque H) {v : Value} {w : Waiting}
    (hm : m.resumeValue env v w = some m') : m'.FailsAbove m.waiting := by
  cases w with
  | member field =>
    obtain rfl := Option.some.inj hm
    exact failsAbove_ask (memberOf_absolute h v field).bare fun _ _ => rfl
  | subscript target =>
    obtain rfl := Option.some.inj hm
    exact failsAbove_ask (Rewrites.lift (H := H) (Value.subscript_absolute target v)).bare
      fun _ _ => rfl
  | unary op =>
    obtain rfl := Option.some.inj hm
    exact failsAbove_ask (Rewrites.lift (H := H) (Value.applyUnary_absolute op v)).bare
      fun _ _ => rfl
  | binary op left =>
    obtain rfl := Option.some.inj hm
    exact failsAbove_ask (Rewrites.lift (H := H) (Value.applyBinary_absolute op left v)).bare
      fun _ _ => rfl
  | assign op target =>
    obtain rfl := Option.some.inj hm
    have hassigned := (assigned_absolute h (callValue env) (callValue env) m.lineOffset 0 m.locals op
      target v).bare
    exact failsAbove_ask (hassigned.bind fun v => (assignName_absolute h m.locals target v).bare)
      fun _ _ => rfl
  | logical op e =>
    simp only [resumeValue] at hm
    split at hm
    all_goals
      obtain rfl := Option.some.inj hm
      exact failsAbove_of_not_failed rfl
  | loop var body =>
    simp only [resumeValue] at hm
    split at hm
    · obtain rfl := Option.some.inj hm
      exact failsAbove_fail m _
    · obtain rfl := Option.some.inj hm
      exact failsAbove_of_not_failed rfl
  | key | args | right | cond | rest | part | branch | ret | drop =>
    obtain rfl := Option.some.inj hm
    exact failsAbove_of_not_failed rfl
  | _ => cases hm

theorem failsAbove_resumeFlow {flow : Flow} {w : Waiting} (hm : m.resumeFlow flow w = some m')
    (waiting : List Waiting) : m'.FailsAbove waiting := by
  cases w with
  | stmts | rounds | leave =>
    cases flow
    all_goals
      obtain rfl := Option.some.inj hm
      exact failsAbove_of_not_failed rfl
  | _ => cases hm

theorem failsAbove_resume (h : env.Opaque H) {w : Waiting} {a : Answer}
    (hm : m.resume env w a = some m') : m'.FailsAbove m.waiting := by
  cases a with
  | value v =>
    have hvalue : m.resumeValue env v w = some m' := by cases w <;> exact hm
    exact failsAbove_resumeValue h hvalue
  | flow flow =>
    have hflow : m.resumeFlow flow w = some m' := by cases w <;> exact hm
    exact failsAbove_resumeFlow hflow _
  | values vs =>
    cases w with
    | call | list | front =>
      obtain rfl := Option.some.inj hm
      exact failsAbove_of_not_failed rfl
    | _ => cases hm
  | text s =>
    cases w with
    | format =>
      obtain rfl := Option.some.inj hm
      exact failsAbove_of_not_failed rfl
    | _ => cases hm

/-- What a statement gives does not fail. -/
theorem failed_resume_stmts {line : Nat} {rest : List Stmt} {a : Answer}
    (hm : m.resume env (.stmts line rest) a = some m') : m'.failed = false := by
  cases a with
  | flow flow =>
    cases flow
    all_goals
      obtain rfl := Option.some.inj hm
      rfl
  | _ => cases hm

/-- An error has no line where it arises, and no statement is left by the step that fails. -/
theorem Raises.bare (h : env.Opaque H) {err : EvalError} (hm : m.Raises env err)
    (hstep : m.step env = some m') : err.line = none ∧ m'.executing? = m.executing? := by
  obtain ⟨hfirst, m'', hstep', herr⟩ := hm
  obtain rfl := Option.some.inj (hstep.symm.trans hstep')
  obtain ⟨control, waiting, frames, lineOffset, host⟩ := m
  cases control with
  | task t =>
    obtain rfl := Option.some.inj hstep
    obtain ⟨hline, hwaiting⟩ := failsAbove_start h _ t err herr
    exact ⟨hline, congrArg Waiting.innermost? hwaiting⟩
  | gave r =>
    cases r with
    | error e => cases hfirst
    | ok a =>
      cases waiting with
      | nil => cases hstep
      | cons w waiting =>
        obtain ⟨hline, hwaiting⟩ := failsAbove_resume h hstep err herr
        refine ⟨hline, (congrArg Waiting.innermost? hwaiting).trans ?_⟩
        cases w with
        | stmts line rest =>
          -- here a statement would be left, but taking its result does not fail
          have hgoing := failed_resume_stmts hstep
          rw [failed, herr] at hgoing
          cases hgoing
        | _ => rfl

/-! ## How an error passes what waits -/

/-- An error that takes no line is passed on as it is. -/
theorem passes {err : EvalError} (herr : ∀ line, err.atLine line = err) (env : Env (StateM σ))
    (host : σ) (waiting : List Waiting) (frames : List CallFrame) (lineOffset : Nat) :
    ∃ frames' lineOffset',
      Steps env ⟨.gave (.error err), waiting, frames, lineOffset, host⟩
        ⟨.gave (.error err), [], frames', lineOffset', host⟩ := by
  induction waiting generalizing frames lineOffset with
  | nil => exact ⟨frames, lineOffset, .refl⟩
  | cons w waiting ih =>
    cases w with
    | leave caller =>
      obtain ⟨frames', lineOffset', h⟩ := ih frames.tail caller
      exact ⟨frames', lineOffset', .head rfl h⟩
    | stmts line rest =>
      obtain ⟨frames', lineOffset', h⟩ := ih frames lineOffset
      exact ⟨frames', lineOffset', .head (congrArg (fun err => some (raise _ err)) (herr _)) h⟩
    | _ =>
      obtain ⟨frames', lineOffset', h⟩ := ih frames lineOffset
      exact ⟨frames', lineOffset', .head rfl h⟩

/-- An error without a line gets the one of the innermost statement that is left, in the template. -/
theorem unwinds {cause : EvalCause} (hcause : cause ≠ .interrupted) (env : Env (StateM σ))
    (host : σ) (waiting : List Waiting) (frames : List CallFrame) (lineOffset : Nat) :
    ∃ frames' lineOffset',
      Steps env ⟨.gave (.error ⟨cause, none⟩), waiting, frames, lineOffset, host⟩
        ⟨.gave (.error ⟨cause, Waiting.innermost? (Waiting.absoluteAll lineOffset waiting)⟩), [],
          frames', lineOffset', host⟩ := by
  induction waiting generalizing frames lineOffset with
  | nil => exact ⟨frames, lineOffset, .refl⟩
  | cons w waiting ih =>
    cases w with
    | leave caller =>
      obtain ⟨frames', lineOffset', h⟩ := ih frames.tail caller
      exact ⟨frames', lineOffset', .head rfl h⟩
    | stmts line rest =>
      -- from here on there is a line
      have hline (n : Nat) : EvalError.atLine n ⟨cause, none⟩ = ⟨cause, some n⟩ :=
        if_neg fun h => h.elim nofun hcause
      have hkept (n : Nat) : EvalError.atLine n ⟨cause, some (lineAt lineOffset line)⟩ =
          ⟨cause, some (lineAt lineOffset line)⟩ := if_pos (.inl rfl)
      obtain ⟨frames', lineOffset', h⟩ := passes hkept env host waiting frames lineOffset
      exact ⟨frames', lineOffset', .head (congrArg (fun err => some (raise _ err)) (hline _)) h⟩
    | _ =>
      obtain ⟨frames', lineOffset', h⟩ := ih frames lineOffset
      exact ⟨frames', lineOffset', .head rfl h⟩

/-- A run has one end only. -/
theorem Steps.last_unique {last last' : Machine σ} (h : Steps env m last)
    (hlast : last.step env = none) (h' : Steps env m last') (hlast' : last'.step env = none) :
    last = last' := by
  rcases Relation.ReflTransGen.cases_head (h.to_end hlast h') with heq | ⟨_, hstep, _⟩
  · exact heq.symm
  · cases hlast'.symm.trans hstep

/-- An interruption ends the run as it is. -/
theorem Steps.interrupted {last : Machine σ} (h : Steps env m last) (hlast : last.step env = none)
    (hm : m.control = .gave (.error ⟨.interrupted, none⟩)) :
    last.control = .gave (.error ⟨.interrupted, none⟩) := by
  obtain ⟨control, waiting, frames, lineOffset, host⟩ := m
  obtain rfl : control = _ := hm
  have hkept (n : Nat) : EvalError.atLine n ⟨.interrupted, none⟩ = ⟨.interrupted, none⟩ :=
    if_pos (.inr rfl)
  obtain ⟨_, _, hend⟩ := passes hkept env host waiting frames lineOffset
  rw [h.last_unique hlast hend rfl]

/-- Any other error ends the run with a line. -/
theorem Steps.unwound {last : Machine σ} {cause : EvalCause} (h : Steps env m last)
    (hlast : last.step env = none) (hm : m.control = .gave (.error ⟨cause, none⟩))
    (hcause : cause ≠ .interrupted) (H : σ → σ) :
    last.control = .gave (.error ⟨cause, (m.absolute H).executing?⟩) := by
  obtain ⟨control, waiting, frames, lineOffset, host⟩ := m
  obtain rfl : control = _ := hm
  obtain ⟨_, _, hend⟩ := unwinds hcause env host waiting frames lineOffset
  rw [h.last_unique hlast hend rfl]
  rfl

theorem failed_absolute (H : σ → σ) (m : Machine σ) : (m.absolute H).failed = m.failed := by
  obtain ⟨control, waiting, frames, lineOffset, host⟩ := m
  cases control with
  | task t => rfl
  | gave r => cases r <;> rfl

theorem Raises.absolute (h : env.Opaque H) {err : EvalError} (hm : m.Raises env err) :
    (m.absolute H).Raises env err := by
  obtain ⟨hgoing, m', hstep, herr⟩ := hm
  refine ⟨(failed_absolute H m).trans hgoing, m'.absolute H, ?_, ?_⟩
  · rw [step_absolute h, hstep]
    rfl
  · change m'.control.absolute m'.lineOffset = _
    rw [herr]
    rfl

/-- A run that ends in an error has a moment at which it arises. -/
theorem Steps.raises {last : Machine σ} (h : Steps env m last) (hm : m.failed = false)
    (hlast : last.failed = true) :
    ∃ m₁ m₂ err, Steps env m m₁ ∧ m₁.failed = false ∧ m₁.step env = some m₂ ∧
      m₂.control = .gave (.error err) ∧ Steps env m₂ last := by
  -- the induction is on the first step: either it fails, or the error arises later
  induction h using Relation.ReflTransGen.head_induction_on with
  | refl => cases hm.symm.trans hlast
  | head hstep hrest ih =>
    rename_i m₁ m₂
    cases hfailed : m₂.failed with
    | false =>
      obtain ⟨m₃, m₄, err, hsteps, hrest'⟩ := ih hfailed
      exact ⟨m₃, m₄, err, .head hstep hsteps, hrest'⟩
    | true =>
      unfold failed at hfailed
      split at hfailed
      · next err herr => exact ⟨m₁, m₂, err, .refl, hm, hstep, herr, hrest⟩
      · cases hfailed

end Machine

/-! ## Code that is entered -/

namespace Invocation

open Machine

variable {σ : Type} {env : Env (StateM σ)} {H : σ → σ}

/-- Code that is entered with its statements on the lines of the template. -/
def absolute : Invocation → Invocation
  | eval e => eval e
  | exec lineOffset stmts => exec 0 (Stmt.absoluteOf lineOffset stmts)
  | call f args => call f.absolute (args.map Value.absolute)

theorem machine_absolute (H : σ → σ) (invocation : Invocation) (host : σ) :
    invocation.absolute.machine (H host) = (invocation.machine host).absolute H := by
  cases invocation <;> rfl

/-- Rewritten code comes to the rewritten result. -/
theorem result_absolute (h : env.Opaque H) (invocation : Invocation) (host : σ) :
    (invocation.absolute.result env).run.run (H host) =
      (((invocation.result env).run.run host).1.map Answer.absolute,
        H ((invocation.result env).run.run host).2) := by
  have hsteps := steps_absolute h (steps_result env invocation host)
  rw [← machine_absolute] at hsteps
  have hlast := (steps_result env invocation.absolute (H host)).last_unique rfl hsteps rfl
  exact Prod.ext (Control.gave.inj (congrArg Machine.control hlast)) (congrArg Machine.host hlast)

/-- Code ends in an error if it arises at some moment, without a line, and its line is the one in the
template of the innermost statement that is executed then. -/
theorem error_iff (h : env.Opaque H) (invocation : Invocation) (host : σ) {err : EvalError}
    (hcause : err.cause ≠ .interrupted) :
    ((invocation.result env).run.run host).1 = .error err ↔
      ∃ m, Steps env (invocation.machine host) m ∧ m.Raises env ⟨err.cause, none⟩ ∧
        err.line = (m.absolute H).executing? := by
  have hresult := steps_result env invocation host
  -- the step that fails leaves no statement
  have hsame {m m' : Machine σ} {err' : EvalError} (hraises : m.Raises env err')
      (hstep : m.step env = some m') : (m'.absolute H).executing? = (m.absolute H).executing? := by
    refine ((hraises.absolute h).bare h ?_).2
    rw [step_absolute h, hstep]
    rfl
  constructor
  · intro herr
    rw [herr] at hresult
    obtain ⟨m, m', err', hm, hgoing, hstep, herr', hrest⟩ := hresult.raises rfl rfl
    have hraises : m.Raises env err' := ⟨hgoing, m', hstep, herr'⟩
    have hbare : err' = ⟨err'.cause, none⟩ := congrArg (EvalError.mk _) (hraises.bare h hstep).1
    rw [hbare] at herr' hraises
    -- an interruption would end the run as one, which it did not
    by_cases hinterrupted : err'.cause = .interrupted
    · rw [hinterrupted] at herr'
      have hend := hrest.interrupted rfl herr'
      exact absurd (congrArg EvalError.cause (Except.error.inj (Control.gave.inj hend))) hcause
    · have hend := Except.error.inj (Control.gave.inj (hrest.unwound rfl herr' hinterrupted H))
      rw [hend]
      exact ⟨m, hm, hraises, hsame hraises hstep⟩
  · rintro ⟨m, hm, hraises, hline⟩
    obtain ⟨-, m', hstep, herr⟩ := id hraises
    have hend := Control.gave.inj
      ((hresult.to_end rfl (hm.tail hstep)).unwound rfl herr hcause H)
    rw [hsame hraises hstep, ← hline] at hend
    exact hend

end Invocation
end ReactiveView
