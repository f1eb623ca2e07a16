import ReactiveView.Proofs.Termination.Results
import ReactiveView.Scope

/-!
# Code always ends

A call needs a place among the calls that are active, of which there are `Interpreter.callLimit`. So
the calls that may still be nested become fewer with each one that is entered, and calls come to their
results by induction on their number (`Machine.callsLead`). It is not the code that becomes smaller:
the body of a function comes from a value, and a function may call itself.

Whatever a machine does, no step makes more calls active than that (`Machine.Within.step`). Together
this is `Invocation.terminates`.
-/

namespace ReactiveView
namespace Machine

open Interpreter

variable {σ : Type} {env : Env (StateM σ)} {m m' : Machine σ}

/-! ## Calls -/

/-- As many calls as may be nested are active. -/
theorem startCall_of_limit (env : Env (StateM σ)) (h : callLimit ≤ m.frames.length)
    (f : Function) (args : List Value) : m.startCall env args (.func f) = m.fail .recursionLimit := by
  rw [startCall, if_pos h]

theorem startCall_of_arity (env : Env (StateM σ)) (h : m.frames.length < callLimit)
    {f : Function} {args : List Value} (harity : f.params.length < args.length) :
    m.startCall env args (.func f) = m.fail (.arity f.name f.params.length args.length) := by
  rw [startCall, if_neg (Nat.not_le.2 h), if_pos harity]

/-- A call that is made gets locals of its own. -/
theorem startCall_of_lt (env : Env (StateM σ)) (h : m.frames.length < callLimit)
    {f : Function} {args : List Value} (harity : args.length ≤ f.params.length) :
    m.startCall env args (.func f) =
      ⟨.task (.block f.body), .leave m.lineOffset :: m.waiting,
        bindParams f.params args .empty :: m.frames, f.lineOffset, m.host⟩ := by
  rw [startCall, if_neg (Nat.not_le.2 h), if_neg (Nat.not_lt.2 harity)]

/-- The end of a call drops its locals and restores the line. -/
theorem leads_leave {call : Caller (StateM σ)} {f : Function} {args : List Value}
    {frames : List CallFrame} (lineOffset : Nat)
    (hbody : Leads env (.task (.block f.body)) [] (bindParams f.params args .empty :: frames)
      f.lineOffset (execBlock ⟨env, call, f.lineOffset⟩ f.body
        (some (bindParams f.params args .empty))) (fun p => .flow p.1)
      (Writes (bindParams f.params args .empty :: frames)))
    (hlimit : frames.length < callLimit) (harity : args.length ≤ f.params.length) :
    Leads env (.task (.call (.func f) args)) [] frames lineOffset
      (do
        match ← execBlock ⟨env, call, f.lineOffset⟩ f.body
          (some (bindParams f.params args .empty)) with
        | (.result v, _) => return v
        | (.next, _) => return .null) .value (Stays frames) := by
  intro below host
  obtain ⟨frames', ⟨⟨-, htail⟩, -⟩, hreaches⟩ := hbody (.leave lineOffset :: below) host
  have hstart : Works env below ⟨.task (.call (.func f) args), [] ++ below, frames, lineOffset, host⟩
      ⟨.task (.block f.body), .leave lineOffset :: below, bindParams f.params args .empty :: frames,
        f.lineOffset, host⟩ := by
    exact ⟨(going_task _).busy below host, congrArg some (startCall_of_lt env hlimit harity)⟩
  refine ⟨frames, rfl, .head hstart (hreaches.of_cons.tail ?_)⟩
  refine ⟨(going_gave _ (.leave lineOffset)).busy below _, ?_⟩
  rw [Eval.bind_eq_both, Eval.run_both]
  rcases (execBlock ⟨env, call, f.lineOffset⟩ f.body
    (some (bindParams f.params args .empty))).run.run host with ⟨_ | ⟨_ | _, _⟩, host'⟩
  all_goals
    obtain rfl : frames'.tail = frames := htail
    rfl

/-- Calls are led to their results, by induction on the number of calls that may still be nested. -/
theorem callsLead (env : Env (StateM σ)) (depth : Nat) (frames : List CallFrame)
    (h : frames.length + depth = callLimit) :
    CallsLead env (callWith env (callUser env depth)) frames := by
  induction depth generalizing frames with
  | zero =>
    intro f args lineOffset
    cases f with
    | func f =>
      refine (leads_throw ⟨.recursionLimit, none⟩ rfl).step (going_task _) fun _ _ => ?_
      exact congrArg some (startCall_of_limit env (Nat.le_of_eq h.symm) f args)
    | builtin name => exact leads_ask (going_task _) fun _ _ => rfl
    | _ => exact (leads_throw _ rfl).step (going_task _) fun _ _ => rfl
  | succ depth ih =>
    intro f args lineOffset
    cases f with
    | func f =>
      have hlimit : frames.length < callLimit := by omega
      show Leads env _ _ _ _ (callUser env (depth + 1) f args) _ _
      rw [callUser]
      split
      · next harity =>
        refine (leads_throw _ rfl).step (going_task _) fun _ _ => ?_
        exact congrArg some (startCall_of_arity env hlimit harity)
      · next harity =>
        have hcall (frames' : List CallFrame) (h' : frames'.length = frames.length + 1) :
            CallsLead env (callWith env (callUser env depth)) frames' := ih frames' (by omega)
        have hbody := leads_block hcall f.lineOffset f.body
          (bindParams f.params args .empty :: frames) rfl
        exact leads_leave lineOffset hbody hlimit (Nat.not_lt.1 harity)
    | builtin name => exact leads_ask (going_task _) fun _ _ => rfl
    | _ => exact (leads_throw _ rfl).step (going_task _) fun _ _ => rfl

/-! ## How many calls are active -/

/-- Not more calls are active than may be nested. -/
def Within (m : Machine σ) : Prop := m.frames.length ≤ callLimit

/-- Asking the host makes no call. -/
theorem Within.ask {α : Type} {x : Eval (StateM σ) α} {next : Machine σ → α → Machine σ}
    (h : m.Within) (hnext : ∀ (m : Machine σ) a, m.Within → (next m a).Within) :
    (m.ask x next).Within := by
  unfold Machine.ask
  split
  · exact hnext _ _ h
  · exact h

theorem Within.setLocals (h : m.Within) (locals : Locals) : (m.setLocals locals).Within := by
  unfold Machine.setLocals Within setInnermost
  cases locals with
  | none => exact h
  | some frame =>
    have hlength : m.frames.length ≤ callLimit := h
    have hpos : 1 ≤ callLimit := by decide
    simp only [List.length_cons, List.length_tail]
    omega

theorem Within.startExpr (h : m.Within) (e : Expr) : (m.startExpr env e).Within := by
  cases e with
  | name _ | this => exact h.ask fun _ _ h => h
  | _ => exact h

theorem Within.startStmt (h : m.Within) (s : Stmt) : (m.startStmt env s).Within := by
  cases s with
  | function => exact h.ask fun _ _ h => h.setLocals _
  | ret _ value => cases value <;> exact h
  | _ => exact h

/-- A call takes a place that is free. -/
theorem Within.startCall (h : m.Within) (f : Value) (args : List Value) :
    (m.startCall env args f).Within := by
  cases f with
  | func f =>
    by_cases hlimit : callLimit ≤ m.frames.length
    · rw [startCall_of_limit env hlimit]
      exact h
    by_cases harity : f.params.length < args.length
    · rw [startCall_of_arity env (Nat.not_le.1 hlimit) harity]
      exact h
    · rw [startCall_of_lt env (Nat.not_le.1 hlimit) (Nat.not_lt.1 harity)]
      exact Nat.not_le.1 hlimit
  | builtin name => exact h.ask fun _ _ h => h
  | _ => exact h

theorem Within.start (h : m.Within) (t : Task) : (m.start env t).Within := by
  cases t with
  | eval e => exact h.startExpr e
  | evalList es => cases es <;> exact h
  | evalParts out parts =>
    cases parts with
    | nil => exact h
    | cons part parts => cases part <;> exact h
  | call f args => exact h.startCall f args
  | block stmts =>
    cases stmts with
    | nil => exact h
    | cons s stmts => exact h.ask fun _ _ h => h
  | stmt s => exact h.startStmt s
  | rounds var body items =>
    cases items with
    | nil => exact h
    | cons item items => exact h.ask fun _ _ h => h.setLocals _

theorem Within.resumeValue (h : m.Within) {v : Value} {w : Waiting}
    (hm : m.resumeValue env v w = some m') : m'.Within := by
  cases w with
  | member | subscript | unary | binary =>
    obtain rfl := Option.some.inj hm
    exact h.ask fun _ _ h => h
  | assign =>
    obtain rfl := Option.some.inj hm
    exact h.ask fun _ _ h => h.setLocals _
  | logical op e =>
    simp only [Machine.resumeValue] at hm
    split at hm
    all_goals
      obtain rfl := Option.some.inj hm
      exact h
  | loop var body =>
    simp only [Machine.resumeValue] at hm
    split at hm
    all_goals
      obtain rfl := Option.some.inj hm
      exact h
  | key | args | right | cond | rest | part | branch | ret | drop =>
    obtain rfl := Option.some.inj hm
    exact h
  | _ => cases hm

theorem Within.resumeFlow (h : m.Within) {flow : Flow} {w : Waiting}
    (hm : m.resumeFlow flow w = some m') : m'.Within := by
  cases w with
  | stmts | rounds =>
    cases flow
    all_goals
      obtain rfl := Option.some.inj hm
      exact h
  | leave =>
    have htail : m.frames.tail.length ≤ m.frames.length := by
      rw [List.length_tail]
      omega
    cases flow
    all_goals
      obtain rfl := Option.some.inj hm
      exact Nat.le_trans htail h
  | _ => cases hm

theorem Within.resume (h : m.Within) {w : Waiting} {a : Answer}
    (hm : m.resume env w a = some m') : m'.Within := by
  cases a with
  | value v => exact h.resumeValue hm
  | flow flow => exact h.resumeFlow hm
  | values vs =>
    cases w with
    | call | list | front =>
      obtain rfl := Option.some.inj hm
      exact h
    | _ => cases hm
  | text s =>
    cases w with
    | format =>
      obtain rfl := Option.some.inj hm
      exact h
    | _ => cases hm

theorem Within.unwind (h : m.Within) (err : EvalError) (w : Waiting) :
    (m.unwind env err w).Within := by
  cases w with
  | leave =>
    have htail : m.frames.tail.length ≤ m.frames.length := by
      rw [List.length_tail]
      omega
    exact Nat.le_trans htail h
  | _ => exact h

/-- No step makes more calls active than may be nested. -/
theorem Within.step (h : m.Within) (hm : m.step env = some m') : m'.Within := by
  obtain ⟨control, waiting, frames, lineOffset, host⟩ := m
  cases control with
  | task t =>
    obtain rfl := Option.some.inj hm
    exact h.start t
  | gave r =>
    cases waiting with
    | nil => cases hm
    | cons w waiting =>
      have h' : Within (⟨.gave r, waiting, frames, lineOffset, host⟩ : Machine σ) := h
      cases r with
      | ok a => exact h'.resume hm
      | error err =>
        obtain rfl := Option.some.inj hm
        exact h'.unwind err w

/-! ## Runs -/

/-- What a machine comes to. -/
abbrev Steps (env : Env (StateM σ)) : Machine σ → Machine σ → Prop :=
  Relation.ReflTransGen fun m m' => m.step env = some m'

theorem Within.steps (h : m.Within) (hm : Steps env m m') : m'.Within := by
  induction hm with
  | refl => exact h
  | tail _ hstep ih => exact ih.step hstep

theorem Reaches.steps {below : List Waiting} (h : Reaches env below m m') : Steps env m m' :=
  Relation.ReflTransGen.mono (fun _ _ hworks => hworks.2) _ _ h

/-- A machine that comes to an end comes to it from everywhere on its way. -/
theorem Steps.to_end {m'' : Machine σ} (hend : Steps env m m'') (hlast : m''.step env = none)
    (h : Steps env m m') : Steps env m' m'' := by
  have hunique : Relator.RightUnique fun m m' : Machine σ => m.step env = some m' :=
    fun _ _ _ h h' => Option.some.inj (h.symm.trans h')
  rcases Relation.ReflTransGen.total_of_right_unique hunique hend h with h | h
  · rcases Relation.ReflTransGen.cases_head h with rfl | ⟨_, hstep, _⟩
    · exact .refl
    · rw [hlast] at hstep
      cases hstep
  · exact h

end Machine

namespace Invocation

open Interpreter Machine

variable {σ : Type} {env : Env (StateM σ)}

/-- Entered code comes to what the interpreter gives. -/
theorem steps_result (env : Env (StateM σ)) (invocation : Invocation) (host : σ) :
    Steps env (invocation.machine host)
      ⟨.gave ((invocation.result env).run.run host).1, [], [], invocation.lineOffset,
        ((invocation.result env).run.run host).2⟩ := by
  have hcall : CallsLead env (callValue env) [] := callsLead env callLimit [] rfl
  cases invocation with
  | eval e =>
    obtain ⟨_, rfl, h⟩ := leads_eval hcall 0 e [] host
    rw [result, Eval.run_map]
    exact h.steps
  | exec lineOffset stmts =>
    have hcalls (frames : List CallFrame) (h : frames.length = 0) :
        CallsLead env (callValue env) frames := by
      rwa [List.length_eq_zero_iff.1 h]
    obtain ⟨frames, ⟨⟨hnone, -⟩, -⟩, h⟩ := leads_block hcalls lineOffset stmts [] rfl [] host
    obtain rfl : frames = [] := List.length_eq_zero_iff.1 hnone
    have hresult : (result env (exec lineOffset stmts)).run.run host =
        (((execBlock ⟨env, callValue env, lineOffset⟩ stmts none).run.run host).1.map
          (fun p => .flow p.1),
          ((execBlock ⟨env, callValue env, lineOffset⟩ stmts none).run.run host).2) := by
      rw [result, Interpreter.exec, Eval.bind_eq_both, Eval.run_both, Eval.bind_eq_both,
        Eval.run_both]
      rcases (execBlock ⟨env, callValue env, lineOffset⟩ stmts none).run.run host with
        ⟨_ | ⟨_ | _, _⟩, _⟩ <;> rfl
    rw [hresult]
    exact h.steps
  | call f args =>
    obtain ⟨_, rfl, h⟩ := hcall f args 0 [] host
    rw [result, Eval.run_map]
    exact h.steps

/-- Code always ends. However it is entered, and whatever functions the scope holds, the machine comes
from every moment to what the interpreter gives, and stops there. At every moment at most `callLimit`
calls are active; a function that is called while so many are active is not entered, and the call
fails. Every call comes to a value or an error, before which nothing of what waited is touched, and
after which the locals of the active calls and the line are those from before. -/
theorem terminates (invocation : Invocation) (host : Scope.Run) :
    let last : Machine Scope.Run :=
      ⟨.gave ((invocation.result Scope.env).run.run host).1, [], [], invocation.lineOffset,
        ((invocation.result Scope.env).run.run host).2⟩
    last.step Scope.env = none ∧
    ∀ m, Steps Scope.env (invocation.machine host) m →
      Steps Scope.env m last ∧
      m.frames.length ≤ callLimit ∧
      ∀ f args, m.control = .task (.call f args) →
        (∀ g, f = .func g → m.frames.length = callLimit →
          m.step Scope.env = some (m.fail .recursionLimit)) ∧
        ∃ (r : Except EvalError Value) (host' : Scope.Run),
          Reaches Scope.env m.waiting m
            ⟨.gave (r.map .value), m.waiting, m.frames, m.lineOffset, host'⟩ := by
  intro last
  refine ⟨rfl, fun m hm => ⟨(steps_result Scope.env invocation host).to_end rfl hm, ?_⟩⟩
  have hwithin : m.Within := Within.steps (Nat.zero_le _) hm
  refine ⟨hwithin, fun f args hcontrol => ?_⟩
  obtain ⟨control, waiting, frames, lineOffset, host'⟩ := m
  obtain rfl : control = .task (.call f args) := hcontrol
  constructor
  · rintro g rfl hlimit
    exact congrArg some (startCall_of_limit Scope.env (Nat.le_of_eq hlimit.symm) g args)
  · have hdepth : frames.length + (callLimit - frames.length) = callLimit :=
      Nat.add_sub_cancel' hwithin
    obtain ⟨_, rfl, h⟩ := callsLead Scope.env _ frames hdepth f args lineOffset waiting host'
    exact ⟨_, _, h⟩

/-- A function that does nothing but call itself reaches the limit. -/
example :
    (match ((Interpreter.exec Scope.env 0
        [.function 1 "f" [] [.ret 1 (some (.call (.name "f") []))],
          .expr 2 (.call (.name "f") [])]).run.run { scope := .empty }).1 with
      | .error err => some err
      | .ok _ => none) = some ⟨.recursionLimit, some 1⟩ := by
  decide +kernel

end Invocation
end ReactiveView
