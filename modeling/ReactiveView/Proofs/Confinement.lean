import ReactiveView.Proofs.Simulation
import ReactiveView.Proofs.Termination.Calls

/-!
# Calls create no variables

An assignment in a function writes a local unless the scope has the variable already, so no call adds a
variable to a scope or removes one (`Interpreter.callsKeep`). Statements outside of calls may add
variables; these are the targets of what is executed while no call is active (`Invocation.adds_targets_only`).

For calls the proof follows the recursion of the interpreter: what is carried along is that the running
function has locals. For statements outside of calls the machine shows when a variable is added: one step
adds at most the variable that it writes (`Machine.Creates.step`), and the run is an induction over steps.
-/

namespace ReactiveView

/-! ## Writing a variable -/

/-- Writing a variable that is there leaves the variables the same ones in the same order. -/
theorem Scope.keys_write (scope : Scope) (name : String) (v : Value) :
    (scope.write name v).keys =
      if name ∈ scope.keys then scope.keys else scope.keys ++ [name] := by
  have hinsert := OrderedMap.keys_insert scope name v
  unfold Scope.write write?
  cases hold : scope.get? name with
  | none => exact hinsert
  | some old =>
    dsimp only
    split
    · have hmem : name ∈ scope.keys := by
        rw [← OrderedMap.contains_iff, OrderedMap.contains, hold]
        rfl
      rw [if_pos hmem]
      rfl
    · exact hinsert

namespace Interpreter

open Scope (Run)

/-- Writing a name adds a variable only outside of functions. -/
theorem keys_assignName (locals : Locals) (name : String) (v : Value) (r : Run) :
    ((assignName Scope.env locals name v).run.run r).2.scope.keys = r.scope.keys ∨
      locals = none ∧
        ((assignName Scope.env locals name v).run.run r).2.scope.keys = r.scope.keys ++ [name] := by
  cases locals with
  | none =>
    change (r.scope.write name v).keys = _ ∨ _ ∧ (r.scope.write name v).keys = _
    rw [Scope.keys_write]
    split
    · exact .inl rfl
    · exact .inr ⟨rfl, rfl⟩
  | some frame =>
    left
    by_cases hlocal : frame.contains name
    · rw [assignName, if_pos hlocal]
      rfl
    · rw [assignName, if_neg hlocal, Eval.bind_eq_both, Eval.run_both, Eval.run_ask]
      -- the scope is written if it has the variable
      cases hhas : r.scope.contains name with
      | false =>
        have hhas : ((Scope.env.has name).run r).1 = false := hhas
        simp only [hhas]
        rfl
      | true =>
        have hmem : name ∈ r.scope.keys := (OrderedMap.contains_iff _ _).1 hhas
        have hhas : ((Scope.env.has name).run r).1 = true := hhas
        simp only [hhas]
        change (r.scope.write name v).keys = _
        rw [Scope.keys_write, if_pos hmem]

/-! ## Calls -/

/-- An evaluation leaves the variables of a scope the same ones in the same order, and its value satisfies
`post`. -/
def Keeps {α : Type} (post : α → Prop) (x : Eval (StateM Run) α) : Prop :=
  ∀ r : Run, (x.run.run r).2.scope.keys = r.scope.keys ∧ ∀ a, (x.run.run r).1 = .ok a → post a

namespace Keeps

variable {α β : Type} {post : α → Prop} {post' : β → Prop} {x : Eval (StateM Run) α}

theorem pure {a : α} (h : post a) : Keeps post (Pure.pure a) := by
  refine fun r => ⟨rfl, ?_⟩
  rintro _ ⟨⟩
  exact h

theorem throw (err : EvalError) : Keeps post (MonadExcept.throw err) := fun _ => ⟨rfl, nofun⟩

theorem lift (r : Except EvalCause α) : Keeps (fun _ => True) (Interpreter.lift r) := by
  cases r with
  | ok a => exact .pure trivial
  | error cause => exact .throw _

theorem both {f : α → Eval (StateM Run) β} {g : EvalError → Eval (StateM Run) β}
    (hx : Keeps post x) (hf : ∀ a, post a → Keeps post' (f a)) (hg : ∀ err, Keeps post' (g err)) :
    Keeps post' (x.both f g) := by
  intro r
  obtain ⟨hkeys, hpost⟩ := hx r
  rw [Eval.run_both]
  rcases hrun : x.run.run r with ⟨err | a, r'⟩
  · rw [hrun] at hkeys
    exact ⟨(hg err r').1.trans hkeys, (hg err r').2⟩
  · rw [hrun] at hkeys hpost
    exact ⟨(hf a (hpost a rfl) r').1.trans hkeys, (hf a (hpost a rfl) r').2⟩

theorem bind {f : α → Eval (StateM Run) β} (hx : Keeps post x) (hf : ∀ a, post a → Keeps post' (f a)) :
    Keeps post' (x >>= f) := by
  rw [Eval.bind_eq_both]
  exact hx.both hf .throw

theorem withLine (line : Nat) (hx : Keeps post x) : Keeps post (withLine line x) := by
  rw [Eval.withLine_eq_both]
  exact hx.both (fun _ => .pure) fun err => .throw _

end Keeps

/-- The scope is asked something that does not concern its variables. -/
theorem keeps_ask {y : StateM Run α} (h : ∀ r : Run, (y.run r).2.scope.keys = r.scope.keys) :
    Keeps (fun _ => True) (Interpreter.ask y) := fun r => ⟨h r, fun _ _ => trivial⟩

/-- Keeping the variables, as a simulation that looks at one side only. -/
def keeping : Simulation (StateM Run) (StateM Run) where
  rel x _ := Keeps (fun _ => True) x
  rel_pure _ := .pure trivial
  rel_throw err := .throw err
  rel_bind hx hf := hx.bind fun a _ => hf a
  rel_withLine line _ _ hx := hx.withLine line

/-- What expressions ask of a scope leaves its variables. -/
theorem env_keeping : Scope.env.Looks keeping (fun _ => True) Scope.env where
  lookup _ _ := fun _ => ⟨rfl, fun _ _ => trivial⟩
  this := fun _ => ⟨rfl, fun _ _ => trivial⟩
  member _ _ := fun _ => ⟨rfl, fun _ _ => trivial⟩
  isIntrinsic _ := rfl

/-- Calls leave the variables of a scope. -/
abbrev CallsKeep (call : Caller (StateM Run)) : Prop := CallersSimulated keeping call call

section

variable {call : Caller (StateM Run)} (hcall : CallsKeep call) {code : Code (StateM Run)}

include hcall in
theorem keeps_eval (locals : Locals) (lineOffset : Nat) (e : Expr) :
    Keeps (fun _ => True) (Code.eval ⟨Scope.env, call, lineOffset⟩ locals e) :=
  evalWith_simulated env_keeping hcall locals e fun _ _ => trivial

theorem keeps_poll (call : Caller (StateM Run)) (lineOffset : Nat) :
    Keeps (fun _ => True) (Code.poll ⟨Scope.env, call, lineOffset⟩) := by
  refine (keeps_ask (y := Scope.env.interrupted) fun _ => rfl).bind fun stop _ => ?_
  cases stop
  · exact .pure trivial
  · exact .throw _

theorem keeps_assigned (call : Caller (StateM Run)) (lineOffset : Nat) (locals : Locals)
    (op : AssignOp) (target : String) (v : Value) :
    Keeps (fun _ => True) (Code.assigned ⟨Scope.env, call, lineOffset⟩ locals op target v) := by
  have hlookup : Keeps (fun _ => True) (lookupName Scope.env locals target) :=
    lookupName_simulated env_keeping locals target trivial
  cases op with
  | set => exact .pure trivial
  | add => exact hlookup.bind fun _ _ => .lift _
  | sub => exact hlookup.bind fun _ _ => .lift _

/-- A function that writes a name has locals, before and after. -/
theorem keeps_assignName (frame : OrderedMap String Value) (name : String) (v : Value) :
    Keeps (·.isSome = true) (assignName Scope.env (some frame) name v) := by
  refine fun r => ⟨?_, fun locals h => ?_⟩
  · exact (keys_assignName (some frame) name v r).resolve_right fun h => nomatch h.1
  · exact Machine.isSome_assignName (Prod.ext h rfl)

/-- How statements in a function end: the function still has locals. -/
abbrev Ends (p : Flow × Locals) : Prop := p.2.isSome = true

theorem keeps_eachItem {lineOffset : Nat} (var : String)
    {body : Locals → Eval (StateM Run) (Flow × Locals)}
    (hbody : ∀ frame, Keeps Ends (body (some frame))) (items : List Value)
    (frame : OrderedMap String Value) :
    Keeps Ends (eachItem ⟨Scope.env, call, lineOffset⟩ var body items (some frame)) := by
  induction items generalizing frame with
  | nil => exact .pure rfl
  | cons item items ih =>
    refine (keeps_poll call lineOffset).bind fun _ _ => ?_
    refine (keeps_assignName frame var item).bind fun locals hlocals => ?_
    obtain ⟨frame, rfl⟩ := Option.isSome_iff_exists.1 hlocals
    refine (hbody frame).bind fun p hp => ?_
    obtain ⟨flow, locals⟩ := p
    obtain ⟨frame, rfl⟩ := Option.isSome_iff_exists.1 hp
    cases flow with
    | next => exact ih frame
    | result v => exact .pure rfl

mutual

/-- Statements of a function leave the variables of a scope. -/
theorem keeps_block (hcall : CallsKeep call) (lineOffset : Nat) : ∀ (stmts : List Stmt)
    (frame : OrderedMap String Value),
    Keeps Ends (execBlock ⟨Scope.env, call, lineOffset⟩ stmts (some frame))
  | [], _ => .pure rfl
  | stmt :: stmts, frame => by
    refine (keeps_poll call lineOffset).bind fun _ _ => ?_
    refine ((keeps_stmt hcall lineOffset stmt frame).withLine _).bind fun p hp => ?_
    obtain ⟨flow, locals⟩ := p
    obtain ⟨frame, rfl⟩ := Option.isSome_iff_exists.1 hp
    cases flow with
    | next => exact keeps_block hcall lineOffset stmts frame
    | result v => exact .pure rfl
termination_by structural stmts => stmts

/-- So does each statement. -/
theorem keeps_stmt (hcall : CallsKeep call) (lineOffset : Nat) : ∀ (stmt : Stmt)
    (frame : OrderedMap String Value),
    Keeps Ends (execStmt ⟨Scope.env, call, lineOffset⟩ stmt (some frame))
  | .assign _ target op value, frame =>
    (keeps_eval hcall _ lineOffset value).bind fun v _ =>
      (keeps_assigned call lineOffset _ op target v).bind fun v _ =>
        (keeps_assignName frame target v).bind fun _ hlocals => .pure hlocals
  | .function _ name _ _, frame =>
    (keeps_ask (y := Scope.env.freshSerial) fun _ => rfl).bind fun _ _ =>
      (keeps_assignName frame name _).bind fun _ hlocals => .pure hlocals
  | .branch _ condition yes no, frame => by
    refine (keeps_eval hcall _ lineOffset condition).bind fun v _ => ?_
    cases v.truthy
    · exact keeps_block hcall lineOffset no frame
    · exact keeps_block hcall lineOffset yes frame
  | .loop _ var iterable body, frame => by
    refine (keeps_eval hcall _ lineOffset iterable).bind fun v _ => ?_
    cases v.items? with
    | none => exact .throw _
    | some items =>
      exact keeps_eachItem var (keeps_block hcall lineOffset body) items frame
  | .ret _ value, frame => by
    cases value with
    | none => exact .pure rfl
    | some e => exact (keeps_eval hcall _ lineOffset e).bind fun _ _ => .pure rfl
  | .expr _ e, frame => (keeps_eval hcall _ lineOffset e).bind fun _ _ => .pure rfl
termination_by structural stmt => stmt

end

end

/-- Calls of values leave the variables if calls of functions do. -/
theorem callsKeep_callWith {user : Function → List Value → Eval (StateM Run) Value}
    (huser : ∀ f args, Keeps (fun _ => True) (user f args)) : CallsKeep (callWith Scope.env user) :=
  callWith_simulated (fun _ _ _ => ⟨rfl, fun _ _ => trivial⟩) huser

/-- Calling a function, by induction on the number of calls that may still be nested. -/
theorem keeps_callUser (depth : Nat) :
    ∀ f args, Keeps (fun _ => True) (callUser Scope.env depth f args) := by
  induction depth with
  | zero => exact fun _ _ => .throw _
  | succ depth ih =>
    intro f args
    simp only [callUser]
    split
    · exact .throw _
    · refine (keeps_block (callsKeep_callWith ih) f.lineOffset f.body _).bind fun p _ => ?_
      obtain ⟨flow, _⟩ := p
      cases flow with
      | next => exact .pure trivial
      | result v => exact .pure trivial

/-- No call adds a variable to a scope or removes one. -/
theorem callsKeep : CallsKeep (callValue Scope.env) :=
  callsKeep_callWith (keeps_callUser callLimit)

end Interpreter

/-! ## Statements outside of calls -/

namespace Machine

open Interpreter
open Scope (Run)

/-- The variable that the next step writes, if it writes one: the target of an assignment, the name of a
function, or the variable of a loop. -/
def target? {σ : Type} (m : Machine σ) : Option String :=
  match m.control, m.waiting with
  | .task (.stmt (.function _ name _ _)), _ => some name
  | .task (.rounds var _ (_ :: _)), _ => some var
  | .gave (.ok (.value _)), .assign _ target :: _ => some target
  | _, _ => none

variable {m m' : Machine Run} {α : Type}

/-- From one moment to another at most one variable was added, the one that `name?` says, while no call
was active. -/
def Creates (name? : Option String) (m m' : Machine Run) : Prop :=
  m'.host.scope.keys = m.host.scope.keys ∨
    m.frames = [] ∧ ∃ k, name? = some k ∧ m'.host.scope.keys = m.host.scope.keys ++ [k]

/-- The host is as the question leaves it. -/
theorem host_ask {x : Eval (StateM Run) α} {next : Machine Run → α → Machine Run}
    (hnext : ∀ (m : Machine Run) a, (next m a).host = m.host) :
    (m.ask x next).host = (x.run.run m.host).2 := by
  unfold Machine.ask
  rcases x.run.run m.host with ⟨_ | a, host⟩
  · rfl
  · exact hnext _ _

theorem keys_ask {x : Eval (StateM Run) α} {next : Machine Run → α → Machine Run}
    {post : α → Prop} (hx : Keeps post x) (hnext : ∀ (m : Machine Run) a, (next m a).host = m.host) :
    (m.ask x next).host.scope.keys = m.host.scope.keys := by
  rw [host_ask hnext]
  exact (hx m.host).1

/-- A step that writes a variable with what an evaluation comes to. -/
theorem creates_assignName {x : Eval (StateM Run) α} {post : α → Prop} (hx : Keeps post x)
    (v : α → Value) (name : String) {next : Machine Run → Locals → Machine Run}
    (hnext : ∀ (m : Machine Run) a, (next m a).host = m.host) :
    Creates (some name) m
      (m.ask (x >>= fun a => assignName Scope.env m.locals name (v a)) next) := by
  unfold Creates
  rw [host_ask hnext, Eval.bind_eq_both, Eval.run_both]
  have hkeys := (hx m.host).1
  rcases hrun : x.run.run m.host with ⟨err | a, r⟩
  · rw [hrun] at hkeys
    exact .inl hkeys
  · rw [hrun] at hkeys
    rcases keys_assignName m.locals name (v a) r with hsame | ⟨hlocals, hnew⟩
    · exact .inl (hsame.trans hkeys)
    · exact .inr ⟨List.head?_eq_none_iff.1 hlocals, name, rfl, hnew.trans (congrArg (· ++ [name]) hkeys)⟩

theorem keys_startExpr (e : Expr) :
    (m.startExpr Scope.env e).host.scope.keys = m.host.scope.keys := by
  cases e with
  | name x =>
    exact keys_ask (lookupName_simulated env_keeping m.locals x trivial) fun _ _ => rfl
  | this => exact keys_ask env_keeping.this fun _ _ => rfl
  | _ => rfl

theorem keys_startCall (f : Value) (args : List Value) :
    (m.startCall Scope.env args f).host.scope.keys = m.host.scope.keys := by
  cases f with
  | func f =>
    rw [Machine.startCall]
    split
    · rfl
    · split <;> rfl
  | builtin name =>
    exact keys_ask (callsKeep_callWith (keeps_callUser 0) (.builtin name) args) fun _ _ => rfl
  | _ => rfl

theorem Creates.start (t : Task) :
    Creates (target? { m with control := .task t }) m (m.start Scope.env t) := by
  cases t with
  | eval e => exact .inl (keys_startExpr e)
  | evalList es => cases es <;> exact .inl rfl
  | evalParts out parts =>
    cases parts with
    | nil => exact .inl rfl
    | cons part parts => cases part <;> exact .inl rfl
  | call f args => exact .inl (keys_startCall f args)
  | block stmts =>
    cases stmts with
    | nil => exact .inl rfl
    | cons s stmts => exact .inl (keys_ask (keeps_poll _ m.lineOffset) fun _ _ => rfl)
  | stmt s =>
    cases s with
    | function line name params body =>
      exact creates_assignName (keeps_ask (y := Scope.env.freshSerial) fun _ => rfl) _ name
        fun _ _ => rfl
    | ret line value => cases value <;> exact .inl rfl
    | _ => exact .inl rfl
  | rounds var body items =>
    cases items with
    | nil => exact .inl rfl
    | cons item items =>
      exact creates_assignName (keeps_poll _ m.lineOffset) (fun _ => item) var fun _ _ => rfl

theorem Creates.resumeValue {v : Value} {w : Waiting}
    (h : m.resumeValue Scope.env v w = some m') :
    Creates (target? { m with control := .gave (.ok (.value v)), waiting := w :: m.waiting }) m m' := by
  cases w with
  | member field =>
    obtain rfl := Option.some.inj h
    exact .inl (keys_ask (memberOf_simulated env_keeping v field) fun _ _ => rfl)
  | subscript | unary | binary =>
    obtain rfl := Option.some.inj h
    exact .inl (keys_ask (Keeps.lift _) fun _ _ => rfl)
  | assign op target =>
    obtain rfl := Option.some.inj h
    exact creates_assignName (keeps_assigned _ m.lineOffset m.locals op target v) id target
      fun _ _ => rfl
  | logical op e =>
    simp only [Machine.resumeValue] at h
    split at h
    all_goals
      obtain rfl := Option.some.inj h
      exact .inl rfl
  | loop var body =>
    simp only [Machine.resumeValue] at h
    split at h
    all_goals
      obtain rfl := Option.some.inj h
      exact .inl rfl
  | key | args | right | cond | rest | part | branch | ret | drop =>
    obtain rfl := Option.some.inj h
    exact .inl rfl
  | _ => cases h

theorem host_resumeFlow {flow : Flow} {w : Waiting} (h : m.resumeFlow flow w = some m') :
    m'.host = m.host := by
  cases w with
  | stmts | rounds | leave =>
    cases flow
    all_goals
      obtain rfl := Option.some.inj h
      rfl
  | _ => cases h

theorem Creates.resume {w : Waiting} {a : Answer} (h : m.resume Scope.env w a = some m') :
    Creates (target? { m with control := .gave (.ok a), waiting := w :: m.waiting }) m m' := by
  cases a with
  | value v => exact .resumeValue h
  | flow flow => exact .inl (congrArg (·.scope.keys) (host_resumeFlow h))
  | values vs =>
    cases w with
    | call | list | front =>
      obtain rfl := Option.some.inj h
      exact .inl rfl
    | _ => cases h
  | text s =>
    cases w with
    | format =>
      obtain rfl := Option.some.inj h
      exact .inl rfl
    | _ => cases h

/-- A step adds at most the variable that it writes, and only while no call is active. -/
theorem Creates.step (h : m.step Scope.env = some m') : Creates m.target? m m' := by
  obtain ⟨control, waiting, frames, lineOffset, host⟩ := m
  cases control with
  | task t =>
    obtain rfl := Option.some.inj h
    exact .start t
  | gave r =>
    cases waiting with
    | nil => cases h
    | cons w waiting =>
      cases r with
      | ok a => exact resume (m := ⟨.gave (.ok a), waiting, frames, lineOffset, host⟩) h
      | error err =>
        obtain rfl := Option.some.inj h
        cases w <;> exact .inl rfl

/-- What a run has added are targets of what was executed while no call was active. -/
theorem Creates.steps (h : Steps Scope.env m m') :
    ∃ added, m'.host.scope.keys = m.host.scope.keys ++ added ∧
      ∀ k ∈ added, ∃ m₁, Steps Scope.env m m₁ ∧ m₁.frames = [] ∧ m₁.target? = some k := by
  induction h with
  | refl => exact ⟨[], (List.append_nil _).symm, List.forall_mem_nil _⟩
  | @tail m₁ m₂ hsteps hstep ih =>
    obtain ⟨added, hkeys, htargets⟩ := ih
    rcases Creates.step hstep with hsame | ⟨hframes, k, htarget, hnew⟩
    · exact ⟨added, hsame.trans hkeys, htargets⟩
    · refine ⟨added ++ [k], ?_, List.forall_mem_append.2 ⟨htargets, ?_⟩⟩
      · rw [hnew, hkeys, List.append_assoc]
      · exact List.forall_mem_singleton.2 ⟨m₁, hsteps, hframes, htarget⟩

end Machine

namespace Invocation

open Interpreter Machine

/-- Calls never create variables. Whatever value is called, with whatever arguments and over whatever
scope, and whether the call gives a value or an error, the scope has the same variables in the same order
afterwards. The variables that a code block adds to a scope come behind those that were there, and each
is the target of an assignment, a function definition or a loop that was executed while no call was
active. -/
theorem adds_targets_only (r : Scope.Run) :
    (∀ f args, (((Invocation.call f args).result Scope.env).run.run r).2.scope.keys = r.scope.keys) ∧
    ∀ lineOffset stmts, ∃ added,
      (((Invocation.exec lineOffset stmts).result Scope.env).run.run r).2.scope.keys =
        r.scope.keys ++ added ∧
      ∀ k ∈ added, ∃ m, Steps Scope.env ((Invocation.exec lineOffset stmts).machine r) m ∧
        m.frames = [] ∧ m.target? = some k := by
  refine ⟨fun f args => ?_, fun lineOffset stmts => ?_⟩
  · rw [result, Eval.run_map]
    exact (callsKeep f args r).1
  · exact Creates.steps (steps_result Scope.env (.exec lineOffset stmts) r)

end Invocation
end ReactiveView
