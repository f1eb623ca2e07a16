import ReactiveView.Proofs.Termination.Steps

/-!
# Expressions and statements come to their results

A machine that evaluates an expression or runs statements comes to what the interpreter gives
(`Machine.leads_eval`, `Machine.leads_block`), provided that this is so for the calls that are made
there. The proofs follow the recursion of the interpreter: each piece of work begins with a step, and
goes on with the results of smaller ones. Evaluation leaves the locals of all calls alone; statements
change those of the innermost one only.
-/

namespace ReactiveView
namespace Machine

open Interpreter

variable {σ : Type} {env : Env (StateM σ)} {call : Caller (StateM σ)} {frames : List CallFrame}

/-- Calls are led to their results, on whatever line they stand. -/
def CallsLead (env : Env (StateM σ)) (call : Caller (StateM σ)) (frames : List CallFrame) : Prop :=
  ∀ f args lineOffset,
    Leads env (.task (.call f args)) [] frames lineOffset (call f args) .value (Stays frames)

/-! ## Expressions -/

/-- What waits first takes a value. -/
theorem step_value (v : Value) (w : Waiting) (below : List Waiting) (frames : List CallFrame)
    (lineOffset : Nat) (host : σ) :
    (⟨.gave (.ok (.value v)), [w] ++ below, frames, lineOffset, host⟩ : Machine σ).step env =
      (⟨.gave (.ok (.value v)), below, frames, lineOffset, host⟩ : Machine σ).resumeValue env v w :=
  rfl

mutual

/-- The value of an expression. -/
theorem leads_eval (hcall : CallsLead env call frames) (lineOffset : Nat) : (e : Expr) →
    Leads env (.task (.eval e)) [] frames lineOffset (evalWith env call frames.head? e) .value
      (Stays frames)
  | .literal l => (leads_pure l.value rfl).step (going_task _) fun _ _ => rfl
  | .name _ => leads_ask (going_task _) fun _ _ => rfl
  | .this => leads_ask (going_task _) fun _ _ => rfl
  | .member object _ => by
    refine (leads_eval hcall lineOffset object).operand (going_task _) (fun _ _ => rfl)
      (fun _ _ => rfl) (fun _ => rfl) fun _ => ?_
    exact leads_ask (going_gave _ _) fun _ _ => rfl
  | .index object key => by
    refine (leads_eval hcall lineOffset object).operand (going_task _) (fun _ _ => rfl)
      (fun _ _ => rfl) (fun _ => rfl) fun _ => ?_
    refine (leads_eval hcall lineOffset key).operand (going_gave _ _) (fun _ _ => rfl)
      (fun _ _ => rfl) (fun _ => rfl) fun _ => ?_
    exact leads_ask (going_gave _ _) fun _ _ => rfl
  | .call callee args => by
    refine (leads_eval hcall lineOffset callee).operand (going_task _) (fun _ _ => rfl)
      (fun _ _ => rfl) (fun _ => rfl) fun f => ?_
    refine (leads_evalList hcall lineOffset args).operand (going_gave _ _) (fun _ _ => rfl)
      (fun _ _ => rfl) (fun _ => rfl) fun vs => ?_
    exact (hcall f vs lineOffset).step (going_gave _ _) fun _ _ => rfl
  | .list items => by
    refine (leads_evalList hcall lineOffset items).operand (going_task _) (fun _ _ => rfl)
      (fun _ _ => rfl) (fun _ => rfl) fun vs => ?_
    exact (leads_pure (Value.list vs) rfl).step (going_gave _ _) fun _ _ => rfl
  | .unary _ operand => by
    refine (leads_eval hcall lineOffset operand).operand (going_task _) (fun _ _ => rfl)
      (fun _ _ => rfl) (fun _ => rfl) fun _ => ?_
    exact leads_ask (going_gave _ _) fun _ _ => rfl
  | .binary _ left right => by
    refine (leads_eval hcall lineOffset left).operand (going_task _) (fun _ _ => rfl)
      (fun _ _ => rfl) (fun _ => rfl) fun _ => ?_
    refine (leads_eval hcall lineOffset right).operand (going_gave _ _) (fun _ _ => rfl)
      (fun _ _ => rfl) (fun _ => rfl) fun _ => ?_
    exact leads_ask (going_gave _ _) fun _ _ => rfl
  | .logical op left right => by
    refine (leads_eval hcall lineOffset left).operand (going_task _) (fun _ _ => rfl)
      (fun _ _ => rfl) (fun _ => rfl) fun v => ?_
    have hright := leads_eval hcall lineOffset right
    cases op <;> cases htruthy : v.truthy
    case and.false | or.true =>
      refine (leads_pure v rfl).step (going_gave _ _) fun _ _ => ?_
      simp only [step_value, resumeValue, htruthy]
      rfl
    case and.true | or.false =>
      refine hright.step (going_gave _ _) fun _ _ => ?_
      simp only [step_value, resumeValue, htruthy]
      rfl
  | .cond condition yes no => by
    refine (leads_eval hcall lineOffset condition).operand (going_task _) (fun _ _ => rfl)
      (fun _ _ => rfl) (fun _ => rfl) fun v => ?_
    cases htruthy : v.truthy
    case false =>
      refine (leads_eval hcall lineOffset no).step (going_gave _ _) fun _ _ => ?_
      simp only [step_value, resumeValue, htruthy]
      rfl
    case true =>
      refine (leads_eval hcall lineOffset yes).step (going_gave _ _) fun _ _ => ?_
      simp only [step_value, resumeValue, htruthy]
      rfl
  | .format parts => by
    refine (leads_evalParts hcall lineOffset "" parts).operand (going_task _) (fun _ _ => rfl)
      (fun _ _ => rfl) (fun _ => rfl) fun s => ?_
    exact (leads_pure (Value.str s) rfl).step (going_gave _ _) fun _ _ => rfl
termination_by structural e => e

/-- The values of expressions. -/
theorem leads_evalList (hcall : CallsLead env call frames) (lineOffset : Nat) : (es : List Expr) →
    Leads env (.task (.evalList es)) [] frames lineOffset (evalList env call frames.head? es)
      .values (Stays frames)
  | [] => (leads_pure [] rfl).step (going_task _) fun _ _ => rfl
  | e :: es => by
    refine (leads_eval hcall lineOffset e).operand (going_task _) (fun _ _ => rfl)
      (fun _ _ => rfl) (fun _ => rfl) fun v => ?_
    refine (leads_evalList hcall lineOffset es).operand (going_gave _ _) (fun _ _ => rfl)
      (fun _ _ => rfl) (fun _ => rfl) fun vs => ?_
    exact (leads_pure (v :: vs) rfl).step (going_gave _ _) fun _ _ => rfl
termination_by structural es => es

/-- The text of a format string. -/
theorem leads_evalParts (hcall : CallsLead env call frames) (lineOffset : Nat) : (out : String) →
    (parts : List FormatPart) →
    Leads env (.task (.evalParts out parts)) [] frames lineOffset
      (evalParts env call frames.head? out parts) .text (Stays frames)
  | out, [] => (leads_pure out rfl).step (going_task _) fun _ _ => rfl
  | out, .text s :: parts =>
    (leads_evalParts hcall lineOffset (out ++ s) parts).step (going_task _) fun _ _ => rfl
  | out, .expr e :: parts => by
    refine (leads_eval hcall lineOffset e).operand (going_task _) (fun _ _ => rfl)
      (fun _ _ => rfl) (fun _ => rfl) fun v => ?_
    exact (leads_evalParts hcall lineOffset (out ++ v.display) parts).step (going_gave _ _)
      fun _ _ => rfl
termination_by structural _ parts => parts

end

/-! ## Statements -/

variable {lineOffset : Nat} {locals : Locals}

/-- Only functions have locals, also after a variable was written. -/
theorem isSome_assignName {name : String} {v : Value} {host host' : σ} {locals' : Locals}
    (h : (assignName env locals name v).run.run host = (.ok locals', host')) :
    locals'.isSome = locals.isSome := by
  cases locals with
  | none =>
    obtain ⟨⟨⟩, -⟩ := Prod.mk.inj h
    rfl
  | some frame =>
    by_cases hlocal : frame.contains name
    · rw [assignName, if_pos hlocal] at h
      obtain ⟨⟨⟩, -⟩ := Prod.mk.inj h
      rfl
    · rw [assignName, if_neg hlocal, Eval.bind_eq_both, Eval.run_both, Eval.run_ask] at h
      cases hhas : ((env.has name).run host).1
      all_goals
        simp only [hhas] at h
        obtain ⟨⟨⟩, -⟩ := Prod.mk.inj h
        rfl

theorem isSome_of_assigned {α : Type} {x : Eval (StateM σ) α} (v : α → Value) {name : String}
    {host host' : σ} {locals' : Locals}
    (h : (x >>= fun a => assignName env locals name (v a)).run.run host = (.ok locals', host')) :
    locals'.isSome = locals.isSome := by
  rw [Eval.bind_eq_both, Eval.run_both] at h
  rcases hx : x.run.run host with ⟨_ | _, _⟩
  · rw [hx] at h
    cases h
  · rw [hx] at h
    exact isSome_assignName h

theorem sameCalls_setInnermost (frames : List CallFrame) (h : locals.isSome = frames.head?.isSome) :
    SameCalls frames (setInnermost frames locals) ∧ (setInnermost frames locals).head? = locals := by
  cases frames <;> cases locals <;> first | exact ⟨⟨rfl, rfl⟩, rfl⟩ | cases h

/-- How a statement ended, with the locals as they are. -/
theorem leads_flow (env : Env (StateM σ)) (flow : Flow) (frames : List CallFrame) (lineOffset : Nat) :
    Leads env (.gave (.ok (.flow flow))) [] frames lineOffset (pure (flow, frames.head?))
      (fun p => .flow p.1) (Writes frames) := by
  refine fun _ _ => ⟨frames, ⟨.refl _, ?_⟩, .refl⟩
  rintro _ ⟨⟩
  rfl

/-- Statements go on after a statement, or a round, that has written locals. -/
theorem Leads.after {control : Control} {above : List Waiting} {x : Eval (StateM σ) (Flow × Locals)}
    {answer : Flow × Locals → Answer} {frames' : List CallFrame}
    (h : Leads env control above frames' lineOffset x answer (Writes frames'))
    (hsame : SameCalls frames frames') :
    Leads env control above frames' lineOffset x answer (Writes frames) := by
  intro below host
  obtain ⟨frames'', ⟨hsame', hhead⟩, hreaches⟩ := h below host
  exact ⟨frames'', ⟨hsame.trans hsame', hhead⟩, hreaches⟩

theorem writes_error (err : EvalError) (frames : List CallFrame) : Writes frames (.error err) frames :=
  ⟨.refl _, nofun⟩

/-- A variable is written with what a computation comes to. -/
theorem leads_assign {α : Type} {x : Eval (StateM σ) α} (v : α → Value) {name : String}
    {control control₀ : Control} {above : List Waiting} (hgoing : Going control above)
    (hstep : ∀ below host,
      (⟨control, above ++ below, frames, lineOffset, host⟩ : Machine σ).step env =
        some ((⟨control₀, below, frames, lineOffset, host⟩ : Machine σ).ask
          (x >>= fun a => assignName env frames.head? name (v a))
          fun m locals => (m.setLocals locals).give (.flow .next))) :
    Leads env control above frames lineOffset
      (x >>= fun a => assignName env frames.head? name (v a) >>= fun locals => pure (.next, locals))
      (fun p => .flow p.1) (Writes frames) := by
  rw [← bind_assoc]
  refine Leads.ask _ (fun _ => .gave (.ok (.flow .next))) (fun _ => []) (setInnermost frames)
    hgoing hstep (writes_error · _) (fun _ _ _ => rfl) fun locals host host' h => ?_
  obtain ⟨hsame, hhead⟩ := sameCalls_setInnermost frames (isSome_of_assigned v h)
  have hnext := (leads_flow env .next (setInnermost frames locals) lineOffset).after hsame
  rwa [hhead] at hnext

/-- The rounds of a loop, by induction on the items that are left. -/
theorem leads_rounds {n : Nat} {body : List Stmt} (var : String) (lineOffset : Nat)
    (hbody : ∀ frames, frames.length = n → Leads env (.task (.block body)) [] frames lineOffset
      (execBlock ⟨env, call, lineOffset⟩ body frames.head?) (fun p => .flow p.1) (Writes frames))
    (items : List Value) (frames : List CallFrame) (hn : frames.length = n) :
    Leads env (.task (.rounds var body items)) [] frames lineOffset
      (eachItem ⟨env, call, lineOffset⟩ var (execBlock ⟨env, call, lineOffset⟩ body) items
        frames.head?) (fun p => .flow p.1) (Writes frames) := by
  induction items generalizing frames with
  | nil => exact (leads_flow env .next frames lineOffset).step (going_task _) fun _ _ => rfl
  | cons item items ih =>
    rw [eachItem, ← bind_assoc]
    refine Leads.ask (fun m locals => (m.setLocals locals).push (.rounds var body items) (.block body))
      (fun _ => .task (.block body)) (fun _ => [.rounds var body items]) (setInnermost frames)
      (going_task _) (fun _ _ => rfl) (writes_error · _) (fun _ _ _ => rfl)
      fun locals host host' h => ?_
    obtain ⟨hsame, hhead⟩ := sameCalls_setInnermost frames
      (isSome_of_assigned (fun _ => item) h)
    have hround := hbody (setInnermost frames locals) (hsame.1.trans hn)
    rw [hhead] at hround
    refine hround.bind ?_ (fun err frames' h => ⟨hsame.trans h.1, nofun⟩) fun _ _ => rfl
    rintro ⟨flow, locals'⟩ frames' ⟨hsame', hhead'⟩
    obtain rfl : frames'.head? = locals' := hhead' _ rfl
    cases flow with
    | next =>
      have hrest := ih frames' (hsame'.1.trans (hsame.1.trans hn))
      exact (hrest.after (hsame.trans hsame')).step (going_gave _ _) fun _ _ => rfl
    | result v =>
      have hend := leads_flow env (.result v) frames' lineOffset
      exact (hend.after (hsame.trans hsame')).step (going_gave _ _) fun _ _ => rfl

mutual

/-- Statements, where the calls that they make are led to their results whatever the locals are. -/
theorem leads_block {n : Nat} (hcall : ∀ frames, frames.length = n → CallsLead env call frames)
    (lineOffset : Nat) : (stmts : List Stmt) → (frames : List CallFrame) → frames.length = n →
    Leads env (.task (.block stmts)) [] frames lineOffset
      (execBlock ⟨env, call, lineOffset⟩ stmts frames.head?) (fun p => .flow p.1) (Writes frames)
  | [], frames, _ => (leads_flow env .next frames lineOffset).step (going_task _) fun _ _ => rfl
  | s :: stmts, frames, hn => by
    refine Leads.ask (fun m _ => m.push (.stmts s.line stmts) (.stmt s)) (fun _ => .task (.stmt s))
      (fun _ => [.stmts s.line stmts]) (fun _ => frames) (going_task _) (fun _ _ => rfl)
      (writes_error · _) (fun _ _ _ => rfl) fun _ _ _ _ => ?_
    -- an error gets the line of the statement as it passes what waits for the statement
    rw [Eval.withLine_bind]
    refine (leads_stmt hcall lineOffset s frames hn).both ?_ ?_
    · rintro ⟨flow, locals⟩ frames' ⟨hsame, hhead⟩
      obtain rfl : frames'.head? = locals := hhead _ rfl
      cases flow with
      | next =>
        have hrest := leads_block hcall lineOffset stmts frames' (hsame.1.trans hn)
        exact (hrest.after hsame).step (going_gave _ _) fun _ _ => rfl
      | result v =>
        have hend := leads_flow env (.result v) frames' lineOffset
        exact (hend.after hsame).step (going_gave _ _) fun _ _ => rfl
    · rintro err frames' ⟨hsame, -⟩
      exact (leads_throw _ ⟨hsame, nofun⟩).step (going_gave _ _) fun _ _ => rfl
termination_by structural stmts => stmts

/-- A statement. -/
theorem leads_stmt {n : Nat} (hcall : ∀ frames, frames.length = n → CallsLead env call frames)
    (lineOffset : Nat) : (s : Stmt) → (frames : List CallFrame) → frames.length = n →
    Leads env (.task (.stmt s)) [] frames lineOffset
      (execStmt ⟨env, call, lineOffset⟩ s frames.head?) (fun p => .flow p.1) (Writes frames)
  | .assign _ target op value, frames, hn => by
    refine (leads_eval (hcall frames hn) lineOffset value).operand (going_task _) (fun _ _ => rfl)
      (fun _ _ => rfl) (writes_error · _) fun v => ?_
    exact leads_assign id (going_gave _ _) fun _ _ => rfl
  | .function _ name params body, frames, _ =>
    leads_assign (fun serial => .func ⟨serial, name, params, body, lineOffset⟩) (going_task _)
      fun _ _ => rfl
  | .branch _ condition yes no, frames, hn => by
    refine (leads_eval (hcall frames hn) lineOffset condition).operand (going_task _)
      (fun _ _ => rfl) (fun _ _ => rfl) (writes_error · _) fun v => ?_
    cases htruthy : v.truthy
    case false =>
      refine (leads_block hcall lineOffset no frames hn).step (going_gave _ _) fun _ _ => ?_
      simp only [step_value, resumeValue, htruthy]
      rfl
    case true =>
      refine (leads_block hcall lineOffset yes frames hn).step (going_gave _ _) fun _ _ => ?_
      simp only [step_value, resumeValue, htruthy]
      rfl
  | .loop _ var iterable body, frames, hn => by
    refine (leads_eval (hcall frames hn) lineOffset iterable).operand (going_task _)
      (fun _ _ => rfl) (fun _ _ => rfl) (writes_error · _) fun v => ?_
    cases hitems : v.items? with
    | none =>
      refine (leads_throw _ (writes_error _ _)).step (going_gave _ _) fun _ _ => ?_
      simp only [step_value, resumeValue, hitems]
      rfl
    | some items =>
      have hrounds := leads_rounds var lineOffset (leads_block hcall lineOffset body) items frames hn
      refine hrounds.step (going_gave _ _) fun _ _ => ?_
      simp only [step_value, resumeValue, hitems]
      rfl
  | .ret _ none, frames, _ =>
    (leads_flow env (.result .null) frames lineOffset).step (going_task _) fun _ _ => rfl
  | .ret _ (some e), frames, hn => by
    refine (leads_eval (hcall frames hn) lineOffset e).operand (going_task _)
      (fun _ _ => rfl) (fun _ _ => rfl) (writes_error · _) fun v => ?_
    exact (leads_flow env (.result v) frames lineOffset).step (going_gave _ _) fun _ _ => rfl
  | .expr _ e, frames, hn => by
    refine (leads_eval (hcall frames hn) lineOffset e).operand (going_task _)
      (fun _ _ => rfl) (fun _ _ => rfl) (writes_error · _) fun v => ?_
    exact (leads_flow env .next frames lineOffset).step (going_gave _ _) fun _ _ => rfl
termination_by structural s => s

end

end Machine
end ReactiveView
