import ReactiveView.Eval.Interpreter

/-!
# Simulations of evaluations

Two hosts are compared by a relation between their evaluations that sequencing, failing and the
attaching of lines respect (`Simulation`). When what an expression asks of two environments is related,
for the names that stand in the expression, so is its evaluation (`evalWith_simulated`); when all that
code can ask is related, so are statements and calls (`execBlock_simulated`, `callValue_simulated`).

The relation is one between evaluations, not between computations of the hosts: an interruption is
related as a whole, though the answers to the question behind it may differ.
-/

namespace ReactiveView

/-- A relation between the evaluations of two hosts that the interpreter respects. -/
structure Simulation (m m' : Type → Type) [Monad m] [Monad m'] where
  /-- The relation. -/
  rel : {α : Type} → Eval m α → Eval m' α → Prop
  /-- A value is related to itself. -/
  rel_pure : ∀ {α : Type} (a : α), rel (pure a) (pure a)
  /-- So is an error. -/
  rel_throw : ∀ {α : Type} (err : EvalError), rel (throw err : Eval m α) (throw err)
  /-- Related evaluations are followed by related ones. -/
  rel_bind : ∀ {α β : Type} {x : Eval m α} {x' : Eval m' α} {f : α → Eval m β}
    {f' : α → Eval m' β}, rel x x' → (∀ a, rel (f a) (f' a)) → rel (x >>= f) (x' >>= f')
  /-- A line may be attached to their errors. -/
  rel_withLine : ∀ {α : Type} (line : Nat) {x : Eval m α} {x' : Eval m' α}, rel x x' →
    rel (Interpreter.withLine line x) (Interpreter.withLine line x')

section

variable {m m' : Type → Type} [Monad m] [Monad m']

/-- Two environments that are related in what expressions ask of them, if `reads` holds of the names. -/
structure Env.Looks (S : Simulation m m') (reads : String → Prop) (env : Env m) (env' : Env m') :
    Prop where
  /-- Looking up a name. -/
  lookup : ∀ name, reads name →
    S.rel (Interpreter.ask (env.lookup name)) (Interpreter.ask (env'.lookup name))
  /-- The node whose code is run. -/
  this : S.rel (Interpreter.ask env.this) (Interpreter.ask env'.this)
  /-- The member of a value. -/
  member : ∀ target name,
    S.rel (Interpreter.ask (env.member target name)) (Interpreter.ask (env'.member target name))
  /-- Which intrinsics there are. -/
  isIntrinsic : ∀ name, env.isIntrinsic name = env'.isIntrinsic name

/-- Fail if the environment says so. -/
def Env.poll (env : Env m) : Eval m Unit := do
  if ← Interpreter.ask env.interrupted then Interpreter.fail .interrupted

/-- Two environments that are related in all that code can ask of them. -/
structure Env.Simulated (S : Simulation m m') (env : Env m) (env' : Env m') : Prop where
  /-- What expressions ask. -/
  looks : env.Looks S (fun _ => True) env'
  /-- Asking for a variable. -/
  has : ∀ name, S.rel (Interpreter.ask (env.has name)) (Interpreter.ask (env'.has name))
  /-- Writing a variable. -/
  assign : ∀ name v,
    S.rel (Interpreter.ask (env.assign name v)) (Interpreter.ask (env'.assign name v))
  /-- Calling an intrinsic. -/
  callIntrinsic : ∀ name args,
    S.rel (ExceptT.mk (env.callIntrinsic name args)) (ExceptT.mk (env'.callIntrinsic name args))
  /-- Stopping when the run is to be cut off. -/
  poll : S.rel env.poll env'.poll
  /-- Numbering a function. -/
  freshSerial : S.rel (Interpreter.ask env.freshSerial) (Interpreter.ask env'.freshSerial)

end

namespace Interpreter

variable {m m' : Type → Type} [Monad m] [Monad m'] {S : Simulation m m'} {reads : String → Prop}
  {env : Env m} {env' : Env m'} {α : Type}

/-- A failure is related to itself. -/
theorem fail_simulated (cause : EvalCause) : S.rel (fail cause : Eval m α) (fail cause) :=
  S.rel_throw _

/-- The result of an operator is related to itself. -/
theorem lift_simulated (r : Except EvalCause α) : S.rel (lift r) (lift r) := by
  cases r with
  | ok a => exact S.rel_pure a
  | error cause => exact fail_simulated cause

/-- Looking up a name, among the locals first. -/
theorem lookupName_simulated (h : env.Looks S reads env') (locals : Locals) (name : String)
    (hname : reads name) : S.rel (lookupName env locals name) (lookupName env' locals name) := by
  unfold lookupName
  cases localValue? locals name with
  | some v => exact S.rel_pure v
  | none =>
    refine S.rel_bind (h.lookup name hname) fun found => ?_
    cases found with
    | some v => exact S.rel_pure v
    | none =>
      simp only [h.isIntrinsic]
      split
      · exact S.rel_pure _
      · exact fail_simulated _

/-- Taking a member of a value. -/
theorem memberOf_simulated (h : env.Looks S reads env') (target : Value) (name : String) :
    S.rel (memberOf env target name) (memberOf env' target name) := by
  unfold memberOf
  split
  · exact S.rel_pure _
  · refine S.rel_bind (h.member _ name) fun found => ?_
    cases found with
    | some v => exact S.rel_pure v
    | none => exact fail_simulated _

/-! ## Expressions -/

/-- Two ways to call values that are related at every value. -/
def CallersSimulated (S : Simulation m m') (call : Caller m) (call' : Caller m') : Prop :=
  ∀ f args, S.rel (call f args) (call' f args)

mutual

/-- Evaluating an expression. Only the names that stand in it are looked up. -/
theorem evalWith_simulated {call : Caller m} {call' : Caller m'} (h : env.Looks S reads env')
    (hcall : CallersSimulated S call call') (locals : Locals) : ∀ e : Expr,
    (∀ x ∈ e.names, reads x) → S.rel (evalWith env call locals e) (evalWith env' call' locals e)
  | .literal l, _ => S.rel_pure l.value
  | .name _, hnames => lookupName_simulated h locals _ (hnames _ (List.mem_singleton_self _))
  | .this, _ => h.this
  | .member object name, hnames =>
    S.rel_bind (evalWith_simulated h hcall locals object hnames) fun target =>
      memberOf_simulated h target name
  | .index object key, hnames => by
    obtain ⟨hobject, hkey⟩ := List.forall_mem_append.1 hnames
    exact S.rel_bind (evalWith_simulated h hcall locals object hobject) fun _ =>
      S.rel_bind (evalWith_simulated h hcall locals key hkey) fun _ => lift_simulated _
  | .call callee args, hnames => by
    obtain ⟨hcallee, hargs⟩ := List.forall_mem_append.1 hnames
    exact S.rel_bind (evalWith_simulated h hcall locals callee hcallee) fun f =>
      S.rel_bind (evalList_simulated h hcall locals args hargs) fun args => hcall f args
  | .list items, hnames =>
    S.rel_bind (evalList_simulated h hcall locals items hnames) fun _ => S.rel_pure _
  | .unary _ operand, hnames =>
    S.rel_bind (evalWith_simulated h hcall locals operand hnames) fun _ => lift_simulated _
  | .binary _ left right, hnames => by
    obtain ⟨hleft, hright⟩ := List.forall_mem_append.1 hnames
    exact S.rel_bind (evalWith_simulated h hcall locals left hleft) fun _ =>
      S.rel_bind (evalWith_simulated h hcall locals right hright) fun _ => lift_simulated _
  | .logical op left right, hnames => by
    obtain ⟨hleft, hright⟩ := List.forall_mem_append.1 hnames
    refine S.rel_bind (evalWith_simulated h hcall locals left hleft) fun v => ?_
    cases op <;> cases v.truthy
    · exact S.rel_pure v
    · exact evalWith_simulated h hcall locals right hright
    · exact evalWith_simulated h hcall locals right hright
    · exact S.rel_pure v
  | .cond condition yes no, hnames => by
    obtain ⟨hboth, hno⟩ := List.forall_mem_append.1 hnames
    obtain ⟨hcondition, hyes⟩ := List.forall_mem_append.1 hboth
    refine S.rel_bind (evalWith_simulated h hcall locals condition hcondition) fun v => ?_
    cases v.truthy
    · exact evalWith_simulated h hcall locals no hno
    · exact evalWith_simulated h hcall locals yes hyes
  | .format parts, hnames =>
    S.rel_bind (evalParts_simulated h hcall locals "" parts hnames) fun _ => S.rel_pure _
termination_by structural e => e

/-- Evaluating expressions one after the other. -/
theorem evalList_simulated {call : Caller m} {call' : Caller m'} (h : env.Looks S reads env')
    (hcall : CallersSimulated S call call') (locals : Locals) : ∀ es : List Expr,
    (∀ x ∈ Expr.namesOfList es, reads x) →
      S.rel (evalList env call locals es) (evalList env' call' locals es)
  | [], _ => S.rel_pure []
  | e :: es, hnames => by
    obtain ⟨hfirst, hrest⟩ := List.forall_mem_append.1 hnames
    exact S.rel_bind (evalWith_simulated h hcall locals e hfirst) fun _ =>
      S.rel_bind (evalList_simulated h hcall locals es hrest) fun _ => S.rel_pure _
termination_by structural es => es

/-- Evaluating a format string. -/
theorem evalParts_simulated {call : Caller m} {call' : Caller m'} (h : env.Looks S reads env')
    (hcall : CallersSimulated S call call') (locals : Locals) : ∀ (out : String)
    (parts : List FormatPart), (∀ x ∈ Expr.namesOfParts parts, reads x) →
      S.rel (evalParts env call locals out parts) (evalParts env' call' locals out parts)
  | out, [], _ => S.rel_pure out
  | out, .text s :: parts, hnames => evalParts_simulated h hcall locals (out ++ s) parts hnames
  | out, .expr e :: parts, hnames => by
    obtain ⟨hfirst, hrest⟩ := List.forall_mem_append.1 hnames
    exact S.rel_bind (evalWith_simulated h hcall locals e hfirst) fun v =>
      evalParts_simulated h hcall locals (out ++ v.display) parts hrest
termination_by structural _ parts => parts

end

/-! ## Statements -/

/-- Writing a name, among the locals if it is one. -/
theorem assignName_simulated (h : env.Simulated S env') (locals : Locals) (name : String)
    (v : Value) : S.rel (assignName env locals name v) (assignName env' locals name v) := by
  unfold assignName
  cases locals with
  | none => exact S.rel_bind (h.assign name v) fun _ => S.rel_pure _
  | some frame =>
    dsimp only
    split
    · exact S.rel_pure _
    · refine S.rel_bind (h.has name) fun found => ?_
      cases found with
      | true => exact S.rel_bind (h.assign name v) fun _ => S.rel_pure _
      | false => exact S.rel_pure _

/-- Two pieces of code that differ in their hosts only, which are related. -/
structure Code.Simulated (S : Simulation m m') (code : Code m) (code' : Code m') : Prop where
  /-- The environments. -/
  env : code.env.Simulated S code'.env
  /-- How functions are called. -/
  call : CallersSimulated S code.call code'.call
  /-- Where the code stands. -/
  lineOffset : code.lineOffset = code'.lineOffset

section Statements

variable {code : Code m} {code' : Code m'}

/-- The value of an expression in code. -/
theorem codeEval_simulated (h : code.Simulated S code') (locals : Locals) (e : Expr) :
    S.rel (code.eval locals e) (code'.eval locals e) :=
  evalWith_simulated h.env.looks h.call locals e fun _ _ => trivial

/-- The value that an assignment writes. -/
theorem assigned_simulated (h : code.Simulated S code') (locals : Locals) (op : AssignOp)
    (target : String) (v : Value) :
    S.rel (code.assigned locals op target v) (code'.assigned locals op target v) := by
  have hlookup := lookupName_simulated h.env.looks locals target trivial
  cases op with
  | set => exact S.rel_pure v
  | add => exact S.rel_bind hlookup fun _ => lift_simulated _
  | sub => exact S.rel_bind hlookup fun _ => lift_simulated _

/-- Running the body of a loop for each item. -/
theorem eachItem_simulated (h : code.Simulated S code') (var : String)
    {body : Locals → Eval m (Flow × Locals)} {body' : Locals → Eval m' (Flow × Locals)}
    (hbody : ∀ locals, S.rel (body locals) (body' locals)) (items : List Value) :
    ∀ locals, S.rel (eachItem code var body items locals)
      (eachItem code' var body' items locals) := by
  induction items with
  | nil => exact fun _ => S.rel_pure _
  | cons item items ih =>
    intro locals
    refine S.rel_bind h.env.poll fun _ => ?_
    refine S.rel_bind (assignName_simulated h.env locals var item) fun locals => ?_
    refine S.rel_bind (hbody locals) fun r => ?_
    obtain ⟨flow, locals⟩ := r
    cases flow with
    | next => exact ih locals
    | result v => exact S.rel_pure _

mutual

/-- Running statements in order. -/
theorem execBlock_simulated (h : code.Simulated S code') : ∀ (stmts : List Stmt) (locals : Locals),
    S.rel (execBlock code stmts locals) (execBlock code' stmts locals)
  | [], _ => S.rel_pure _
  | stmt :: stmts, locals => by
    refine S.rel_bind h.env.poll fun _ => ?_
    have hline : code.templateLine stmt.line = code'.templateLine stmt.line := by
      unfold Code.templateLine
      rw [h.lineOffset]
    rw [hline]
    refine S.rel_bind (S.rel_withLine _ (execStmt_simulated h stmt locals)) fun r => ?_
    obtain ⟨flow, locals⟩ := r
    cases flow with
    | next => exact execBlock_simulated h stmts locals
    | result v => exact S.rel_pure _
termination_by structural stmts => stmts

/-- Running a statement. -/
theorem execStmt_simulated (h : code.Simulated S code') : ∀ (stmt : Stmt) (locals : Locals),
    S.rel (execStmt code stmt locals) (execStmt code' stmt locals)
  | .assign _ target op value, locals =>
    S.rel_bind (codeEval_simulated h locals value) fun v =>
      S.rel_bind (assigned_simulated h locals op target v) fun v =>
        S.rel_bind (assignName_simulated h.env locals target v) fun _ => S.rel_pure _
  | .function _ name params body, locals => by
    refine S.rel_bind h.env.freshSerial fun serial => ?_
    rw [h.lineOffset]
    exact S.rel_bind (assignName_simulated h.env locals name _) fun _ => S.rel_pure _
  | .branch _ condition yes no, locals => by
    refine S.rel_bind (codeEval_simulated h locals condition) fun v => ?_
    cases v.truthy
    · exact execBlock_simulated h no locals
    · exact execBlock_simulated h yes locals
  | .loop _ var iterable body, locals => by
    refine S.rel_bind (codeEval_simulated h locals iterable) fun v => ?_
    cases v.items? with
    | none => exact fail_simulated _
    | some items => exact eachItem_simulated h var (execBlock_simulated h body) items locals
  | .ret _ value, locals => by
    cases value with
    | none => exact S.rel_pure _
    | some e => exact S.rel_bind (codeEval_simulated h locals e) fun _ => S.rel_pure _
  | .expr _ e, locals => S.rel_bind (codeEval_simulated h locals e) fun _ => S.rel_pure _
termination_by structural stmt => stmt

end

end Statements

/-! ## Calls -/

/-- Calling a value. -/
theorem callWith_simulated {user : Function → List Value → Eval m Value}
    {user' : Function → List Value → Eval m' Value}
    (hintrinsic : ∀ name args,
      S.rel (ExceptT.mk (env.callIntrinsic name args)) (ExceptT.mk (env'.callIntrinsic name args)))
    (huser : ∀ f args, S.rel (user f args) (user' f args)) :
    CallersSimulated S (callWith env user) (callWith env' user') := by
  intro f args
  cases f with
  | func f => exact huser f args
  | builtin name =>
    simp only [callWith]
    split
    · exact lift_simulated _
    · exact hintrinsic name args
  | _ => exact fail_simulated _

/-- Calling a function, by induction on the number of calls that may still be nested. -/
theorem callUser_simulated (h : env.Simulated S env') (depth : Nat) :
    ∀ f args, S.rel (callUser env depth f args) (callUser env' depth f args) := by
  induction depth with
  | zero => exact fun _ _ => fail_simulated _
  | succ depth ih =>
    intro f args
    simp only [callUser]
    split
    · exact fail_simulated _
    · have hcode : Code.Simulated S ⟨env, callWith env (callUser env depth), f.lineOffset⟩
          ⟨env', callWith env' (callUser env' depth), f.lineOffset⟩ :=
        ⟨h, callWith_simulated h.callIntrinsic ih, rfl⟩
      refine S.rel_bind (execBlock_simulated hcode _ _) fun r => ?_
      obtain ⟨flow, _⟩ := r
      cases flow with
      | next => exact S.rel_pure _
      | result v => exact S.rel_pure v

/-- Calling a value within the limit of nested calls. -/
theorem callValue_simulated (h : env.Simulated S env') :
    CallersSimulated S (callValue env) (callValue env') :=
  callWith_simulated h.callIntrinsic (callUser_simulated h callLimit)

/-- Evaluating an expression outside of functions. -/
theorem eval_simulated (h : env.Simulated S env') (e : Expr) :
    S.rel (eval env e) (eval env' e) :=
  evalWith_simulated h.looks (callValue_simulated h) none e fun _ _ => trivial

/-- Running a code block. -/
theorem exec_simulated (h : env.Simulated S env') (lineOffset : Nat) (stmts : List Stmt) :
    S.rel (exec env lineOffset stmts) (exec env' lineOffset stmts) := by
  have hcode : Code.Simulated S ⟨env, callValue env, lineOffset⟩ ⟨env', callValue env', lineOffset⟩ :=
    ⟨h, callValue_simulated h, rfl⟩
  refine S.rel_bind (execBlock_simulated hcode stmts none) fun r => ?_
  obtain ⟨flow, _⟩ := r
  cases flow with
  | next => exact S.rel_pure _
  | result v => exact S.rel_pure _

end Interpreter
end ReactiveView
