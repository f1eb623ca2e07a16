import ReactiveView.Eval.Interpreter

/-!
# The interpreter as a machine

The interpreter run step by step. What the recursive functions of the interpreter keep implicit is
explicit here: what waits for the result of the work at hand (`Waiting`), the locals of the calls that
are active, and the template line on which the running code begins. No step is recursive, and nothing
but the limit on calls bounds how often a machine steps.

A piece of work (`Task`) gives an answer or fails. What waits first takes an answer and goes on; an
error passes by everything that waits, and gets a line from the statement that it leaves
(`Machine.unwind`). The end of a call drops the locals of the call and restores the line, in both
cases.
-/

namespace ReactiveView

/-- The locals of one active call. -/
abbrev CallFrame := OrderedMap String Value

/-- A piece of work. -/
inductive Task where
  /-- Evaluate an expression. -/
  | eval (e : Expr)
  /-- Evaluate expressions, from the first to the last. -/
  | evalList (es : List Expr)
  /-- Evaluate the rest of a format string. -/
  | evalParts (out : String) (parts : List FormatPart)
  /-- Call a value. -/
  | call (f : Value) (args : List Value)
  /-- Run statements. -/
  | block (stmts : List Stmt)
  /-- Run a statement. -/
  | stmt (s : Stmt)
  /-- Run the body of a loop for each of the items that are left. -/
  | rounds (var : String) (body : List Stmt) (items : List Value)

/-- What a piece of work gives. -/
inductive Answer where
  /-- The value of an expression, or of a call. -/
  | value (v : Value)
  /-- The values of expressions. -/
  | values (vs : List Value)
  /-- The text of a format string. -/
  | text (s : String)
  /-- How statements ended. -/
  | flow (f : Flow)

/-- What waits for an answer. -/
inductive Waiting where
  /-- Take a member. -/
  | member (field : String)
  /-- Evaluate the key of an index access. -/
  | key (key : Expr)
  /-- Take an item. -/
  | subscript (target : Value)
  /-- Evaluate the arguments of a call. -/
  | args (args : List Expr)
  /-- Call. -/
  | call (f : Value)
  /-- Make a list. -/
  | list
  /-- Apply a prefix. -/
  | unary (op : UnaryOp)
  /-- Evaluate the right operand. -/
  | right (op : BinaryOp) (e : Expr)
  /-- Apply a binary operator. -/
  | binary (op : BinaryOp) (left : Value)
  /-- Evaluate the right operand unless the left one decides. -/
  | logical (op : LogicalOp) (e : Expr)
  /-- Evaluate one of two expressions. -/
  | cond (yes no : Expr)
  /-- Evaluate the expressions behind the first. -/
  | rest (es : List Expr)
  /-- Put a value in front. -/
  | front (v : Value)
  /-- Evaluate the rest of a format string behind a substitution. -/
  | part (out : String) (parts : List FormatPart)
  /-- Make a text. -/
  | format
  /-- Write a variable. -/
  | assign (op : AssignOp) (target : String)
  /-- Run one of two blocks. -/
  | branch (yes no : List Stmt)
  /-- Go through the items of a value. -/
  | loop (var : String) (body : List Stmt)
  /-- Return a value. -/
  | ret
  /-- Drop a value. -/
  | drop
  /-- Run the statements behind a statement on a line. -/
  | stmts (line : Nat) (rest : List Stmt)
  /-- Run the rounds behind a round of a loop. -/
  | rounds (var : String) (body : List Stmt) (items : List Value)
  /-- End a call, and restore the line on which the code of the caller begins. -/
  | leave (lineOffset : Nat)

/-- What a machine is about to do. -/
inductive Control where
  /-- A piece of work. -/
  | task (t : Task)
  /-- Hand over what a piece of work gave. -/
  | gave (r : Except EvalError Answer)

/-- A moment of a run against a host. -/
structure Machine (σ : Type) where
  /-- What is done next. -/
  control : Control
  /-- What waits, the first first. -/
  waiting : List Waiting
  /-- The locals of the active calls, the innermost first. -/
  frames : List CallFrame
  /-- The template line on which the running code begins, zero when unknown. -/
  lineOffset : Nat
  /-- The state of the host. -/
  host : σ

namespace Machine

open Interpreter

variable {σ : Type}

/-- The locals of the innermost call. -/
def locals (m : Machine σ) : Locals := m.frames.head?

/-- The code that is running. -/
def code (env : Env (StateM σ)) (m : Machine σ) : Code (StateM σ) :=
  ⟨env, callValue env, m.lineOffset⟩

/-- Do a piece of work. -/
def work (m : Machine σ) (t : Task) : Machine σ := { m with control := .task t }

/-- Do a piece of work for something that waits. -/
def push (m : Machine σ) (w : Waiting) (t : Task) : Machine σ :=
  { m with control := .task t, waiting := w :: m.waiting }

/-- Give an answer. -/
def give (m : Machine σ) (a : Answer) : Machine σ := { m with control := .gave (.ok a) }

/-- Fail. -/
def raise (m : Machine σ) (err : EvalError) : Machine σ := { m with control := .gave (.error err) }

/-- Fail where no statement has given a line yet. -/
def fail (m : Machine σ) (cause : EvalCause) : Machine σ := m.raise ⟨cause, none⟩

/-- Change the locals of the innermost call. -/
def setInnermost (frames : List CallFrame) : Locals → List CallFrame
  | some frame => frame :: frames.tail
  | none => frames

/-- Change the locals of the innermost call. -/
def setLocals (m : Machine σ) (locals : Locals) : Machine σ :=
  { m with frames := setInnermost m.frames locals }

/-- Ask the host, or apply an operator, and go on with the result. -/
def ask {α : Type} (m : Machine σ) (x : Eval (StateM σ) α) (next : Machine σ → α → Machine σ) :
    Machine σ :=
  match x.run.run m.host with
  | (.ok a, host) => next { m with host := host } a
  | (.error err, host) => { m with host := host }.raise err

/-- Begin to evaluate an expression. -/
def startExpr (env : Env (StateM σ)) (m : Machine σ) : Expr → Machine σ
  | .literal l => m.give (.value l.value)
  | .name x => m.ask (lookupName env m.locals x) fun m v => m.give (.value v)
  | .this => m.ask (Interpreter.ask env.this) fun m v => m.give (.value v)
  | .member object field => m.push (.member field) (.eval object)
  | .index object key => m.push (.key key) (.eval object)
  | .call callee args => m.push (.args args) (.eval callee)
  | .list items => m.push .list (.evalList items)
  | .unary op operand => m.push (.unary op) (.eval operand)
  | .binary op left right => m.push (.right op right) (.eval left)
  | .logical op left right => m.push (.logical op right) (.eval left)
  | .cond condition yes no => m.push (.cond yes no) (.eval condition)
  | .format parts => m.push .format (.evalParts "" parts)

/-- Begin to run a statement. -/
def startStmt (env : Env (StateM σ)) (m : Machine σ) : Stmt → Machine σ
  | .assign _ target op value => m.push (.assign op target) (.eval value)
  | .function _ name params body =>
    m.ask (do
      let serial ← Interpreter.ask env.freshSerial
      assignName env m.locals name (.func ⟨serial, name, params, body, m.lineOffset⟩))
      fun m locals => (m.setLocals locals).give (.flow .next)
  | .branch _ condition yes no => m.push (.branch yes no) (.eval condition)
  | .loop _ var iterable body => m.push (.loop var body) (.eval iterable)
  | .ret _ (some e) => m.push .ret (.eval e)
  | .ret _ none => m.give (.flow (.result .null))
  | .expr _ e => m.push .drop (.eval e)

/-- Begin a call. A function of a code block gets locals of its own, unless as many calls as may be
nested are active. -/
def startCall (env : Env (StateM σ)) (m : Machine σ) (args : List Value) : Value → Machine σ
  | .func f =>
    if callLimit ≤ m.frames.length then m.fail .recursionLimit
    else if f.params.length < args.length then
      m.fail (.arity f.name f.params.length args.length)
    else
      { m with
        control := .task (.block f.body)
        waiting := .leave m.lineOffset :: m.waiting
        frames := bindParams f.params args .empty :: m.frames
        lineOffset := f.lineOffset }
  | .builtin name =>
    -- no function of a code block is called here
    m.ask (callWith env (callUser env 0) (.builtin name) args) fun m v => m.give (.value v)
  | other => m.fail (.notCallable other.typeName)

/-- Begin a piece of work. -/
def start (env : Env (StateM σ)) (m : Machine σ) : Task → Machine σ
  | .eval e => m.startExpr env e
  | .evalList [] => m.give (.values [])
  | .evalList (e :: es) => m.push (.rest es) (.eval e)
  | .evalParts out [] => m.give (.text out)
  | .evalParts out (.text s :: parts) => m.work (.evalParts (out ++ s) parts)
  | .evalParts out (.expr e :: parts) => m.push (.part out parts) (.eval e)
  | .call f args => m.startCall env args f
  | .block [] => m.give (.flow .next)
  | .block (s :: stmts) =>
    m.ask (m.code env).poll fun m _ => m.push (.stmts s.line stmts) (.stmt s)
  | .stmt s => m.startStmt env s
  | .rounds _ _ [] => m.give (.flow .next)
  | .rounds var body (item :: items) =>
    m.ask (do (m.code env).poll; assignName env m.locals var item)
      fun m locals => (m.setLocals locals).push (.rounds var body items) (.block body)

/-- Take an answer for the value of an expression. -/
def resumeValue (env : Env (StateM σ)) (m : Machine σ) (v : Value) : Waiting → Option (Machine σ)
  | .member field => some (m.ask (memberOf env v field) fun m v => m.give (.value v))
  | .key key => some (m.push (.subscript v) (.eval key))
  | .subscript target => some (m.ask (lift (target.subscript v)) fun m v => m.give (.value v))
  | .args args => some (m.push (.call v) (.evalList args))
  | .unary op => some (m.ask (lift (v.applyUnary op)) fun m v => m.give (.value v))
  | .right op e => some (m.push (.binary op v) (.eval e))
  | .binary op left =>
    some (m.ask (lift (Value.applyBinary op left v)) fun m v => m.give (.value v))
  | .logical op e =>
    match op, v.truthy with
    | .and, false => some (m.give (.value v))
    | .or, true => some (m.give (.value v))
    | _, _ => some (m.work (.eval e))
  | .cond yes no => some (m.work (.eval (if v.truthy then yes else no)))
  | .rest es => some (m.push (.front v) (.evalList es))
  | .part out parts => some (m.work (.evalParts (out ++ v.display) parts))
  | .assign op target =>
    some (m.ask (do
      let v ← (m.code env).assigned m.locals op target v
      assignName env m.locals target v)
      fun m locals => (m.setLocals locals).give (.flow .next))
  | .branch yes no => some (m.work (.block (if v.truthy then yes else no)))
  | .loop var body =>
    match v.items? with
    | none => some (m.fail (.notIterable v.typeName))
    | some items => some (m.work (.rounds var body items))
  | .ret => some (m.give (.flow (.result v)))
  | .drop => some (m.give (.flow .next))
  | _ => none

/-- Take an answer for how statements ended. -/
def resumeFlow (m : Machine σ) (flow : Flow) : Waiting → Option (Machine σ)
  | .stmts _ rest =>
    match flow with
    | .next => some (m.work (.block rest))
    | .result v => some (m.give (.flow (.result v)))
  | .rounds var body items =>
    match flow with
    | .next => some (m.work (.rounds var body items))
    | .result v => some (m.give (.flow (.result v)))
  | .leave lineOffset =>
    let m := { m with frames := m.frames.tail, lineOffset := lineOffset }
    match flow with
    | .next => some (m.give (.value .null))
    | .result v => some (m.give (.value v))
  | _ => none

/-- Take an answer, if it is of the kind that was waited for. -/
def resume (env : Env (StateM σ)) (m : Machine σ) : Waiting → Answer → Option (Machine σ)
  | w, .value v => m.resumeValue env v w
  | w, .flow flow => m.resumeFlow flow w
  | .call f, .values vs => some (m.work (.call f vs))
  | .list, .values vs => some (m.give (.value (.list vs)))
  | .front v, .values vs => some (m.give (.values (v :: vs)))
  | .format, .text s => some (m.give (.value (.str s)))
  | _, _ => none

/-- Pass an error by something that waits. -/
def unwind (env : Env (StateM σ)) (m : Machine σ) (err : EvalError) : Waiting → Machine σ
  | .stmts line _ => m.raise (err.atLine ((m.code env).templateLine line))
  | .leave lineOffset => { m with frames := m.frames.tail, lineOffset := lineOffset }.raise err
  | _ => m.raise err

/-- One step. A machine stops when nothing waits for what it gave. -/
def step (env : Env (StateM σ)) (m : Machine σ) : Option (Machine σ) :=
  match m.control, m.waiting with
  | .task t, _ => some (m.start env t)
  | .gave _, [] => none
  | .gave (.ok a), w :: waiting => { m with waiting := waiting }.resume env w a
  | .gave (.error err), w :: waiting => some ({ m with waiting := waiting }.unwind env err w)

end Machine

/-- How code is entered from outside. -/
inductive Invocation where
  /-- Evaluate an expression. -/
  | eval (e : Expr)
  /-- Run the statements of a code block that begins on a template line. -/
  | exec (lineOffset : Nat) (stmts : List Stmt)
  /-- Call a value. -/
  | call (f : Value) (args : List Value)

namespace Invocation

variable {σ : Type}

/-- The work to do. -/
def task : Invocation → Task
  | eval e => .eval e
  | exec _ stmts => .block stmts
  | call f args => .call f args

/-- The template line on which the code begins. -/
def lineOffset : Invocation → Nat
  | exec lineOffset _ => lineOffset
  | _ => 0

/-- The machine at the start. No call is active. -/
def machine (invocation : Invocation) (host : σ) : Machine σ :=
  ⟨.task invocation.task, [], [], invocation.lineOffset, host⟩

/-- What the interpreter gives. -/
def result (env : Env (StateM σ)) : Invocation → Eval (StateM σ) Answer
  | eval e => .value <$> Interpreter.eval env e
  | exec lineOffset stmts => do
    match ← Interpreter.exec env lineOffset stmts with
    | some v => return .flow (.result v)
    | none => return .flow .next
  | call f args => .value <$> Interpreter.callValue env f args

end Invocation
end ReactiveView
