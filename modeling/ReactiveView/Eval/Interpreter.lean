import ReactiveView.Eval.Builtin
import ReactiveView.Eval.Operators

/-!
# The interpreter

Expressions and statements are run against an `Env`, which supplies the variables, the node whose
code is run, the members of nodes and the intrinsics of the host, in a monad of the host's choice. A
name is looked up among the locals of the running function, then in the environment, then among the
built-in functions and intrinsics.

A function captures nothing but its parameters: it sees the environment as it is when it is called.
An assignment inside a function writes a local, unless the name is no local and the environment has
it. Evaluation is structural in the expression; calls are bounded by `callLimit`, and `callUser` is
structural in the number of calls that may still be nested.
-/

namespace ReactiveView

/-- What code is run against. -/
structure Env (m : Type → Type) where
  /-- The value of a variable; the environment may record the read, whether it succeeds or not. -/
  lookup : String → m (Option Value)
  /-- Whether a variable exists; this is no read. -/
  has : String → m Bool
  /-- Write a variable. -/
  assign : String → Value → m Unit
  /-- The node whose code is run. -/
  this : m Value
  /-- The member of a value that is no map. -/
  member : Value → String → m (Option Value)
  /-- Whether the host has an intrinsic of the name. -/
  isIntrinsic : String → Bool
  /-- Call an intrinsic of the host. -/
  callIntrinsic : String → List Value → m (Except EvalError Value)
  /-- Whether the run is to be cut off; asked before every statement and every round of a loop. -/
  interrupted : m Bool
  /-- A number for a new function, different from all earlier ones. -/
  freshSerial : m Nat

/-- A computation that may fail with an evaluation error. -/
abbrev Eval (m : Type → Type) (α : Type) := ExceptT EvalError m α

/-- The local variables of a running function; there are none outside of functions. -/
abbrev Locals := Option (OrderedMap String Value)

/-- How a block of statements ended. -/
inductive Flow where
  /-- At its last statement. -/
  | next
  /-- At a `return`. -/
  | result (v : Value)

namespace Interpreter

variable {m : Type → Type} [Monad m]

/-- How deeply calls of functions may be nested. -/
def callLimit : Nat := 64

/-- Fail. -/
def fail {α : Type} (cause : EvalCause) : Eval m α := throw ⟨cause, none⟩

/-- The result of an operator or a built-in function. -/
def lift {α : Type} : Except EvalCause α → Eval m α
  | .ok a => pure a
  | .error cause => fail cause

/-- Ask the environment. -/
def ask {α : Type} (action : m α) : Eval m α := ExceptT.lift action

/-- A local of the running function. -/
def localValue? (locals : Locals) (name : String) : Option Value :=
  locals.bind fun frame => frame.get? name

/-- The value of a name. -/
def lookupName (env : Env m) (locals : Locals) (name : String) : Eval m Value :=
  match localValue? locals name with
  | some v => pure v
  | none => do
    match ← ask (env.lookup name) with
    | some v => return v
    | none =>
      if isBuiltin name || env.isIntrinsic name then return .builtin name
      else fail (.undefined name)

/-- Write a name: a local if there is one or the environment has no such variable. -/
def assignName (env : Env m) (locals : Locals) (name : String) (v : Value) : Eval m Locals :=
  match locals with
  | some frame => do
    if frame.contains name then return some (frame.insert name v)
    else if ← ask (env.has name) then
      ask (env.assign name v)
      return some frame
    else return some (frame.insert name v)
  | none => do
    ask (env.assign name v)
    return none

/-- A member of a value. A map has every member; those that are no keys are null. -/
def memberOf (env : Env m) (target : Value) (name : String) : Eval m Value :=
  match target with
  | .map entries => return (entries.get? name).getD .null
  | other => do
    match ← ask (env.member other name) with
    | some v => return v
    | none => fail (.noAttribute other.typeName name)

/-- Calling a value with arguments. -/
abbrev Caller (m : Type → Type) := Value → List Value → Eval m Value

mutual

/-- The value of an expression. -/
def evalWith (env : Env m) (call : Caller m) (locals : Locals) : Expr → Eval m Value
  | .literal l => pure l.value
  | .name x => lookupName env locals x
  | .this => ask env.this
  | .member object name => do
    let target ← evalWith env call locals object
    memberOf env target name
  | .index object key => do
    let target ← evalWith env call locals object
    let key ← evalWith env call locals key
    lift (target.subscript key)
  | .call callee args => do
    let f ← evalWith env call locals callee
    let args ← evalList env call locals args
    call f args
  | .list items => do
    let items ← evalList env call locals items
    return .list items
  | .unary op operand => do
    let v ← evalWith env call locals operand
    lift (v.applyUnary op)
  | .binary op left right => do
    let left ← evalWith env call locals left
    let right ← evalWith env call locals right
    lift (Value.applyBinary op left right)
  | .logical op left right => do
    let v ← evalWith env call locals left
    match op, v.truthy with
    | .and, false => return v
    | .or, true => return v
    | _, _ => evalWith env call locals right
  | .cond condition yes no => do
    let v ← evalWith env call locals condition
    if v.truthy then evalWith env call locals yes else evalWith env call locals no
  | .format parts => do
    let s ← evalParts env call locals "" parts
    return .str s
termination_by structural e => e

/-- The values of expressions, from the first to the last. -/
def evalList (env : Env m) (call : Caller m) (locals : Locals) : List Expr → Eval m (List Value)
  | [] => pure []
  | e :: es => do
    let v ← evalWith env call locals e
    let vs ← evalList env call locals es
    return v :: vs
termination_by structural es => es

/-- The text of a format string behind `out`. -/
def evalParts (env : Env m) (call : Caller m) (locals : Locals) (out : String) :
    List FormatPart → Eval m String
  | [] => pure out
  | .text s :: parts => evalParts env call locals (out ++ s) parts
  | .expr e :: parts => do
    let v ← evalWith env call locals e
    evalParts env call locals (out ++ v.display) parts
termination_by structural parts => parts

end

/-- The place of code in its template, and how it calls functions. -/
structure Code (m : Type → Type) where
  /-- The environment. -/
  env : Env m
  /-- How functions are called. -/
  call : Caller m
  /-- The template line on which the code block begins, zero when unknown. -/
  lineOffset : Nat

/-- The template line of a line of the code. -/
def Code.templateLine (code : Code m) (line : Nat) : Nat :=
  if code.lineOffset = 0 then line else code.lineOffset + (line - 1)

/-- The value of an expression in the code. -/
def Code.eval (code : Code m) (locals : Locals) (e : Expr) : Eval m Value :=
  evalWith code.env code.call locals e

/-- Fail when the run is to be cut off. -/
def Code.poll (code : Code m) : Eval m Unit := do
  if ← ask code.env.interrupted then fail .interrupted

/-- The value that an assignment writes. -/
def Code.assigned (code : Code m) (locals : Locals) (op : AssignOp) (target : String) (v : Value) :
    Eval m Value :=
  match op with
  | .set => pure v
  | .add => do
    let old ← lookupName code.env locals target
    lift (Value.applyBinary .add old v)
  | .sub => do
    let old ← lookupName code.env locals target
    lift (Value.applyBinary .sub old v)

/-- Run the body of a loop for each item in turn, until one run ends at a `return`. -/
def eachItem (code : Code m) (var : String) (body : Locals → Eval m (Flow × Locals)) :
    List Value → Locals → Eval m (Flow × Locals)
  | [], locals => return (.next, locals)
  | item :: items, locals => do
    code.poll
    let locals ← assignName code.env locals var item
    match ← body locals with
    | (.result v, locals) => return (.result v, locals)
    | (.next, locals) => eachItem code var body items locals

/-- Attach a line to the error of a computation. -/
def withLine {α : Type} (line : Nat) (action : Eval m α) : Eval m α :=
  tryCatch action fun e => throw (e.atLine line)

mutual

/-- Run statements in order, until one of them ends at a `return`. -/
def execBlock (code : Code m) : List Stmt → Locals → Eval m (Flow × Locals)
  | [], locals => return (.next, locals)
  | stmt :: stmts, locals => do
    code.poll
    match ← withLine (code.templateLine stmt.line) (execStmt code stmt locals) with
    | (.result v, locals) => return (.result v, locals)
    | (.next, locals) => execBlock code stmts locals
termination_by structural stmts => stmts

/-- Run a statement. -/
def execStmt (code : Code m) : Stmt → Locals → Eval m (Flow × Locals)
  | .assign _ target op value, locals => do
    let v ← code.eval locals value
    let v ← code.assigned locals op target v
    return (.next, ← assignName code.env locals target v)
  | .function _ name params body, locals => do
    let serial ← ask code.env.freshSerial
    let f : Function := ⟨serial, name, params, body, code.lineOffset⟩
    return (.next, ← assignName code.env locals name (.func f))
  | .branch _ condition yes no, locals => do
    let v ← code.eval locals condition
    if v.truthy then execBlock code yes locals else execBlock code no locals
  | .loop _ var iterable body, locals => do
    let v ← code.eval locals iterable
    match v.items? with
    | none => fail (.notIterable v.typeName)
    | some items => eachItem code var (execBlock code body) items locals
  | .ret _ value, locals =>
    match value with
    | some e => do
      let v ← code.eval locals e
      return (.result v, locals)
    | none => return (.result .null, locals)
  | .expr _ e, locals => do
    let _ ← code.eval locals e
    return (.next, locals)
termination_by structural stmt => stmt

end

/-- The locals at the start of a call: each parameter with its argument, or null. -/
def bindParams : List String → List Value → OrderedMap String Value → OrderedMap String Value
  | [], _, frame => frame
  | p :: ps, [], frame => bindParams ps [] (frame.insert p .null)
  | p :: ps, v :: vs, frame => bindParams ps vs (frame.insert p v)

/-- Call a value when functions of code blocks are called by `user`. -/
def callWith (env : Env m) (user : Function → List Value → Eval m Value) : Caller m
  | .func f, args => user f args
  | .builtin name, args =>
    if isBuiltin name then lift (callBuiltin name args)
    else show m (Except EvalError Value) from env.callIntrinsic name args
  | other, _ => fail (.notCallable other.typeName)

/-- Call a function of a code block, when `depth` calls may still be nested. -/
def callUser (env : Env m) : (depth : Nat) → Function → List Value → Eval m Value
  | 0, _, _ => fail .recursionLimit
  | depth + 1, f, args =>
    if f.params.length < args.length then fail (.arity f.name f.params.length args.length)
    else do
      let code : Code m := ⟨env, callWith env (callUser env depth), f.lineOffset⟩
      match ← execBlock code f.body (some (bindParams f.params args .empty)) with
      | (.result v, _) => return v
      | (.next, _) => return .null

/-- Call a value. -/
def callValue (env : Env m) : Caller m := callWith env (callUser env callLimit)

/-- The value of an expression. -/
def eval (env : Env m) (e : Expr) : Eval m Value := evalWith env (callValue env) none e

/-- Run the statements of a code block that begins on a template line; the value of a `return`
outside of functions. -/
def exec (env : Env m) (lineOffset : Nat) (stmts : List Stmt) : Eval m (Option Value) := do
  match ← execBlock ⟨env, callValue env, lineOffset⟩ stmts none with
  | (.result v, _) => return some v
  | (.next, _) => return none

end Interpreter
end ReactiveView
