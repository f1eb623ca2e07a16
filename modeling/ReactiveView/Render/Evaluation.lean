import ReactiveView.Render.Removal

/-!
# Evaluation in the tree

How code sees the rendered tree. A `Site` says where code stands: in which context and frame, for
which node, and whether its reads are recorded. Names are looked up in the frames first, which are
never tracked, then as the table `refs`, then among the variables of the context and its callers.

Building, updating and rebuilding may run code, and code may update and rebuild. The operations that
are entered anew from inside are therefore handed down in a `Reentry`; `Act` is an operation on the
engine that may fail, and that has no outcome if it is nested more deeply than was allowed.
-/

namespace ReactiveView

/-- A change of the engine, without an outcome if it is nested too deeply. -/
abbrev RenderM := StateT Engine Option

/-- An operation on the engine that may fail. What it changed before it failed stays changed. -/
abbrev Act := ExceptT EngineError RenderM

/-- The operations that are entered anew while others are running. -/
structure Reentry where
  /-- Build a body. -/
  build : Body → Cursor → Act Unit
  /-- Update a node and all that is under it. -/
  update : NodeId → Act Unit
  /-- Build a context anew. -/
  rebuild : NodeId → Act Unit

/-- Where code stands. -/
structure Site where
  /-- The context whose variables it sees. -/
  ctx : NodeId
  /-- The innermost frame around it. -/
  frame : Option FrameId := none
  /-- The node that it is run for. -/
  this : Option NodeId := none
  /-- The node for which its reads are recorded. -/
  track : Option NodeId := none

namespace Engine

/-- Record a read of a variable, if the site is tracked. -/
def trackAt (e : Engine) (site : Site) (owner : NodeId) (name : String) : Engine :=
  match site.track with
  | none => e
  | some node => e.track owner name node

/-- Look up a name. -/
def lookupAt (e : Engine) (site : Site) (name : String) : Option Value × Engine :=
  match e.frames.lookup? site.frame name with
  | some v => (some v, e)
  | none =>
    if name = "refs" then (some (e.refsValue site.ctx), e)
    else
      match e.findVar site.ctx name with
      | some (owner, v) => (some v, e.trackAt site owner name)
      | none => (none, e.trackAt site (e.scopeOwner site.ctx) name)

/-- A property that only elements have; any other name is that of an attribute. -/
def elementProperty (data : ElementData) (name : String) : Value :=
  match name with
  | "value" => data.state.value.getD .null
  | "attrs" => .map (data.state.attrs.mapValues .str)
  | "classes" => .list (data.state.classList.map .str)
  | "data" => .map data.state.data
  | _ => ((data.state.attrs.get? name).map .str).getD .null

/-- A property of a node that is no component instance. -/
def property (id : NodeId) (n : RenderNode) (name : String) : Value :=
  match name with
  | "oid" => .int id.oid.toInt64
  | "tag" => .str n.kind.tag
  | "text" => (n.kind.text?.map .str).getD .null
  | _ => ((n.kind.element?).map fun data => elementProperty data name).getD .null

/-- A member of a value: for a component instance one of its variables, for any other node one of
its properties, and null for a node that is gone. -/
def memberAt (e : Engine) (site : Site) (target : Value) (name : String) :
    Option Value × Engine :=
  match target.asNode? with
  | none => (none, e)
  | some oid =>
    let id := NodeId.ofOid oid
    match e.node? id with
    | none => (some .null, e)
    | some n =>
      if n.isContext then
        let owner := e.scopeOwner id
        (some (((e.scopeOf owner).bind (·.get? name)).getD .null), e.trackAt site owner name)
      else (some (property id n name), e)

/-- Change what an element shows, and report it if that changed. -/
def editElement (e : Engine) (id : NodeId) (f : ElementData → ElementData) : Engine :=
  match e.element? id with
  | none => e
  | some data =>
    let changed := !(f data).state.same data.state
    let e := e.modifyElement id f
    if changed then e.report id else e

/-- Change the classes that code has added to an element. -/
def editClasses (e : Engine) (id : NodeId) (f : List String → List String) : Engine :=
  e.editElement id fun data =>
    { data with state := { data.state with extraClasses := f data.state.extraClasses } }

/-- Record an edit of an element, and apply it. -/
def editOverlay (e : Engine) (id : NodeId) (f : ElementOverlay → ElementOverlay) : Engine :=
  e.editElement id fun data =>
    { data with overlay := f data.overlay, state := (f data.overlay).apply data.state }

/-- Set the text of an element or a text node, and report it if that changed. -/
def setNodeText (e : Engine) (id : NodeId) (text : String) : Engine :=
  match e.node? id with
  | none => e
  | some n =>
    match n.kind with
    | .element data =>
      if data.state.text = some text then e
      else
        let e := e.modifyElement id fun data =>
          { data with state := { data.state with text := some text } }
        e.report id
    | .text data =>
      if data.text = text then e
      else (e.modifyKind id fun _ => .text { data with text := text }).report id
    | _ => e

end Engine

/-! ## Intrinsics -/

namespace Intrinsic

/-- The names of the intrinsics. -/
def names : List String :=
  ["add_class", "remove_class", "toggle_class", "set_text", "set_attr", "set_style", "focus",
    "emit", "log", "metrics", "request_value", "validity", "rebuild", "update"]

/-- The outcome of an intrinsic. -/
abbrev Outcome := Except EvalError

/-- Fail. -/
def fault {α : Type} (name : String) (f : ArgumentFault) : Outcome α :=
  .error ⟨.invalidArgument name f, none⟩

/-- The node that an intrinsic is about, and the other arguments: the first argument if it is a
node, else the node whose code is run. -/
def target (e : Engine) (site : Site) (name : String) (args : List Value) :
    Outcome (NodeId × List Value) :=
  match args.head?.bind (·.asNode?) with
  | some oid =>
    match e.nodeByOid oid with
    | some id => .ok (id, args.drop 1)
    | none => fault name .deadNode
  | none =>
    match site.this with
    | some id => .ok (id, args)
    | none => fault name .notNode

/-- The text of an argument. -/
def textArg (name : String) (args : List Value) (index : Nat) : Outcome String :=
  match args[index]? with
  | some v => .ok v.display
  | none => .error ⟨.arity name (index + 1) args.length, none⟩

/-- The target of an intrinsic, the text of its first further argument, and its second one. -/
def edit (e : Engine) (site : Site) (name : String) (args : List Value) :
    Outcome (NodeId × String × Value) := do
  let (id, rest) ← target e site name args
  let text ← textArg name rest 0
  return (id, text, (rest[1]?).getD .null)

/-- The text that a value stands for, where some values stand for removal. -/
def textUnless (removes : Value → Bool) (v : Value) : Option String :=
  if removes v then none else some v.display

/-- Whether a value removes an attribute. -/
def removesAttribute : Value → Bool
  | .null | .bool false => true
  | _ => false

/-- A change of the engine by an intrinsic that gives null. -/
def change (e : Engine) (outcome : Outcome Engine) : Outcome Value × Engine :=
  match outcome with
  | .ok e => (.ok .null, e)
  | .error err => (.error err, e)

/-- Ask the consumer about the target. -/
def ask (e : Engine) (site : Site) (name : String) (args : List Value) (kind : RequestKind) :
    Outcome Value × Engine :=
  match target e site name args with
  | .error err => (.error err, e)
  | .ok (id, _) =>
    let (v, e) := e.request id kind
    (.ok v, e)

/-- The intrinsics that build and update nothing. -/
def callPure (e : Engine) (site : Site) (name : String) (args : List Value) :
    Outcome Value × Engine :=
  match name with
  | "add_class" => change e do
    let (id, text, _) ← edit e site name args
    return e.editClasses id fun cs => if cs.contains text then cs else cs ++ [text]
  | "remove_class" => change e do
    let (id, text, _) ← edit e site name args
    return e.editClasses id fun cs => cs.filter (· ≠ text)
  | "toggle_class" => change e do
    let (id, text, _) ← edit e site name args
    return e.editClasses id fun cs =>
      if cs.contains text then cs.filter (· ≠ text) else cs ++ [text]
  | "set_text" => change e do
    let (id, text, _) ← edit e site name args
    return e.setNodeText id text
  | "set_attr" => change e do
    let (id, text, v) ← edit e site name args
    return e.editOverlay id fun o =>
      { o with attrs := o.attrs.insert text (textUnless removesAttribute v) }
  | "set_style" => change e do
    let (id, text, v) ← edit e site name args
    return e.editOverlay id fun o =>
      { o with style := o.style.insert text (textUnless (·.isNull) v) }
  | "focus" => change e do
    let (id, _) ← target e site name args
    return e.editOverlay id fun o => { o with focus := true }
  | "emit" =>
    match textArg name args 0 with
    | .error err => (.error err, e)
    | .ok method =>
      (.ok (.bool e.remote.isSome), e.send (.call method ((args.drop 1).map Value.toJson)))
  | "log" => (.ok .null, e.send (.log (" ".intercalate (args.map (·.display)))))
  | "metrics" => ask e site name args .metrics
  | "request_value" => ask e site name args .value
  | "validity" => ask e site name args .validity
  | _ => (.error ⟨.undefined name, none⟩, e)

/-- The context that is to be rebuilt: the one that owns the first argument if that is a node, else
the one whose code is run. -/
def rebuildTarget (e : Engine) (site : Site) (args : List Value) : Outcome NodeId :=
  match args.head?.bind (·.asNode?) with
  | none => .ok (e.owningContext site.ctx)
  | some oid =>
    match e.nodeByOid oid with
    | none => fault "rebuild" .deadNode
    | some id => .ok (e.owningContext id)

/-- How code sees the error of an operation that it ran. -/
def seenError (name : String) : EngineError → EvalError
  | .cancelled => ⟨.interrupted, none⟩
  | .eval err => err
  | other => ⟨.invalidArgument name (.host other.message), none⟩

/-- Run an operation from code, which is counted. -/
def enter (name : String) (action : Act Unit) : RenderM (Outcome Value) := do
  modify fun e => { e with entries := e.entries + 1 }
  match ← action.run with
  | .ok () => return .ok .null
  | .error err => return .error (seenError name err)

/-- Call an intrinsic. -/
def call (re : Reentry) (site : Site) (name : String) (args : List Value) :
    RenderM (Outcome Value) := do
  let e ← get
  match name with
  | "rebuild" =>
    match rebuildTarget e site args with
    | .error err => return .error err
    | .ok ctx => enter name (re.rebuild ctx)
  | "update" =>
    match target e site name args with
    | .error err => return .error err
    | .ok (id, _) => enter name (re.update id)
  | _ =>
    let (outcome, e) := callPure e site name args
    set e
    return outcome

end Intrinsic

/-! ## Running code -/

/-- Change the engine by a function that also has a result. -/
def RenderM.step {α : Type} (f : Engine → α × Engine) : RenderM α := fun e => some (f e)

/-- Ask the token whether to stop. -/
def Engine.poll (e : Engine) : Bool × Engine :=
  let (stop, cancel) := e.cancel.poll
  (stop, { e with cancel := cancel })

/-- The tree as an environment of code at a site. -/
def Site.env (re : Reentry) (site : Site) : Env RenderM where
  lookup name := .step fun e => e.lookupAt site name
  has name := .step fun e => (e.frames.binds site.frame name || (e.getVar site.ctx name).isSome, e)
  assign name v := .step fun e => ((), e.writeVar (e.scopeOwner site.ctx) name v)
  this := return (site.this.map fun id => .node id.oid).getD .null
  member target name := .step fun e => e.memberAt site target name
  isIntrinsic name := Intrinsic.names.contains name
  callIntrinsic name args := Intrinsic.call re site name args
  interrupted := .step Engine.poll
  freshSerial := .step fun e => (e.serial, { e with serial := e.serial + 1 })

namespace Act

/-- Read the engine. -/
def read {α : Type} (f : Engine → α) : Act α := ExceptT.lift (.step fun e => (f e, e))

/-- Change the engine. -/
def change (f : Engine → Engine) : Act Unit := ExceptT.lift (.step fun e => ((), f e))

/-- Change the engine by a function that also has a result. -/
def step {α : Type} (f : Engine → α × Engine) : Act α := ExceptT.lift (.step f)

/-- Fail if the token says so. -/
def poll : Act Unit := do
  if ← step Engine.poll then throw .cancelled

/-- Run an evaluation; its error is a value. -/
def evaluating {α : Type} (action : Eval RenderM α) : Act (Except EvalError α) :=
  ExceptT.lift action.run

end Act

/-- The site of an expression of a node, whose reads are recorded or not. -/
def Site.ofNode (ctx : NodeId) (frame : Option FrameId) (node : NodeId) (tracked : Bool) : Site :=
  ⟨ctx, frame, some node, if tracked then some node else none⟩

/-- The site of code that stands at a cursor and is run for no node. -/
def Cursor.site (c : Cursor) : Site := ⟨c.ctx, c.frame, none, none⟩

namespace Render

variable (re : Reentry)

/-- The outcome of an evaluation, and null if it failed, which is recorded. Only an interruption
makes the operation fail. -/
def recover (outcome : Except EvalError Value) (ctx : NodeId) (node : Option NodeId) : Act Value :=
  match outcome with
  | .ok v => pure v
  | .error err => do
    if err.isInterruption then throw .cancelled
    Act.change (·.diagnose ctx node err.cause.message err.line)
    return .null

/-- The value of an expression at a site. Failures are recorded for the node of the site. -/
def evaluateAt (site : Site) (e : DynamicExpr) : Act Value := do
  let outcome ← Act.evaluating (Interpreter.eval (site.env re) e.expr)
  recover outcome site.ctx site.this

/-- The value of an expression at a cursor; its reads are not recorded. -/
def evaluateHere (cursor : Cursor) (e : DynamicExpr) : Act Value := evaluateAt re cursor.site e

/-- The value of an attribute at a site; without an operand it is true. -/
def operandAt (site : Site) : AttrValue → Act Value
  | .empty => pure (.bool true)
  | .literal s => pure (.str s)
  | .dynamic e => evaluateAt re site e

/-- Call a function for a node. -/
def invoke (ctx : NodeId) (this : Option NodeId) (f : Value) (args : List Value) : Act Value := do
  let site : Site := ⟨ctx, none, this, none⟩
  match ← Act.evaluating (Interpreter.callValue (site.env re) f args) with
  | .ok v => return v
  | .error err => if err.isInterruption then throw .cancelled else throw (.eval err)

/-- Call a function and record its failure. -/
def invokeSafely (ctx : NodeId) (this : Option NodeId) (f : Value) (args : List Value) :
    Act Value :=
  tryCatch (invoke re ctx this f args) fun
    | .eval err => do
      Act.change (·.diagnose ctx this err.cause.message err.line)
      return .null
    | other => throw other

/-- Call the function of a name that a context sees. -/
def callHook (ctx : NodeId) (this : Option NodeId) (name : String) (args : List Value) :
    Act Value := do
  match ← Act.read fun e => (e.getVar ctx name).filter (·.isCallable) with
  | some f => invokeSafely re ctx this f args
  | none =>
    let context ← Act.read (·.contextName ctx)
    throw (.hookNotFound context name)

/-- Call the function of a name that a context sees; if there is none, that is recorded. -/
def callHookSafely (ctx : NodeId) (this : Option NodeId) (name : String) (args : List Value) :
    Act Unit :=
  tryCatch (discard (callHook re ctx this name args)) fun
    | .hookNotFound context hook =>
      Act.change (·.diagnose ctx this (EngineError.hookNotFound context hook).message none)
    | other => throw other

/-- Call a function that a context defines itself, if it does. -/
def callOwnHook (ctx : NodeId) (this : Option NodeId) (name : String) (args : List Value) :
    Act Unit := do
  match ← Act.read (·.ownFunction ctx name) with
  | some f => discard (invokeSafely re ctx this f args)
  | none => return ()

end Render
end ReactiveView
