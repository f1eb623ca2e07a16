import ReactiveView.Cancel
import ReactiveView.Localization
import ReactiveView.Render.Error
import ReactiveView.Render.Library
import ReactiveView.Render.Node
import ReactiveView.Render.Options
import ReactiveView.Tree.Shot
import ReactiveView.Value.Json
import ReactiveView.Wire.Message

/-!
# The engine

The state of a rendering session: the rendered tree, the changes since the last shot, and the writes
whose readers have still to be updated.

Variables are looked up along the callers of a context (`callers`), each of which has variables of
its own or shares those of another (`scopeOwner`). A tracked read is recorded with the context whose
variables supplied the value, or, if there is none, with the innermost one (`track`). A write that
changes a variable with readers is queued (`writeVar`).
-/

namespace ReactiveView

/-- The connection to the consumer. -/
structure Remote where
  /-- What the consumer answers to requests of each kind, if it answers them. -/
  answers : List (RequestKind × Json) := []
  /-- The messages that were sent and not yet taken, oldest first. -/
  outbox : List Message := []

/-- The state of a rendering session. -/
structure Engine where
  /-- The rendered tree. -/
  nodes : Arena RenderNode := .empty
  /-- The frames of loops, sets and scopes. -/
  frames : FrameStore := .empty
  /-- The changes since the last shot. -/
  shot : Shot := .empty
  /-- Where components come from. -/
  library : Library := {}
  /-- How the engine works. -/
  options : EngineOptions := {}
  /-- The connection to the consumer, if there is one. -/
  remote : Option Remote := none
  /-- Whether running operations are to stop. -/
  cancel : Cancel := {}
  /-- The translations of texts. -/
  translator : Translator := {}
  /-- The place from which assets are served. -/
  assets : String := "/static"
  /-- The problems that were met and not yet taken, oldest first. -/
  diagnostics : List Diagnostic := []
  /-- The outermost component instance. -/
  root : Option NodeId := none
  /-- The variables that were changed, and whose readers have still to be updated. -/
  pending : OrderedSet (NodeId × String) := .empty
  /-- The number of functions defined so far. -/
  serial : Nat := 0
  /-- How often code has rebuilt or updated nodes while an operation was running. -/
  entries : Nat := 0

namespace Engine

/-! ## Nodes -/

/-- A node. -/
def node? (e : Engine) (id : NodeId) : Option RenderNode := e.nodes.get? id

/-- Whether there is a node. -/
def contains (e : Engine) (id : NodeId) : Bool := e.nodes.contains id

/-- The data of a component instance. -/
def context? (e : Engine) (id : NodeId) : Option ContextData :=
  (e.node? id).bind (·.kind.context?)

/-- The data of an element. -/
def element? (e : Engine) (id : NodeId) : Option ElementData :=
  (e.node? id).bind (·.kind.element?)

/-- The node of a number. -/
def nodeByOid (e : Engine) (oid : UInt64) : Option NodeId :=
  let id := NodeId.ofOid oid
  if e.contains id then some id else none

/-- Change a node. -/
def modifyNode (e : Engine) (id : NodeId) (f : RenderNode → RenderNode) : Engine :=
  { e with nodes := e.nodes.modify id f }

/-- Change what a node is. -/
def modifyKind (e : Engine) (id : NodeId) (f : RenderKind → RenderKind) : Engine :=
  e.modifyNode id fun n => { n with kind := f n.kind }

/-- Change the data of a component instance. -/
def modifyContext (e : Engine) (id : NodeId) (f : ContextData → ContextData) : Engine :=
  e.modifyKind id (·.modifyContext f)

/-- Change the data of an element. -/
def modifyElement (e : Engine) (id : NodeId) (f : ElementData → ElementData) : Engine :=
  e.modifyKind id (·.modifyElement f)

/-- More than the length of any chain of nodes without a repetition. -/
def chainBound (e : Engine) : Nat := e.nodes.size + 1

/-- The first `length` ancestors of a node, nearest first. The last one may be gone. -/
def ancestorsIn (e : Engine) : (length : Nat) → NodeId → List NodeId
  | 0, _ => []
  | length + 1, id =>
    match (e.node? id).bind (·.parent) with
    | none => []
    | some parent => parent :: e.ancestorsIn length parent

/-- The ancestors of a node, nearest first. -/
def ancestors (e : Engine) (id : NodeId) : List NodeId := e.ancestorsIn e.chainBound id

/-- Whether the consumer is told of a node. -/
def isReportable (e : Engine) (id : NodeId) : Bool := (e.node? id).any (·.flags.reportable)

/-- The nearest ancestor that the consumer is told of. -/
def reportableAncestor? (e : Engine) (id : NodeId) : Option NodeId :=
  (e.ancestors id).find? e.isReportable

/-- The namespace of what is built under a node: that of the nearest element. -/
def namespaceAt (e : Engine) (id : NodeId) : Namespace :=
  ((id :: e.ancestors id).findSome? fun a => (e.element? a).map (·.ns)).getD .html

/-- The nodes of a subtree down to a depth, in the order in which they stand. -/
def subtreeIn (e : Engine) : (depth : Nat) → NodeId → List NodeId
  | 0, _ => []
  | depth + 1, id =>
    match e.node? id with
    | none => []
    | some n => id :: n.children.flatMap (e.subtreeIn depth)

/-- The nodes of a subtree, in the order in which they stand. -/
def subtree (e : Engine) (id : NodeId) : List NodeId := e.subtreeIn e.chainBound id

/-- Put a new node at the end of the children of a cursor's parent. -/
def addNode (e : Engine) (kind : RenderKind) (cursor : Cursor) (flags : NodeFlags) :
    NodeId × Engine :=
  let node : RenderNode :=
    { kind := kind, parent := some cursor.parent, context := cursor.ctx, flags := flags,
      frame := cursor.frame }
  let (id, nodes) := e.nodes.insert node
  let e := { e with nodes := nodes }
  let e := e.modifyNode cursor.parent fun n => { n with children := n.children ++ [id] }
  (id, if flags.reportable then { e with shot := e.shot.create id } else e)

/-- Report a change of a node, if the consumer is told of it. -/
def report (e : Engine) (id : NodeId) : Engine :=
  if e.isReportable id then { e with shot := e.shot.update id } else e

/-! ## Contexts and variables -/

/-- The context that owns a node; a component instance owns itself. -/
def owningContext (e : Engine) (id : NodeId) : NodeId :=
  match e.node? id with
  | none => id
  | some n => if n.isContext then id else n.context

/-- The context that has the variables of a context. -/
def scopeOwner (e : Engine) (ctx : NodeId) : NodeId :=
  ((e.context? ctx).bind (·.sharedWith)).getD ctx

/-- The variables that a context has of its own. -/
def scopeOf (e : Engine) (ctx : NodeId) : Option Scope := (e.context? ctx).map (·.scope)

/-- The name of a context. -/
def contextName (e : Engine) (ctx : NodeId) : String :=
  ((e.context? ctx).map (·.name)).getD ""

/-- The first `length` contexts along the callers of a context, which is the first of them. -/
def callersIn (e : Engine) : (length : Nat) → NodeId → List NodeId
  | 0, _ => []
  | length + 1, ctx =>
    match e.node? ctx with
    | none => [ctx]
    | some n => if n.context = ctx then [ctx] else ctx :: e.callersIn length n.context

/-- A context, its caller, and so on. -/
def callers (e : Engine) (ctx : NodeId) : List NodeId := e.callersIn e.chainBound ctx

/-- The value of a variable as a context sees it, and the context that has the variable. -/
def findVar (e : Engine) (ctx : NodeId) (name : String) : Option (NodeId × Value) :=
  (e.callers ctx).findSome? fun c =>
    let owner := e.scopeOwner c
    ((e.scopeOf owner).bind (·.get? name)).map fun v => (owner, v)

/-- The value of a variable as a context sees it. -/
def getVar (e : Engine) (ctx : NodeId) (name : String) : Option Value :=
  (e.findVar ctx name).map (·.2)

/-- A function that a context defines or shares. -/
def ownFunction (e : Engine) (ctx : NodeId) (name : String) : Option Value :=
  ((e.scopeOf (e.scopeOwner ctx)).bind (·.get? name)).filter (·.isCallable)

/-- The nodes that have a name in a context, as a map. -/
def refsValue (e : Engine) (ctx : NodeId) : Value :=
  match e.context? ctx with
  | none => .null
  | some data =>
    .map ((data.refs.filter fun _ id => e.contains id).mapValues fun id => .node id.oid)

/-- Record that a node has read a variable of a context. -/
def track (e : Engine) (owner : NodeId) (name : String) (node : NodeId) : Engine :=
  if (e.context? owner).isSome && isTrackedKey name then
    let e := e.modifyContext owner fun data => { data with index := data.index.track name node }
    e.modifyNode node fun n =>
      if n.watchers.contains owner then n else { n with watchers := n.watchers ++ [owner] }
  else e

/-- Drop all records of reads of a node. -/
def purge (e : Engine) (node : NodeId) : Engine :=
  match e.node? node with
  | none => e
  | some n =>
    n.watchers.foldl
      (fun e owner =>
        e.modifyContext owner fun data => { data with index := data.index.purge node })
      (e.modifyNode node fun n => { n with watchers := [] })

/-- Write a variable of a context, and queue it if that changes what its readers have read. -/
def writeVar (e : Engine) (owner : NodeId) (name : String) (v : Value) : Engine :=
  match e.context? owner with
  | none => e
  | some data =>
    match data.scope.write? name v with
    | none => e
    | some scope =>
      let e := e.modifyContext owner fun data => { data with scope := scope }
      if data.index.hasDependents name then { e with pending := e.pending.insert (owner, name) }
      else e

/-- Write a variable of a context that is being set up; nothing has read it yet. -/
def initVar (e : Engine) (owner : NodeId) (name : String) (v : Value) : Engine :=
  e.modifyContext owner fun data => { data with scope := data.scope.insert name v }

/-- Give a node a name in a context. -/
def bindRef (e : Engine) (ctx : NodeId) (name : String) (id : NodeId) : Engine :=
  let e := e.modifyContext ctx fun data => { data with refs := data.refs.insert name id }
  e.modifyNode id fun n => { n with refName := some name }

/-- Add a frame inside another one. -/
def addFrame (e : Engine) (parent : Option FrameId) (bindings : List (String × Value)) :
    FrameId × Engine :=
  let (id, frames) := e.frames.add parent (.ofList bindings)
  (id, { e with frames := frames })

/-! ## The consumer and the host -/

/-- Send a message, if there is a connection. -/
def send (e : Engine) (m : Message) : Engine :=
  { e with remote := e.remote.map fun r => { r with outbox := r.outbox ++ [m] } }

/-- Record a problem, and send it. -/
def diagnose (e : Engine) (ctx : NodeId) (node : Option NodeId) (message : String)
    (line : Option Nat) : Engine :=
  let d : Diagnostic := ⟨e.contextName (e.owningContext ctx), node, message, line⟩
  { e.send (.error d.text line) with diagnostics := e.diagnostics ++ [d] }

/-- The message that asks for a value of a node. -/
def requestMessage (e : Engine) (id : NodeId) : RequestKind → Message
  | .metrics => .metrics id.oid
  | .value => .value id.oid ((e.element? id).bind (·.state.valueType))
  | .validity => .validity id.oid

/-- Ask the consumer for a value of a node; nothing without a connection or an answer. -/
def request (e : Engine) (id : NodeId) (kind : RequestKind) : Value × Engine :=
  match e.remote with
  | none => (.null, e)
  | some r =>
    let answer := (r.answers.find? (·.1 = kind)).map (·.2)
    ((answer.map Value.ofJson).getD .null, e.send (e.requestMessage id kind))

/-- A text as it is shown: one that begins with a number sign is translated. Asking for a certain
translation may raise the token. -/
def localizeText (e : Engine) (text : String) : String × Engine :=
  if text.toList.head? = some '#' then
    (e.translator.translate text,
      if e.translator.cancelOn = some text then { e with cancel := e.cancel.raise } else e)
  else (text, e)

end Engine
end ReactiveView
