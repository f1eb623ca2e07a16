import ReactiveView.Render.Update

/-!
# Sessions

What a host does with an engine. Every operation that runs code is one batch (`batch`): writes are
queued while it runs, and their readers are updated when it ends, whether it succeeded or not; the
error of the operation itself comes first.

A host may bound how deeply building, updating and rebuilding are entered inside each other
(`depth`). An operation that goes deeper has no outcome.
-/

namespace ReactiveView

/-- Run an operation. There is no outcome if it is nested too deeply. -/
def Act.runOn {α : Type} (action : Act α) (e : Engine) : Option (Except EngineError α × Engine) :=
  action.run.run e

namespace Engine

/-! ## Reading -/

/-- The node that has a name in a context. -/
def findRef (e : Engine) (ctx : NodeId) (name : String) : Option NodeId :=
  ((e.context? ctx).bind (·.refs.get? name)).filter e.contains

/-- What the consumer is told of a node. -/
def payload (e : Engine) (id : NodeId) : Option NodePayload :=
  (e.node? id).map fun n =>
    let common : NodePayload :=
      { id := id.oid, parent := (e.reportableAncestor? id).map (·.oid), tag := n.kind.tag,
        kind := n.kind.name, rebind := n.flags.rebind }
    match n.kind with
    | .element data =>
      let state := data.state
      { common with
        attrs := state.attrs, classes := state.classList, style := state.style, text := state.text,
        value := state.value.map Value.toJson, valueType := state.valueType,
        data := state.data.mapValues Value.toJson, ns := data.ns, focus := state.focus,
        localize := state.localize }
    | .text data => { common with text := some data.text }
    | .carrier data =>
      { common with attrs := data.attrs, text := data.text, restyle := data.restyle }
    | .context data => { common with restyle := data.restyle }
    | _ => common

/-! ## Shots -/

/-- Report every node again, as if it were new. -/
def refresh (e : Engine) : Engine :=
  match e.root with
  | none => e
  | some root =>
    { e with shot := ((e.subtree root).filter e.isReportable).foldl Shot.create e.shot }

/-- Take the changes since the last shot. -/
def drainShot (e : Engine) : ShotBatch × Engine :=
  let batch : ShotBatch :=
    { created := e.shot.created.toList.filterMap e.payload
      updated := e.shot.updated.toList.filterMap e.payload
      deleted := e.shot.deleted.toList.map (·.oid) }
  let reported := e.shot.updated.toList ++ e.shot.created.toList
  let e := reported.foldl
    (fun e id => e.modifyNode id fun n => { n with flags := { n.flags with rebind := false } }) e
  (batch, { e with shot := .empty })

/-- Take the changes since the last shot, and send them. -/
def flushShot (e : Engine) : ShotBatch × Engine :=
  let (batch, e) := e.drainShot
  (batch, batch.messages.foldl send e)

/-- Take the recorded problems. -/
def takeDiagnostics (e : Engine) : List Diagnostic × Engine :=
  (e.diagnostics, { e with diagnostics := [] })

/-- Take the messages that were sent. -/
def takeMessages (e : Engine) : List Message × Engine :=
  ((e.remote.map (·.outbox)).getD [], { e with remote := e.remote.map ({ · with outbox := [] }) })

/-! ## Operations -/

/-- Put an instance of a component at the root. -/
def addRoot (e : Engine) (routine : Routine) (scope : Scope) : NodeId × Engine :=
  let data : ContextData := { name := routine.name, routine := routine, scope := scope }
  let node : RenderNode :=
    { kind := .context data, parent := none, context := ⟨0, 0⟩, flags := { reportable := true } }
  let (id, nodes) := e.nodes.insert node
  let e := { e with nodes := nodes }
  let e := e.modifyNode id fun n => { n with context := id }
  (id, { e with shot := e.shot.create id, root := some id })

end Engine

namespace Render

variable (re : Reentry)

/-- Run an operation and follow the writes up that were queued. -/
def batch {α : Type} (action : Act α) : Act α := do
  let outcome ← ExceptT.lift action.run
  let limit ← Act.read (·.options.maxUpdateDepth)
  let followed ← ExceptT.lift (flush re limit limit).run
  match outcome, followed with
  | .error err, _ => throw err
  | .ok _, .error err => throw err
  | .ok a, .ok () => return a

/-- Change the engine and follow the writes up that were queued. -/
def batchChange (f : Engine → Engine) : Act Unit := batch re (Act.change f)

/-- The context that has the variables of a context, which has to be one. -/
def checkedOwner (ctx : NodeId) : Act NodeId := do
  match ← Act.read (·.node? ctx) with
  | none => throw (.nodeNotFound ctx)
  | some n =>
    if n.isContext then Act.read (·.scopeOwner ctx)
    else throw (.notAContext ctx)

/-- The node that a message is about. -/
def checkedNode (oid : UInt64) : Act NodeId := do
  match ← Act.read (·.nodeByOid oid) with
  | none => throw (.nodeNotFound (.ofOid oid))
  | some id => return id

end Render

namespace Engine

open Render

variable (depth : Nat)

/-- Show a component in place of the present one, with the given variables. -/
def mount (name : String) (scope : Scope) : Act NodeId := do
  let re := Reentry.within depth
  match ← resolveComponent name with
  | none => throw (.componentNotFound name)
  | some routine =>
    match ← Act.read (·.root) with
    | none => pure ()
    | some old =>
      Act.change fun e => { e with root := none }
      batchChange re (·.removeNode old)
    let id ← Act.step (·.addRoot routine scope)
    tryCatch (batch re (runRoutine re id .html)) fun err => do
      batchChange re (·.removeNode id)
      Act.change fun e => { e with root := none }
      throw err
    return id

/-- Build a body at a cursor. -/
def build (body : Body) (cursor : Cursor) : Act Unit :=
  let re := Reentry.within depth
  batch re (re.build body cursor)

/-- Evaluate a node again; of a component instance, only the attributes of its reference. -/
def update (id : NodeId) : Act Unit :=
  let re := Reentry.within depth
  batch re (updateNode re id false)

/-- Evaluate a node and everything under it again. -/
def updateTree (id : NodeId) : Act Unit :=
  let re := Reentry.within depth
  batch re (updateNode re id true)

/-- Remove a node with everything under it. -/
def remove (id : NodeId) : Act Unit := do
  if !(← Act.read (·.contains id)) then throw (.nodeNotFound id)
  Act.change fun e => if e.root = some id then { e with root := none } else e
  batchChange (.within depth) (·.removeNode id)

/-- Build the template of a component instance anew. The consumer is told first if it is the root.
-/
def rebuild (ctx : NodeId) : Act Unit := do
  let re := Reentry.within depth
  Act.change fun e => if e.root = some ctx then e.send .restart else e
  batch re (rebuildContext re ctx)

/-- Write a variable of a component instance. -/
def setVar (ctx : NodeId) (name : String) (v : Value) : Act Unit := do
  let owner ← checkedOwner ctx
  batchChange (.within depth) (·.writeVar owner name v)

/-- Call a function that a component instance sees. -/
def call (ctx : NodeId) (name : String) (args : List Value) : Act Value := do
  let re := Reentry.within depth
  let _ ← checkedOwner ctx
  batch re (callHook re ctx none name args)

/-- Act upon a message of the consumer. An answer that no request waits for is ignored. -/
def handle : Inbound → Act Unit
  | .click oid method args => do
    let re := Reentry.within depth
    let id ← checkedNode oid
    let ctx ← Act.read (·.owningContext id)
    batch re (callHookSafely re ctx (some id) method (.node oid :: args.map Value.ofJson))
  | .bind oid value => do
    let id ← checkedNode oid
    match ← Act.read fun e => (e.element? id).bind (·.bind) with
    | none => return ()
    | some name =>
      let owner ← Act.read fun e => e.scopeOwner (e.owningContext id)
      batchChange (.within depth) (·.writeVar owner name (.ofJson value))
  | .answer _ _ _ => pure ()
  | .refresh => Act.change refresh

end Engine
end ReactiveView
