import ReactiveView.Render.Build

/-!
# Updating

Evaluating nodes again. Before a node is evaluated again, the records of its reads are dropped, so
that afterwards they are those of the new evaluation. A condition, a loop or a set builds its body
anew only if what selects it has changed; a loop with identities keeps the nodes of the items that
stay, and moves them.

Writes are followed up in rounds (`flush`): each round takes the variables that were changed, and
updates their readers, those nearest to the root first.
-/

namespace ReactiveView

namespace Engine

/-- The outermost nodes of a subtree that the consumer is told of, down to a depth. -/
def topReportableIn (e : Engine) : (depth : Nat) → NodeId → List NodeId
  | 0, _ => []
  | depth + 1, id =>
    match e.node? id with
    | none => []
    | some n => if n.flags.reportable then [id] else n.children.flatMap (e.topReportableIn depth)

/-- Report that a node was moved as it is. -/
def flagRebind (e : Engine) (id : NodeId) : Engine :=
  let e := e.modifyNode id fun n => { n with flags := { n.flags with rebind := true } }
  { e with shot := e.shot.update id }

/-- Report that a subtree was moved as it is. -/
def markRebind (e : Engine) (id : NodeId) : Engine :=
  (e.topReportableIn e.chainBound id).foldl flagRebind e

/-- Bind a name of a frame again; whether its value changed. -/
def rebindFrame (e : Engine) (frame : FrameId) (name : String) (v : Value) : Bool × Engine :=
  let (changed, frames) := e.frames.rebind frame name v
  (changed, { e with frames := frames })

/-- Take the instances out of a loop, which is left as if it were not built, with no empty case. -/
def takeInstances (e : Engine) (id : NodeId) : OrderedMap Key Instance × Engine :=
  match (e.node? id).map (·.kind) with
  | some (RenderKind.loop data) =>
    let e := if data.showingEmpty then e.clearChildren id else e
    let e := e.modifyKind id fun _ => .loop { data with state := .unbuilt, showingEmpty := false }
    match data.state with
    | .keyed instances => (instances, e)
    | _ => (.empty, e)
  | _ => (.empty, e)

/-- Remove the instances whose keys are not wanted. -/
def dropInstances (e : Engine) (old : OrderedMap Key Instance) (wanted : Key → Bool) : Engine :=
  old.entries.foldl
    (fun e entry => if wanted entry.1 then e else entry.2.nodes.foldl removeNode e) e

/-- Put the children of a loop into the order of its instances. -/
def orderChildren (e : Engine) (id : NodeId) (instances : OrderedMap Key Instance) : Engine :=
  let order := (instances.values.flatMap (·.nodes)).filter e.contains
  e.modifyNode id fun n => { n with children := order }

/-- Forget the names of nodes that are gone, and the styles, of a context that is built anew. -/
def resetContext (e : Engine) (ctx : NodeId) : Engine :=
  e.modifyContext ctx fun data =>
    { data with refs := data.refs.filter fun _ id => e.contains id, restyle := false }

/-- The readers of variables, each at its first mention. -/
def readersOf (e : Engine) (written : List (NodeId × String)) : List NodeId :=
  (OrderedSet.ofList (written.flatMap fun (owner, key) =>
    ((e.context? owner).map fun data => data.index.dependents key).getD [])).toList

/-- Nodes by their distance from the root, nearest first. -/
def byDepth (e : Engine) (ids : List NodeId) : List NodeId :=
  ((ids.map fun id => ((e.ancestors id).length, id)).mergeSort fun a b => a.1 ≤ b.1).map (·.2)

end Engine

namespace Render

variable (re : Reentry)

/-- Update everything under a node. -/
def updateChildren (id : NodeId) : Act Unit := do
  let children ← Act.read (·.childrenOf id)
  children.forM re.update

/-! ## Loops -/

/-- Update a loop without identities. -/
def updatePlain (id : NodeId) (items : List Value) (recursive : Bool) : Act Unit := do
  match ← Act.read (·.node? id) with
  | none => return ()
  | some n =>
    match n.kind with
    | .loop data =>
      let unchanged :=
        match data.state with
        | .plain old => Value.sameItems old items
        | _ => false
      if unchanged then
        if recursive then updateChildren re id
      else
        Act.change (·.clearChildren id)
        fillLoop re id items
    | _ => return ()

/-- The first item of each key, with the value of its identity. -/
def wantedItems (spec : LoopSpec) (cursor : Cursor) :
    List Value → OrderedMap Key (Value × Value) → Act (OrderedMap Key (Value × Value))
  | [], wanted => pure wanted
  | item :: items, wanted => do
    let (key, identity) ← loopKey re spec cursor item
    wantedItems spec cursor items
      (if wanted.contains key then wanted else wanted.insert key (identity, item))

/-- Bind an instance to its item and its place, and update it if that changed anything. -/
def keepInstance (spec : LoopSpec) (cursor : Cursor) (kept : Instance) (item : Value) (index : Nat)
    (identity : Value) (recursive : Bool) : Act Unit := do
  let itemChanged ← Act.step fun e =>
    let forloop := e.forloop cursor.frame index (some identity)
    let (itemChanged, e) := e.rebindFrame kept.frame spec.var item
    let (placeChanged, e) := e.rebindFrame kept.frame "forloop" forloop
    (itemChanged || placeChanged, e)
  if itemChanged || recursive then kept.nodes.forM re.update

/-- The instances of the wanted items, counted from `index`: those of before that stay, and new
ones. With them come the nodes of instances that have another place than before. -/
def arrangeInstances (spec : LoopSpec) (cursor : Cursor) (recursive : Bool)
    (old : OrderedMap Key Instance) :
    (index : Nat) → List (Key × Value × Value) →
      Act (List (Key × Instance) × List NodeId)
  | _, [] => pure ([], [])
  | index, (key, identity, item) :: wanted => do
    match old.get? key with
    | some kept =>
      keepInstance re spec cursor kept item index identity recursive
      let (instances, moved) ← arrangeInstances spec cursor recursive old (index + 1) wanted
      let stays := old.keys.idxOf? key = some index
      return ((key, kept) :: instances, if stays then moved else kept.nodes ++ moved)
    | none =>
      let built ← buildInstance re spec cursor item index (some identity)
      let (instances, moved) ← arrangeInstances spec cursor recursive old (index + 1) wanted
      return ((key, built) :: instances, moved)

/-- Bring a loop with identities in line with its items. -/
def reconcile (id : NodeId) (items : List Value) (recursive : Bool) : Act Unit := do
  match ← Act.read (·.loopParts? id) with
  | none => return ()
  | some (spec, cursor) =>
    let old ← Act.step (·.takeInstances id)
    let wanted ← wantedItems re spec cursor items .empty
    Act.change (·.dropInstances old wanted.contains)
    let (arranged, moved) ← arrangeInstances re spec cursor recursive old 0 wanted.entries
    let instances : OrderedMap Key Instance := ⟨arranged⟩
    Act.change (·.orderChildren id instances)
    Act.change fun e => moved.foldl Engine.markRebind e
    finishLoop re id spec cursor (.keyed instances)

/-! ## Components and signals -/

/-- Evaluate the attributes of a reference again, and write their values into the component. -/
def propagateSources (id : NodeId) (n : RenderNode) (data : ContextData) : Act Unit :=
  if n.context = id || data.sources.isEmpty then pure ()
  else do
    Act.change (·.purge id)
    let owner ← Act.read (·.scopeOwner id)
    data.sources.forM fun (name, e) => do
      let v ← evaluateAt re (.ofNode n.context data.callerFrame id e.reactive) e
      Act.change (·.writeVar owner name v)

/-- Call the action of a signal with the present value of its variable. -/
def fireSignal (ctx id : NodeId) (signal : SignalData) : Act Unit := do
  let v ← Act.read fun e => (e.getVar ctx signal.key).getD .null
  callHookSafely re ctx (some id) signal.action [v]

/-- Build the template of a context anew. -/
def rebuildContext (ctx : NodeId) : Act Unit := do
  match ← Act.read (·.node? ctx) with
  | none => throw (.nodeNotFound ctx)
  | some n =>
    if !n.isContext then throw (.notAContext ctx)
    let ns ← Act.read (·.namespaceAt ctx)
    Act.change (·.clearChildren ctx)
    Act.change (·.resetContext ctx)
    runRoutine re ctx ns

/-! ## Nodes -/

/-- Evaluate a node again; with `recursive`, also everything under it. -/
def updateNode (id : NodeId) (recursive : Bool) : Act Unit := do
  Act.poll
  match ← Act.read (·.node? id) with
  | none => return ()
  | some n =>
    match n.kind with
    | .element _ =>
      Act.change (·.purge id)
      if ← refreshElement re id then Act.change (·.report id)
      if recursive then updateChildren re id
    | .text _ =>
      Act.change (·.purge id)
      if ← refreshText re id then Act.change (·.report id)
    | .context data =>
      propagateSources re id n data
      if recursive then updateChildren re id
    | .condition data =>
      Act.change (·.purge id)
      let selected ← selectBranch re id
      if selected ≠ data.selected then
        Act.change (·.clearChildren id)
        buildBranch re id selected
      else if recursive then updateChildren re id
    | .loop data =>
      Act.change (·.purge id)
      let items ← loopItems re id
      if data.isKeyed then reconcile re id items recursive
      else updatePlain re id items recursive
    | .set data =>
      Act.change (·.purge id)
      let v ← setValue re id
      if !v.same data.current then
        Act.change (·.clearChildren id)
        fillSet re id v
      else if recursive then updateChildren re id
    | .carrier _ => return ()
    | .signal data => if recursive then return () else fireSignal re n.context id data

/-- Update nodes that still exist, in turn. -/
def updateLive (ids : List NodeId) : Act Unit :=
  ids.forM fun id => do
    if ← Act.read (·.contains id) then updateNode re id false

/-- Take the queued writes; the readers of the variables, in the order in which they are updated. -/
def takeReaders : Act (List NodeId) := Act.step fun e =>
  (e.byDepth (e.readersOf e.pending.toList), { e with pending := .empty })

/-- Give the queued writes up, and record that. -/
def giveUp (limit : Nat) (first : NodeId) : Act Unit :=
  Act.change fun e =>
    { e with pending := .empty }.diagnose first none (EngineError.updateDepth limit).message none

/-- Follow queued writes up in at most `rounds` rounds. -/
def flush (limit : Nat) : (rounds : Nat) → Act Unit
  | 0 => do
    match (← Act.read (·.pending.toList)).head? with
    | none => return ()
    | some (owner, _) => giveUp limit owner
  | rounds + 1 => do
    if ← Act.read (·.pending.isEmpty) then return ()
    else
      updateLive re (← takeReaders)
      flush limit rounds

end Render

/-- The operations that may be entered anew at most `depth` times inside each other. -/
def Reentry.within : (depth : Nat) → Reentry
  | 0 => ⟨fun _ _ _ => none, fun _ _ => none, fun _ _ => none⟩
  | depth + 1 =>
    { build := fun body cursor => Render.buildBody (within depth) body cursor
      update := fun id => Render.updateNode (within depth) id true
      rebuild := fun ctx => Render.rebuildContext (within depth) ctx }

end ReactiveView
