import ReactiveView.Render.Attributes

/-!
# Building

What each build step does (`runStep`). A body is built at a cursor by running its steps in turn; the
step of a scope moves the cursor, so that its bindings are seen by the steps that follow.

A component that cannot be set up, because its initial hook refused or because the operation failed,
is removed with everything that was built for it.
-/

namespace ReactiveView

namespace Cursor

/-- The cursor under another parent. -/
def under (c : Cursor) (parent : NodeId) : Cursor := { c with parent := parent }

/-- The cursor in another frame. -/
def inFrame (c : Cursor) (frame : FrameId) : Cursor := { c with frame := some frame }

end Cursor

namespace AttrAction

/-- The hook that runs when the node has been created. -/
def initHook? : AttrAction → Option String
  | onInit hook => some hook
  | _ => none

/-- The hook that runs when the node has been built. -/
def renderHook? : AttrAction → Option String
  | onRender hook => some hook
  | _ => none

/-- The variable that an element is bound to. -/
def bound? : AttrAction → Option String
  | bindValue name => some name
  | _ => none

/-- Whether all evaluations of the element are tracked. -/
def isReactive : AttrAction → Bool
  | reactive => true
  | _ => false

/-- Whether the variables of the caller are shared. -/
def sharesScope : AttrAction → Bool
  | consume none => true
  | _ => false

end AttrAction

/-- What a loop repeats, and the cursor at which it builds. -/
def Engine.loopParts? (e : Engine) (id : NodeId) : Option (LoopSpec × Cursor) :=
  (e.node? id).bind fun n =>
    match n.kind with
    | .loop data => some (data.spec, ⟨id, n.context, n.frame, e.namespaceAt id⟩)
    | _ => none

/-- What a frame tells of the round of a loop. -/
def Engine.forloop (e : Engine) (frame : Option FrameId) (index : Nat) (identity : Option Value) :
    Value :=
  let place := Value.int (Int64.ofNat index)
  .map (.ofList [("counter", .int (Int64.ofNat index + 1)), ("counter0", place),
    ("index", identity.getD place), ("parent", (e.frames.lookup? frame "forloop").getD .null)])

/-- The children of a node. -/
def Engine.childrenOf (e : Engine) (id : NodeId) : List NodeId :=
  ((e.node? id).map (·.children)).getD []

/-- Whether a loop was built from no item. -/
def LoopState.isEmpty : LoopState → Bool
  | unbuilt => true
  | plain items => items.isEmpty
  | keyed instances => instances.isEmpty

namespace Render

variable (re : Reentry)

/-- Create a node at a cursor, unless the operation is to stop. -/
def alloc (kind : RenderKind) (cursor : Cursor) (flags : NodeFlags) : Act NodeId := do
  Act.poll
  Act.step (·.addNode kind cursor flags)

/-- Call hooks of a node in turn. -/
def runHooks (ctx id : NodeId) (hooks : List String) : Act Unit :=
  hooks.forM fun hook => callHookSafely re ctx (some id) hook [.node id.oid]

/-- Tell a context of a new node. -/
def processNode (ctx id : NodeId) : Act Unit :=
  callOwnHook re ctx (some id) "node_processor" [.node id.oid]

/-- The values of bindings, in order. -/
def bindingValues (cursor : Cursor) (bindings : List (String × AttrValue)) :
    Act (List (String × Value)) :=
  bindings.mapM fun (name, v) => do return (name, ← operandAt re cursor.site v)

/-! ## Elements and text -/

/-- Give a node the name that an attribute says, and evaluate the bindings of scope attributes. -/
def prepareElement (id : NodeId) (cursor : Cursor) :
    List AttrAction → Act (List (String × Value))
  | [] => pure []
  | .ref name :: actions => do
    Act.change (·.bindRef cursor.ctx name id)
    prepareElement id cursor actions
  | .scope name v :: actions => do
    let v ← operandAt re (.ofNode cursor.ctx cursor.frame id false) v
    let rest ← prepareElement id cursor actions
    return (name, v) :: rest
  | _ :: actions => prepareElement id cursor actions

/-- The cursor inside a frame with bindings, if there are any. -/
def enterFrame (cursor : Cursor) (bindings : List (String × Value)) : Act Cursor :=
  if bindings.isEmpty then pure cursor
  else do
    let frame ← Act.step (·.addFrame cursor.frame bindings)
    return cursor.inFrame frame

/-- Create an element; the cursor at which its children are built. -/
def beginElement (tag : String) (actions : List AttrAction) (cursor : Cursor) :
    Act (NodeId × Cursor) := do
  let ns := Namespace.below cursor.ns tag
  let data : ElementData :=
    { tag := tag, ns := ns, bind := actions.findSome? (·.bound?), actions := actions }
  let id ← alloc (.element data) cursor
    { reportable := true, reactive := actions.any (·.isReactive) }
  let injected ← prepareElement re id cursor actions
  let _ ← refreshElement re id
  runHooks re cursor.ctx id (actions.filterMap (·.initHook?))
  processNode re cursor.ctx id
  let inner ← enterFrame { cursor with parent := id, ns := ns } injected
  return (id, inner)

/-- Give an element a text of its own. -/
def setElementText (id : NodeId) : TextSource → Act Unit
  | .literal text => do
    let text ← Act.step (·.localizeText text)
    Act.change (·.modifyElement id fun data =>
      { data with state := { data.state with text := some text } })
  | .dynamic e => do
    Act.change (·.modifyElement id fun data => { data with textExpr := some e })
    discard (refreshElement re id)

/-- Call the hooks of an element whose children are built. -/
def finishElement (id : NodeId) : Act Unit := do
  match ← Act.read (·.node? id) with
  | none => return ()
  | some n =>
    match n.kind with
    | .element data => runHooks re n.context id (data.actions.filterMap (·.renderHook?))
    | _ => return ()

/-- Build an element. -/
def buildElement (tag : String) (actions : List AttrAction) (content : Content) (cursor : Cursor) :
    Act Unit :=
  if actions.any (·.isNotRender) then pure ()
  else do
    let (id, inner) ← beginElement re tag actions cursor
    match content with
    | .text source => setElementText re id source
    | .body body => re.build body inner
    finishElement re id

/-- Compute the text of a text node; whether that changed. -/
def refreshText (id : NodeId) : Act Bool := do
  match ← Act.read (·.node? id) with
  | none => return false
  | some n =>
    match n.kind with
    | .text ⟨_, some e⟩ =>
      let v ← evaluateAt re (.ofNode n.context n.frame id e.reactive) e
      let text ← Act.step (·.localizeText v.display)
      Act.step fun engine =>
        match (engine.node? id).map (·.kind) with
        | some (RenderKind.text data) =>
          (data.text ≠ text, engine.modifyKind id fun _ => .text { data with text := text })
        | _ => (false, engine)
    | _ => return false

/-- Build a text node. -/
def buildText (source : TextSource) (cursor : Cursor) : Act Unit :=
  match source with
  | .literal text => do
    let text ← Act.step (·.localizeText text)
    discard (alloc (.text ⟨text, none⟩) cursor { reportable := true })
  | .dynamic e => do
    let id ← alloc (.text ⟨"", some e⟩) cursor { reportable := true }
    discard (refreshText re id)

/-! ## Components -/

/-- Build the template of a context under it, and call its final hook. -/
def runRoutine (ctx : NodeId) (ns : Namespace) : Act Unit := do
  match ← Act.read (·.context? ctx) with
  | none => throw (.notAContext ctx)
  | some data =>
    re.build data.routine.body { parent := ctx, ctx := ctx, ns := ns }
    callOwnHook re ctx (some ctx) "on_render" []

/-- Copy a variable that the caller sees. -/
def takeOver (owner : NodeId) (cursor : Cursor) (name : String) : Act Unit :=
  Act.change fun e =>
    match e.getVar cursor.ctx name with
    | none => e
    | some v => e.initVar owner name v

/-- The variables that an attribute takes over: those that are named, or all of the caller's own. -/
def consumedNames (e : Engine) (cursor : Cursor) (keys : String) : List String :=
  if keys = "*" then (((e.scopeOf (e.scopeOwner cursor.ctx))).map (·.keys)).getD []
  else splitKeys keys

/-- What the attributes of a reference do to a new context; those that are expressions are returned.
-/
def prepareContext (id owner : NodeId) (cursor : Cursor) :
    List AttrAction → Act (List (String × DynamicExpr))
  | [] => pure []
  | .ref name :: actions | .cref name :: actions => do
    Act.change (·.bindRef cursor.ctx name id)
    prepareContext id owner cursor actions
  | .setFalse name :: actions => do
    Act.change (·.initVar owner name (.bool false))
    prepareContext id owner cursor actions
  | .consume (some keys) :: actions => do
    let names ← Act.read fun e => consumedNames e cursor keys
    names.forM (takeOver owner cursor)
    prepareContext id owner cursor actions
  | .plain name v :: actions | .scope name v :: actions => do
    let tracked := v.isReactive
    let value ← operandAt re (.ofNode cursor.ctx cursor.frame id tracked) v
    Act.change (·.initVar owner name value)
    let rest ← prepareContext id owner cursor actions
    return (v.dynamic?.map fun e => (name, e)).toList ++ rest
  | _ :: actions => prepareContext id owner cursor actions

/-- Set a new context up, build its template and call its hooks. -/
def setupComponent (id : NodeId) (actions : List AttrAction) (cursor : Cursor) : Act Unit := do
  let owner ← Act.read (·.scopeOwner id)
  let sources ← prepareContext re id owner cursor actions
  Act.change (·.modifyContext id fun data => { data with sources := sources })
  runHooks re cursor.ctx id (actions.filterMap (·.initHook?))
  processNode re cursor.ctx id
  runRoutine re id cursor.ns
  runHooks re cursor.ctx id (actions.filterMap (·.renderHook?))

/-- A new instance of a component. -/
def newContext (e : Engine) (routine : Routine) (actions : List AttrAction) (slots : SlotContent)
    (cursor : Cursor) : ContextData where
  name := routine.name
  routine := routine
  sharedWith := if actions.any (·.sharesScope) then some (e.scopeOwner cursor.ctx) else none
  slot := some ⟨cursor.ctx, cursor.frame, slots⟩
  callerFrame := cursor.frame

/-- The component of a name. -/
def resolveComponent (name : String) : Act (Option Routine) := Act.step fun e =>
  let (routine, library) := e.library.resolve name
  (routine, { e with library := library })

/-- Build an instance of a component, unless there is none of the name or it refuses. -/
def buildComponent (name : String) (actions : List AttrAction) (slots : SlotContent)
    (cursor : Cursor) : Act Unit :=
  if actions.any (·.isNotRender) then pure ()
  else do
    match ← resolveComponent name with
    | none =>
      if ← Act.read (·.options.reportMissingComponents) then
        let problem := (EngineError.componentNotFound name).message
        Act.change (·.diagnose cursor.ctx none problem none)
    | some routine =>
      let data ← Act.read fun e => newContext e routine actions slots cursor
      let id ← alloc (.context data) cursor {}
      tryCatch (setupComponent re id actions cursor) fun err => do
        match err with
        | .initFailed _ =>
          Act.change fun e => (e.diagnose cursor.ctx none err.message none).removeNode id
        | _ =>
          Act.change (·.removeNode id)
          throw err

/-- Call the initial hook of a context, if it defines one; whether building may go on. -/
def callInit (ctx : NodeId) : Act Bool := do
  match ← Act.read (·.ownFunction ctx "init") with
  | none => return true
  | some f =>
    tryCatch (do return !(← invoke re ctx (some ctx) f []).same (.bool false)) fun
      | .eval err => do
        Act.change (·.diagnose ctx none err.cause.message err.line)
        return false
      | other => throw other

/-- Run the code block of a context, and its hooks. The code and the initial hook run once, the hook
of a new start each time the context is built. -/
def runCodeBlock (body : List Stmt) (line : Nat) (cursor : Cursor) : Act Unit := do
  let ctx := cursor.ctx
  let executed ← Act.read fun e => ((e.context? ctx).map (·.executed)).getD true
  if !executed then
    Act.change (·.modifyContext ctx fun data => { data with executed := true })
    let site : Site := ⟨ctx, cursor.frame, some ctx, none⟩
    let outcome ← Act.evaluating (Interpreter.exec (site.env re) line body)
    discard (recover (outcome.map (·.getD .null)) ctx none)
    if !(← callInit re ctx) then
      let context ← Act.read (·.contextName ctx)
      throw (.initFailed context)
  callOwnHook re ctx (some ctx) "on_restart" []

/-- Build the caller's content for a slot, or what the slot has for want of it. -/
def buildSlot (name : Option String) (fallback : Option Body) (cursor : Cursor) : Act Unit := do
  let binding ← Act.read fun e => (e.context? cursor.ctx).bind (·.slot)
  let content := binding.bind fun slot =>
    let body :=
      match name with
      | none => slot.content.default
      | some name => slot.content.named.get? name
    body.map fun body => (body, { cursor with ctx := slot.caller, frame := slot.frame })
  match content with
  | some (body, inner) => re.build body inner
  | none =>
    match fallback with
    | some body => re.build body cursor
    | none => return ()

/-! ## Conditions -/

/-- The index of the first branch whose condition holds, counted from `index`. -/
def firstBranch (ctx : NodeId) (frame : Option FrameId) (id : NodeId) (reactive : Bool) :
    (index : Nat) → List Branch → Act (Option Nat)
  | _, [] => pure none
  | index, branch :: branches =>
    match branch.predicate with
    | none => pure (some index)
    | some e => do
      let v ← evaluateAt re (.ofNode ctx frame id (reactive || e.reactive)) e
      if v.truthy then return some index
      else firstBranch ctx frame id reactive (index + 1) branches

/-- The branch of a condition that is to be built. -/
def selectBranch (id : NodeId) : Act (Option Nat) := do
  match ← Act.read (·.node? id) with
  | none => return none
  | some n =>
    match n.kind with
    | .condition data => firstBranch re n.context n.frame id data.reactive 0 data.branches
    | _ => return none

/-- Build a branch of a condition. -/
def buildBranch (id : NodeId) (selected : Option Nat) : Act Unit := do
  match ← Act.read (·.node? id) with
  | none => return ()
  | some n =>
    match n.kind with
    | .condition data =>
      Act.change (·.modifyKind id fun _ => .condition { data with selected := selected })
      match selected.bind (data.branches[·]?) with
      | none => return ()
      | some branch =>
        let ns ← Act.read (·.namespaceAt id)
        re.build branch.body ⟨id, n.context, n.frame, ns⟩
    | _ => return ()

/-- Build a condition. -/
def buildChoice (branches : List Branch) (reactive : Bool) (cursor : Cursor) : Act Unit := do
  let data : ConditionData := { branches := branches, reactive := reactive }
  let id ← alloc (.condition data) cursor { reportable := reactive }
  let selected ← selectBranch re id
  buildBranch re id selected

/-! ## Loops -/

/-- The items of a loop; a value without items is a problem, and has none. -/
def loopItems (id : NodeId) : Act (List Value) := do
  match ← Act.read (·.loopParts? id) with
  | none => return []
  | some (spec, cursor) =>
    let e := spec.iterable
    let v ← evaluateAt re (.ofNode cursor.ctx cursor.frame id e.reactive) e
    match v.items? with
    | some items => return items
    | none =>
      Act.change (·.diagnose cursor.ctx (some id) (v.typeName ++ " is not iterable") none)
      return []

/-- The key of an item, and the value of its identity. -/
def loopKey (spec : LoopSpec) (cursor : Cursor) (item : Value) : Act (Key × Value) :=
  match spec.identity with
  | none => pure (.null, .null)
  | some e => do
    let frame ← Act.step (·.addFrame cursor.frame [(spec.var, item)])
    let v ← evaluateHere re (cursor.inFrame frame) e
    return (v.key?.getD (.str v.display), v)

/-- Build the body of a loop for one item, at the end of the loop's children. -/
def buildInstance (spec : LoopSpec) (cursor : Cursor) (item : Value) (index : Nat)
    (identity : Option Value) : Act Instance := do
  Act.poll
  let frame ← Act.step fun e =>
    e.addFrame cursor.frame
      [(spec.var, item), ("forloop", e.forloop cursor.frame index identity)]
  let before ← Act.read fun e => (e.childrenOf cursor.parent).length
  re.build spec.body (cursor.inFrame frame)
  let nodes ← Act.read fun e => (e.childrenOf cursor.parent).drop before
  return ⟨frame, nodes⟩

/-- Build an instance for each item whose key is new. -/
def buildKeyed (spec : LoopSpec) (cursor : Cursor) :
    List Value → OrderedMap Key Instance → Act (OrderedMap Key Instance)
  | [], instances => pure instances
  | item :: items, instances => do
    let (key, identity) ← loopKey re spec cursor item
    if instances.contains key then buildKeyed spec cursor items instances
    else
      let built ← buildInstance re spec cursor item instances.size (some identity)
      buildKeyed spec cursor items (instances.insert key built)

/-- Build an instance for each item, counted from `index`. -/
def buildPlain (spec : LoopSpec) (cursor : Cursor) : (index : Nat) → List Value → Act Unit
  | _, [] => pure ()
  | index, item :: items => do
    discard (buildInstance re spec cursor item index none)
    buildPlain spec cursor (index + 1) items

/-- Finish a loop: build the empty case if there was no item, and keep what it was built from. -/
def finishLoop (id : NodeId) (spec : LoopSpec) (cursor : Cursor) (state : LoopState) :
    Act Unit := do
  if state.isEmpty then
    match spec.empty with
    | some body => re.build body cursor
    | none => pure ()
  Act.change (·.modifyKind id fun
    | .loop data =>
      .loop { data with state := state, showingEmpty := state.isEmpty && spec.empty.isSome }
    | other => other)

/-- Build all instances of a loop, or its empty case. -/
def fillLoop (id : NodeId) (items : List Value) : Act Unit := do
  match ← Act.read (·.loopParts? id) with
  | none => return ()
  | some (spec, cursor) =>
    if spec.identity.isSome then
      let instances ← buildKeyed re spec cursor items .empty
      finishLoop re id spec cursor (.keyed instances)
    else
      buildPlain re spec cursor 0 items
      finishLoop re id spec cursor (.plain items)

/-- Build a loop. -/
def buildLoop (spec : LoopSpec) (cursor : Cursor) : Act Unit := do
  let id ← alloc (.loop { spec := spec }) cursor { reportable := spec.iterable.reactive }
  let items ← loopItems re id
  fillLoop re id items

/-! ## Sets -/

/-- The value of a set. -/
def setValue (id : NodeId) : Act Value := do
  match ← Act.read (·.node? id) with
  | none => return .null
  | some n =>
    match n.kind with
    | .set data => evaluateAt re (.ofNode n.context n.frame id data.value.reactive) data.value
    | _ => return .null

/-- Bind the value of a set, and build what it is bound for. -/
def fillSet (id : NodeId) (v : Value) : Act Unit := do
  match ← Act.read (·.node? id) with
  | none => return ()
  | some n =>
    match n.kind with
    | .set data =>
      Act.change (·.modifyKind id fun _ => .set { data with current := v })
      let frame ← Act.step (·.addFrame n.frame [(data.name, v)])
      let ns ← Act.read (·.namespaceAt id)
      re.build data.body ⟨id, n.context, some frame, ns⟩
    | _ => return ()

/-- Build a set. -/
def buildSet (name : String) (value : DynamicExpr) (body : Body) (cursor : Cursor) : Act Unit := do
  let id ← alloc (.set { name := name, value := value, body := body }) cursor {}
  let v ← setValue re id
  fillSet re id v

/-! ## Carriers and signals -/

/-- The texts of a carrier's attributes. -/
def carrierTexts (cursor : Cursor) (attrs : List (String × AttrValue)) :
    Act (List (String × String)) :=
  attrs.mapM fun (name, v) => do
    match v with
    | .empty => return (name, "")
    | v => return (name, (← operandAt re cursor.site v).display)

/-- The attributes of a carrier: a selector of events is confined to the context unless it is meant
for the whole page, and a script is named after its context and its place. -/
def carrierAttrs (spec : CarrierSpec) (context : String) (texts : List (String × String)) :
    OrderedMap String String :=
  let attrs := OrderedMap.ofList (texts.map fun (name, text) =>
    if spec.kind = .event ∧ !spec.everywhere ∧ name = "selector" then
      (name, "." ++ context ++ " " ++ text)
    else (name, text))
  if spec.kind = .script then attrs.insert "uid" (context ++ "_" ++ toString spec.index) else attrs

/-- Build a carrier. -/
def buildCarrier (spec : CarrierSpec) (cursor : Cursor) : Act Unit := do
  let texts ← carrierTexts re cursor spec.attrs
  let context ← Act.read (·.contextName cursor.ctx)
  let text ←
    match spec.text with
    | none => pure none
    | some (.literal text) => pure (some text)
    | some (.dynamic e) => do pure (some (← evaluateHere re cursor e).display)
  let restyle := spec.kind ≠ .script && !spec.everywhere
  if restyle then
    Act.change (·.modifyContext cursor.ctx fun data => { data with restyle := true })
  discard (alloc (.carrier ⟨spec.kind, carrierAttrs spec context texts, text, restyle⟩) cursor
    { reportable := true })

/-- Build a signal, which reads its variable at once. -/
def buildSignal (key action : String) (cursor : Cursor) : Act Unit := do
  let id ← alloc (.signal ⟨key, action⟩) cursor {}
  discard (Act.step fun e => e.lookupAt (.ofNode cursor.ctx cursor.frame id true) key)

/-! ## Bodies -/

/-- The name of the component of a reference. -/
def componentName (cursor : Cursor) : ComponentName → Act String
  | .fixed name => pure name
  | .dynamic e => do return (← evaluateHere re cursor e).display

/-- Run a build step; the cursor for the steps that follow. -/
def runStep (cursor : Cursor) : Step → Act Cursor
  | .element tag actions content => do
    buildElement re tag actions content cursor
    return cursor
  | .text source => do
    buildText re source cursor
    return cursor
  | .component name actions slots => do
    let name ← componentName re cursor name
    buildComponent re name actions slots cursor
    return cursor
  | .choice branches reactive => do
    buildChoice re branches reactive cursor
    return cursor
  | .loop spec => do
    buildLoop re spec cursor
    return cursor
  | .set name value body => do
    buildSet re name value body cursor
    return cursor
  | .slot name fallback => do
    buildSlot re name fallback cursor
    return cursor
  | .code body line => do
    runCodeBlock re body line cursor
    return cursor
  | .carrier spec => do
    buildCarrier re spec cursor
    return cursor
  | .scope bindings body => do
    let values ← bindingValues re cursor bindings
    let frame ← Act.step (·.addFrame cursor.frame values)
    let cursor := cursor.inFrame frame
    re.build body cursor
    return cursor
  | .signal key action => do
    buildSignal key action cursor
    return cursor
  | .fragment body => do
    re.build body cursor
    return cursor

/-- Build a body. -/
def buildBody (body : Body) (cursor : Cursor) : Act Unit :=
  discard (body.steps.foldlM (runStep re) cursor)

end Render
end ReactiveView
