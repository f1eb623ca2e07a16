import ReactiveView.Proofs.Compilation.Tree

/-!
# Larger operations on trees that differ in how their bodies are run

The operations that evaluation, removal, updates and hosts are made of, again one lemma for each:
what they give is the same for an engine and its norm, and what they make of the norm is the norm of
what they make of the engine.
-/

namespace ReactiveView

namespace Engine

variable (e : Engine)

/-! ## Evaluation -/

@[simp] theorem trackAt_norm (site : Site) (owner : NodeId) (name : String) :
    e.norm.trackAt site owner name = (e.trackAt site owner name).norm := by
  unfold trackAt
  cases site.track with
  | none => rfl
  | some node => exact e.track_norm owner name node

@[simp] theorem lookupAt_norm (site : Site) (name : String) :
    e.norm.lookupAt site name = ((e.lookupAt site name).1, (e.lookupAt site name).2.norm) := by
  simp only [lookupAt, frames_norm, refsValue_norm, findVar_norm, trackAt_norm, scopeOwner_norm]
  cases e.frames.lookup? site.frame name with
  | some v => rfl
  | none =>
    dsimp only
    split
    · rfl
    · cases e.findVar site.ctx name <;> rfl

/-- A property of a node. -/
theorem property_norm (id : NodeId) (n : RenderNode) (name : String) :
    property id n.norm name = property id n name := by
  simp only [property, RenderNode.kind_norm, RenderKind.tag_norm, RenderKind.text?_norm,
    RenderKind.element?_norm]

@[simp] theorem memberAt_norm (site : Site) (target : Value) (name : String) :
    e.norm.memberAt site target name =
      ((e.memberAt site target name).1, (e.memberAt site target name).2.norm) := by
  simp only [memberAt, node?_norm, scopeOwner_norm, scopeOf_norm, trackAt_norm]
  cases target.asNode? with
  | none => rfl
  | some oid =>
    dsimp only
    cases e.node? (NodeId.ofOid oid) with
    | none => rfl
    | some n =>
      simp only [Option.map_some, property_norm]
      by_cases hc : n.isContext = true
      · rw [if_pos hc, if_pos (n.isContext_norm.trans hc)]
      · rw [if_neg hc, if_neg (fun h => hc (n.isContext_norm.symm.trans h))]

@[simp] theorem editElement_norm (id : NodeId) (f : ElementData → ElementData) :
    e.norm.editElement id f = (e.editElement id f).norm := by
  simp only [editElement, element?_norm, modifyElement_norm, report_norm]
  cases e.element? id with
  | none => rfl
  | some data =>
    dsimp only
    split <;> rfl

@[simp] theorem editClasses_norm (id : NodeId) (f : List String → List String) :
    e.norm.editClasses id f = (e.editClasses id f).norm := e.editElement_norm id _

@[simp] theorem editOverlay_norm (id : NodeId) (f : ElementOverlay → ElementOverlay) :
    e.norm.editOverlay id f = (e.editOverlay id f).norm := e.editElement_norm id _

@[simp] theorem setNodeText_norm (id : NodeId) (text : String) :
    e.norm.setNodeText id text = (e.setNodeText id text).norm := by
  simp only [setNodeText, node?_norm]
  cases e.node? id with
  | none => rfl
  | some n =>
    simp only [Option.map_some, RenderNode.kind_norm]
    cases n.kind with
    | element data =>
      simp only [RenderKind.norm, modifyElement_norm, report_norm]
      split <;> rfl
    | text data =>
      simp only [RenderKind.norm]
      rw [modifyKind_norm, report_norm]
      · split <;> rfl
      · exact fun _ => rfl
    | _ => rfl

@[simp] theorem showState_norm (id : NodeId) (state : ElementState) :
    e.norm.showState id state = ((e.showState id state).1, (e.showState id state).2.norm) := by
  simp only [showState, element?_norm, modifyElement_norm]
  cases e.element? id <;> rfl

@[simp] theorem poll_norm : e.norm.poll = (e.poll.1, e.poll.2.norm) := rfl

/-! ## Intrinsics -/

/-- The target of an intrinsic. -/
@[simp] theorem target_norm (site : Site) (name : String) (args : List Value) :
    Intrinsic.target e.norm site name args = Intrinsic.target e site name args := by
  simp only [Intrinsic.target, nodeByOid_norm]

/-- The target and the arguments of an intrinsic. -/
@[simp] theorem edit_norm (site : Site) (name : String) (args : List Value) :
    Intrinsic.edit e.norm site name args = Intrinsic.edit e site name args := by
  simp only [Intrinsic.edit, target_norm]

/-- The context that is to be rebuilt. -/
@[simp] theorem rebuildTarget_norm (site : Site) (args : List Value) :
    Intrinsic.rebuildTarget e.norm site args = Intrinsic.rebuildTarget e site args := by
  simp only [Intrinsic.rebuildTarget, nodeByOid_norm, owningContext_norm]

/-- An intrinsic that changes the engine if its arguments are right. -/
theorem change_norm {α : Type} (args : Intrinsic.Outcome α) {f f' : α → Engine}
    (hf : ∀ a, f' a = (f a).norm) :
    Intrinsic.change e.norm (args >>= fun a => pure (f' a)) =
      ((Intrinsic.change e (args >>= fun a => pure (f a))).1,
        (Intrinsic.change e (args >>= fun a => pure (f a))).2.norm) := by
  cases args with
  | error err => rfl
  | ok a =>
    simp only [bind, Except.bind, pure, Except.pure, Intrinsic.change, hf]

/-- An intrinsic that asks the consumer. -/
theorem ask_norm (site : Site) (name : String) (args : List Value) (kind : RequestKind) :
    Intrinsic.ask e.norm site name args kind =
      ((Intrinsic.ask e site name args kind).1, (Intrinsic.ask e site name args kind).2.norm) := by
  simp only [Intrinsic.ask, target_norm]
  cases Intrinsic.target e site name args with
  | error err => rfl
  | ok p => simp only [request_norm]

/-- The intrinsics that build and update nothing. -/
@[simp] theorem callPure_norm (site : Site) (name : String) (args : List Value) :
    Intrinsic.callPure e.norm site name args =
      ((Intrinsic.callPure e site name args).1, (Intrinsic.callPure e site name args).2.norm) := by
  unfold Intrinsic.callPure
  split
  all_goals try simp only [edit_norm, target_norm]
  · exact e.change_norm _ fun p => e.editClasses_norm p.1 _
  · exact e.change_norm _ fun p => e.editClasses_norm p.1 _
  · exact e.change_norm _ fun p => e.editClasses_norm p.1 _
  · exact e.change_norm _ fun p => e.setNodeText_norm p.1 _
  · exact e.change_norm _ fun p => e.editOverlay_norm p.1 _
  · exact e.change_norm _ fun p => e.editOverlay_norm p.1 _
  · exact e.change_norm _ fun p => e.editOverlay_norm p.1 _
  · cases Intrinsic.textArg "emit" args 0 <;> rfl
  · rfl
  · exact e.ask_norm site _ args _
  · exact e.ask_norm site _ args _
  · exact e.ask_norm site _ args _

/-! ## Building -/

@[simp] theorem childrenOf_norm (id : NodeId) : e.norm.childrenOf id = e.childrenOf id := by
  simp only [childrenOf, node?_norm]
  cases e.node? id <;> rfl

@[simp] theorem forloop_norm (frame : Option FrameId) (index : Nat) (identity : Option Value) :
    e.norm.forloop frame index identity = e.forloop frame index identity := rfl

/-- What a loop repeats, with the norms of its bodies. -/
@[simp] theorem loopParts?_norm (id : NodeId) :
    e.norm.loopParts? id = (e.loopParts? id).map fun p => (p.1.norm, p.2) := by
  simp only [loopParts?, node?_norm, namespaceAt_norm]
  cases e.node? id with
  | none => rfl
  | some n =>
    simp only [Option.map_some, Option.bind_some, RenderNode.kind_norm]
    cases n.kind <;> rfl

@[simp] theorem addFrame_norm (parent : Option FrameId) (bindings : List (String × Value)) :
    e.norm.addFrame parent bindings =
      ((e.addFrame parent bindings).1, (e.addFrame parent bindings).2.norm) := rfl

@[simp] theorem consumedNames_norm (cursor : Cursor) (keys : String) :
    Render.consumedNames e.norm cursor keys = Render.consumedNames e cursor keys := by
  simp only [Render.consumedNames, scopeOwner_norm, scopeOf_norm]

/-! ## Removal -/

theorem postorderIn_norm (depth : Nat) : ∀ id : NodeId,
    e.norm.postorderIn depth id = e.postorderIn depth id := by
  induction depth with
  | zero => exact fun _ => rfl
  | succ depth ih =>
    intro id
    simp only [postorderIn, node?_norm]
    cases e.node? id with
    | none => rfl
    | some n => simp only [Option.map_some, RenderNode.children_norm, funext ih]

@[simp] theorem postorder_norm (id : NodeId) : e.norm.postorder id = e.postorder id :=
  e.postorderIn_norm _ id

@[simp] theorem unbindRef_norm (n : RenderNode) (id : NodeId) :
    e.norm.unbindRef n.norm id = (e.unbindRef n id).norm := by
  simp only [unbindRef, RenderNode.refName_norm]
  cases n.refName with
  | none => rfl
  | some name =>
    dsimp only
    rw [modifyContext_norm]
    · rfl
    · intro data
      have hrefs : data.norm.refs = data.refs := rfl
      rw [hrefs]
      split <;> rfl

@[simp] theorem dropNode_norm (id : NodeId) : e.norm.dropNode id = (e.dropNode id).norm := by
  have hremove : (e.purge id).norm.nodes.remove id = _ :=
    Arena.remove_map RenderNode.norm (e.purge id).nodes id
  unfold dropNode
  simp only [purge_norm, hremove]
  generalize (e.purge id).nodes.remove id = removed
  obtain ⟨removed, nodes⟩ := removed
  cases removed with
  | none => rfl
  | some n =>
    have hunbind := unbindRef_norm { e.purge id with nodes := nodes } n id
    simp only [Option.map_some]
    change (let e₂ := (Engine.norm { e.purge id with nodes := nodes }).unbindRef n.norm id
      if n.norm.flags.reportable then { e₂ with shot := e₂.shot.delete id } else e₂) = _
    rw [hunbind]
    by_cases hr : n.flags.reportable = true
    · dsimp only
      rw [if_pos hr, if_pos (by exact hr)]
      rfl
    · dsimp only
      rw [if_neg hr, if_neg (by exact hr)]

@[simp] theorem dropSubtree_norm (id : NodeId) :
    e.norm.dropSubtree id = (e.dropSubtree id).norm := by
  simp only [dropSubtree, postorder_norm]
  exact foldl_norm dropNode_norm _ e

@[simp] theorem clearChildren_norm (id : NodeId) :
    e.norm.clearChildren id = (e.clearChildren id).norm := by
  have hchildren : ((e.norm.node? id).map (·.children)).getD [] =
      ((e.node? id).map (·.children)).getD [] := e.childrenOf_norm id
  simp only [clearChildren, hchildren]
  rw [modifyNode_norm, foldl_norm dropSubtree_norm]
  exact fun _ => rfl

@[simp] theorem removeNode_norm (id : NodeId) :
    e.norm.removeNode id = (e.removeNode id).norm := by
  simp only [removeNode, node?_norm]
  cases e.node? id with
  | none => rfl
  | some n =>
    simp only [Option.map_some, RenderNode.parent_norm]
    cases n.parent with
    | none => exact e.dropSubtree_norm id
    | some parent =>
      dsimp only
      rw [modifyNode_norm, dropSubtree_norm]
      exact fun _ => rfl

/-! ## Updates -/

theorem topReportableIn_norm (depth : Nat) : ∀ id : NodeId,
    e.norm.topReportableIn depth id = e.topReportableIn depth id := by
  induction depth with
  | zero => exact fun _ => rfl
  | succ depth ih =>
    intro id
    simp only [topReportableIn, node?_norm]
    cases e.node? id with
    | none => rfl
    | some n => simp only [Option.map_some, RenderNode.children_norm, RenderNode.flags_norm,
        funext ih]

@[simp] theorem flagRebind_norm (id : NodeId) :
    e.norm.flagRebind id = (e.flagRebind id).norm := by
  unfold flagRebind
  rw [modifyNode_norm]
  · rfl
  · exact fun _ => rfl

@[simp] theorem markRebind_norm (id : NodeId) :
    e.norm.markRebind id = (e.markRebind id).norm := by
  simp only [markRebind, chainBound_norm, topReportableIn_norm]
  exact foldl_norm flagRebind_norm _ e

@[simp] theorem rebindFrame_norm (frame : FrameId) (name : String) (v : Value) :
    e.norm.rebindFrame frame name v =
      ((e.rebindFrame frame name v).1, (e.rebindFrame frame name v).2.norm) := rfl

@[simp] theorem takeInstances_norm (id : NodeId) :
    e.norm.takeInstances id = ((e.takeInstances id).1, (e.takeInstances id).2.norm) := by
  simp only [takeInstances, node?_norm]
  cases e.node? id with
  | none => rfl
  | some n =>
    simp only [Option.map_some, RenderNode.kind_norm]
    cases n.kind with
    | loop data =>
      have hcleared : (if data.showingEmpty then e.norm.clearChildren id else e.norm) =
          (if data.showingEmpty then e.clearChildren id else e).norm := by
        rw [clearChildren_norm]
        split <;> rfl
      simp only [RenderKind.norm]
      rw [show data.norm.showingEmpty = data.showingEmpty from rfl, hcleared,
        show data.norm.state = data.state from rfl]
      have htaken := setKind_norm (if data.showingEmpty then e.clearChildren id else e)
        (.loop { data with state := .unbuilt, showingEmpty := false }) id
      cases data.state <;> exact Prod.ext rfl htaken
    | _ => rfl

@[simp] theorem dropInstances_norm (old : OrderedMap Key Instance) (wanted : Key → Bool) :
    e.norm.dropInstances old wanted = (e.dropInstances old wanted).norm := by
  refine foldl_norm (fun e entry => ?_) old.entries e
  split
  · rfl
  · exact foldl_norm removeNode_norm entry.2.nodes e

@[simp] theorem orderChildren_norm (id : NodeId) (instances : OrderedMap Key Instance) :
    e.norm.orderChildren id instances = (e.orderChildren id instances).norm := by
  have hcontains : e.norm.contains = e.contains := funext e.contains_norm
  unfold orderChildren
  rw [hcontains, modifyNode_norm]
  exact fun _ => rfl

@[simp] theorem resetContext_norm (ctx : NodeId) :
    e.norm.resetContext ctx = (e.resetContext ctx).norm := by
  have hcontains : e.norm.contains = e.contains := funext e.contains_norm
  unfold resetContext
  rw [hcontains, modifyContext_norm]
  exact fun _ => rfl

@[simp] theorem readersOf_norm (written : List (NodeId × String)) :
    e.norm.readersOf written = e.readersOf written := by
  simp only [readersOf, context?_norm, Option.map_map]
  rfl

@[simp] theorem byDepth_norm (ids : List NodeId) : e.norm.byDepth ids = e.byDepth ids := by
  simp only [byDepth, ancestors_norm]

/-! ## Hosts -/

@[simp] theorem payload_norm (id : NodeId) : e.norm.payload id = e.payload id := by
  simp only [payload, node?_norm, reportableAncestor?_norm]
  cases e.node? id with
  | none => rfl
  | some n =>
    simp only [Option.map_some, RenderNode.kind_norm, RenderKind.tag_norm, RenderKind.name_norm,
      RenderNode.flags_norm]
    cases n.kind <;> rfl

@[simp] theorem refresh_norm : e.norm.refresh = e.refresh.norm := by
  simp only [refresh, root_norm, subtree_norm]
  cases e.root with
  | none => rfl
  | some root =>
    have hreportable : e.norm.isReportable = e.isReportable := funext e.isReportable_norm
    dsimp only
    rw [hreportable]
    rfl

@[simp] theorem drainShot_norm : e.norm.drainShot = (e.drainShot.1, e.drainShot.2.norm) := by
  have hpayload : e.norm.payload = e.payload := funext e.payload_norm
  simp only [drainShot, hpayload, shot_norm]
  rw [foldl_norm]
  · rfl
  · intro e id
    rw [modifyNode_norm]
    exact fun _ => rfl

/-- The node of a new root. -/
def rootNode (routine : Routine) (scope : Scope) : RenderNode :=
  { kind := .context { name := routine.name, routine := routine, scope := scope }, parent := none,
    context := ⟨0, 0⟩, flags := { reportable := true } }

/-- Putting a component at the root is done to the norm with the norm of its node. -/
theorem norm_addRoot (routine : Routine) (scope : Scope) :
    let p := e.norm.nodes.insert (rootNode routine scope).norm
    (e.addRoot routine scope).1 = p.1 ∧ (e.addRoot routine scope).2.norm =
      { e.norm with
        nodes := p.2.modify p.1 fun n => { n with context := p.1 }
        shot := e.norm.shot.create p.1
        root := some p.1 } := by
  have hinsert : e.norm.nodes.insert (rootNode routine scope).norm = _ :=
    Arena.insert_map RenderNode.norm e.nodes (rootNode routine scope)
  dsimp only
  rw [hinsert]
  refine ⟨rfl, ?_⟩
  dsimp only
  rw [Arena.modify_map]
  · rfl
  · exact fun _ => rfl

/-- Putting components with one norm at the roots of engines with one norm. -/
theorem addRoot_norm {routine routine' : Routine} (h : routine.norm = routine'.norm)
    (scope : Scope) {e e' : Engine} (he : e.norm = e'.norm) :
    (e.addRoot routine scope).1 = (e'.addRoot routine' scope).1 ∧
      (e.addRoot routine scope).2.norm = (e'.addRoot routine' scope).2.norm := by
  have hnode : (rootNode routine scope).norm = (rootNode routine' scope).norm := by
    simp only [rootNode, RenderNode.norm, RenderKind.norm, ContextData.norm, h,
      (Routine.of_norm_eq h).1]
  obtain ⟨hid, hadded⟩ := e.norm_addRoot routine scope
  obtain ⟨hid', hadded'⟩ := e'.norm_addRoot routine' scope
  rw [hid, hadded, hid', hadded', he, hnode]
  exact ⟨rfl, rfl⟩

theorem outlineIn_norm (depth : Nat) : ∀ (level : Nat) (id : NodeId),
    e.norm.outlineIn depth level id = e.outlineIn depth level id := by
  induction depth with
  | zero => exact fun _ _ => rfl
  | succ depth ih =>
    intro level id
    simp only [outlineIn, node?_norm]
    cases e.node? id with
    | none => rfl
    | some n =>
      simp only [Option.map_some, RenderNode.children_norm, RenderNode.kind_norm,
        RenderKind.outline_norm, funext (ih (level + 1))]

@[simp] theorem outline_norm (id : NodeId) : e.norm.outline id = e.outline id := by
  simp only [outline, chainBound_norm, outlineIn_norm]

end Engine
end ReactiveView
