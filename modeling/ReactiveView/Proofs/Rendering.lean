import ReactiveView.Proofs.Arena
import ReactiveView.Proofs.Evaluation

/-!
# What operations may do to the tree

Building, updating and removing change the tree in few ways, each of which is a condition of
`Engine.OperationClosed`: what survives all of them is kept by every operation on the engine
(`Render.updateNode_keeps`, `Render.buildBody_keeps` and, for all depths of nesting,
`Reentry.within_keeps`).

The conditions are as narrow as the operations allow. Reads are recorded for a node that is there,
unless code has entered operations from inside (`Engine.Calm`). What a node shows changes with a
report, unless the consumer has yet to be told of the node (`Engine.Fresh`). Other changes are quiet.

Most invariants survive more than that: `Engine.FixedStable` is for those that survive any change of
a node that leaves its make, and `Engine.OperationStable` for those that only ask whether a node is
reportable.
-/

namespace ReactiveView

/-! ## Invariants -/

namespace Engine

/-- Code has entered no operation from inside, and the slots suffice. -/
def Calm (e : Engine) : Prop := e.entries = 0 ∧ e.nodes.Roomy

/-- Show a state, and report it if it differs from the present one. -/
def redraw (e : Engine) (id : NodeId) (state : ElementState) : Engine :=
  if (e.showState id state).1 then (e.showState id state).2.report id else (e.showState id state).2

/-- An operation that started from an earlier engine is at work on a node, which is there. -/
def Attends (earlier e : Engine) (id : NodeId) : Prop :=
  earlier.nodes.Valid → e.Calm → e.contains id = true

/-- A state was computed for an element by its actions, from an earlier engine on. -/
def Computed (earlier e : Engine) (id : NodeId) (state : ElementState) : Prop :=
  earlier.nodes.Valid → ∀ data, e.element? id = some data → state.Follows data.actions

/-- An invariant that taking nodes away cannot break. -/
structure RemovalClosed (I : Engine → Prop) : Prop where
  /-- Quiet changes of a node. -/
  quiet : ∀ {e : Engine} (id : NodeId) (f : RenderNode → RenderNode),
    (∀ n, e.node? id = some n → n.Quiet (f n)) → I e → I (e.modifyNode id f)
  /-- Nodes that go. -/
  drop : ∀ {e : Engine} (id : NodeId), I e → I (e.dropNode id)

/-- An invariant that operations cannot break. -/
structure OperationClosed (I : Engine → Prop) : Prop extends RemovalClosed I where
  /-- Changes outside of the tree. -/
  outside : ∀ {e e' : Engine}, I e → e'.nodes = e.nodes → e'.shot = e.shot →
    e'.root = e.root → e'.entries = e.entries → I e'
  /-- Code that rebuilds or updates nodes. -/
  enter : ∀ {e : Engine}, I e → I { e with entries := e.entries + 1 }
  /-- Records of reads. -/
  track : ∀ {earlier e : Engine} {node : NodeId} (owner : NodeId) (name : String), I earlier →
    earlier.Attends e node → I e → I (e.track owner name node)
  /-- Dropping the records of the reads of a node. -/
  purge : ∀ {e : Engine} (id : NodeId), I e → I (e.purge id)
  /-- Edits of an element by code. -/
  edit : ∀ {e : Engine} (id : NodeId) {f : ElementData → ElementData},
    (∀ data : ElementData, data.Edit (f data)) → I e → I (e.editElement id f)
  /-- Texts that are given to a node. -/
  text : ∀ {e : Engine} (id : NodeId) (text : String), I e → I (e.setNodeText id text)
  /-- New states of elements. -/
  redraw : ∀ {earlier e : Engine} {id : NodeId} {state : ElementState}, I earlier →
    earlier.Computed e id state → I e → I (e.redraw id state)
  /-- The state of an element that the consumer has yet to be told of. -/
  present : ∀ {earlier e : Engine} {id : NodeId} {state : ElementState}, e.Fresh id → I earlier →
    earlier.Computed e id state → I e → I (e.showState id state).2
  /-- The text of a node that the consumer has yet to be told of. -/
  draw : ∀ {e : Engine} {id : NodeId} (f : RenderNode → RenderNode), e.Fresh id →
    (∀ n, e.node? id = some n → n.Drawn (f n)) → I e → I (e.modifyNode id f)
  /-- Reports of changed nodes. -/
  update : ∀ {e : Engine} {id : NodeId}, e.isReportable id = true → I e →
    I { e with shot := e.shot.update id }
  /-- New nodes. -/
  insert : ∀ {e : Engine} (n : RenderNode), n.New → I e →
    I { e with
      nodes := (e.nodes.insert n).2
      shot := if n.flags.reportable then e.shot.create (e.nodes.insert n).1 else e.shot }

/-- Changing a node changes no other one. -/
theorem node?_modifyNode (e : Engine) (id id' : NodeId) (f : RenderNode → RenderNode) :
    (e.modifyNode id f).node? id' = if id' = id then (e.node? id).map f else e.node? id' :=
  Arena.get?_modify id id' f

/-- A node after a change was there before, and is what the change made of it. -/
theorem of_node?_modifyNode {e : Engine} {id id' : NodeId} {f : RenderNode → RenderNode}
    {n : RenderNode} (hn : (e.modifyNode id f).node? id' = some n) :
    ∃ m, e.node? id' = some m ∧ n = if id' = id then f m else m := by
  rw [node?_modifyNode] at hn
  split at hn
  · rename_i hid
    obtain ⟨m, hm, rfl⟩ := Option.map_eq_some_iff.1 hn
    exact ⟨m, hid ▸ hm, (if_pos hid).symm⟩
  · rename_i hid
    exact ⟨n, hn, (if_neg hid).symm⟩

/-- A change that leaves it to a node whether it is reportable changes no other node's either. -/
theorem isReportable_modifyNode {e : Engine} {id : NodeId} {f : RenderNode → RenderNode}
    (hf : ∀ n, (f n).flags.reportable = n.flags.reportable) (id' : NodeId) :
    (e.modifyNode id f).isReportable id' = e.isReportable id' := by
  simp only [isReportable, node?, modifyNode, Arena.get?_modify]
  split
  · rename_i h
    rw [h, Option.any_map]
    simp only [hf]
  · rfl

/-- The consumer is told of a node that says so. -/
theorem isReportable_iff {e : Engine} {id : NodeId} :
    e.isReportable id = true ↔ ∃ n, e.node? id = some n ∧ n.flags.reportable = true :=
  Option.any_eq_true _ _

/-- The outermost reportable nodes are reportable. -/
theorem isReportable_of_mem_topReportableIn {e : Engine} (depth : Nat) :
    ∀ {id id' : NodeId}, id' ∈ e.topReportableIn depth id → e.isReportable id' = true := by
  induction depth with
  | zero =>
    intro id id' hmem
    exact (List.not_mem_nil hmem).elim
  | succ depth ih =>
    intro id id' hmem
    unfold topReportableIn at hmem
    cases hn : e.node? id with
    | none =>
      rw [hn] at hmem
      exact (List.not_mem_nil hmem).elim
    | some n =>
      simp only [hn] at hmem
      split at hmem
      · rename_i hr
        rw [List.mem_singleton.1 hmem, isReportable, hn]
        exact hr
      · obtain ⟨child, -, hchild⟩ := List.mem_flatMap.1 hmem
        exact ih hchild

/-! ### Removal -/

/-- Dropping a node: its reads and its name go before it. -/
theorem keeps_drop {I : Engine → Prop} {e : Engine}
    (hstill : ∀ {e : Engine} {id : NodeId} {f : RenderNode → RenderNode},
      (∀ n, e.node? id = some n → n.Still (f n)) → I e → I (e.modifyNode id f))
    (hremove : ∀ {e : Engine} {id : NodeId} {n : RenderNode}, e.node? id = some n → I e →
      I { e with
        nodes := (e.nodes.remove id).2
        shot := if n.flags.reportable then e.shot.delete id else e.shot })
    (id : NodeId) (he : I e) : I (e.dropNode id) := by
  have hpurged := keeps_purge hstill id he
  have hfst := Arena.remove_fst (a := (e.purge id).nodes) id
  unfold dropNode
  cases hn : (e.purge id).nodes.get? id with
  | none =>
    simp only [Arena.remove_of_none hn]
    exact hpurged
  | some n =>
    have hremoved := hremove hn hpurged
    simp only [hfst, hn, unbindRef]
    cases n.refName with
    | none =>
      dsimp only
      split
      · rename_i hr
        rw [if_pos hr] at hremoved
        exact hremoved
      · rename_i hr
        rw [if_neg hr] at hremoved
        exact hremoved
    | some name =>
      have hunbound (data : ContextData) : (if data.refs.get? name = some id then
          { data with refs := data.refs.erase name } else data).skeleton = data.skeleton := by
        split <;> rfl
      have hrun (data : ContextData) (h : data.executed = true) :
          (if data.refs.get? name = some id then
            { data with refs := data.refs.erase name } else data).executed = true := by
        split <;> exact h
      have hunbound : I (modifyContext _ n.context _) :=
        keeps_modifyContext hstill hunbound hrun hremoved
      dsimp only
      split
      · rename_i hr
        rw [if_pos hr] at hunbound
        exact hunbound
      · rename_i hr
        rw [if_neg hr] at hunbound
        exact hunbound

namespace RemovalClosed

variable {I : Engine → Prop} (h : RemovalClosed I) {e : Engine}
include h

/-- Changing the children of a node. -/
theorem modifyChildren (id : NodeId) (f : List NodeId → List NodeId) (he : I e) :
    I (e.modifyNode id fun n => { n with children := f n.children }) :=
  h.quiet _ _ (fun _ _ => ⟨rfl, rfl, rfl, rfl, rfl, fun h => h⟩) he

/-- Removing a subtree. -/
theorem dropSubtree (id : NodeId) (he : I e) : I (e.dropSubtree id) :=
  List.foldlRecOn (e.postorder id) _ he fun _ he child _ => h.drop child he

/-- Removing what is under a node. -/
theorem clearChildren (id : NodeId) (he : I e) : I (e.clearChildren id) :=
  List.foldlRecOn _ _ (h.modifyChildren id (fun _ => []) he) fun _ he child _ =>
    h.dropSubtree child he

/-- Removing a node. -/
theorem removeNode (id : NodeId) (he : I e) : I (e.removeNode id) := by
  unfold Engine.removeNode
  split
  · exact he
  · refine h.dropSubtree id ?_
    split
    · exact he
    · exact h.modifyChildren _ (·.filter (· ≠ id)) he

/-- Removing instances of a loop. -/
theorem dropInstances (old : OrderedMap Key Instance) (wanted : Key → Bool) (he : I e) :
    I (e.dropInstances old wanted) := by
  refine List.foldlRecOn old.entries _ he fun e he entry _ => ?_
  split
  · exact he
  · exact List.foldlRecOn entry.2.nodes _ he fun _ he id _ => h.removeNode id he

end RemovalClosed

/-- Removal leaves what a node without variables shows. -/
theorem picture_removal (id : NodeId) (p : Picture) : RemovalClosed fun e =>
    ∀ n, e.node? id = some n → n.kind.picture = p ∧ n.kind.index? = none where
  quiet {e} id' f hf he n hn := by
    obtain ⟨m, hm, rfl⟩ := of_node?_modifyNode hn
    split
    · rename_i hid
      have hf := hf m (hid ▸ hm)
      rw [hf.picture, hf.index]
      exact he m hm
    · exact he m hm
  drop {e} id' he := by
    refine keeps_drop (I := fun e => ∀ n, e.node? id = some n →
      n.kind.picture = p ∧ n.kind.index? = none) ?_ ?_ id' he
    · intro e id' f hf he n hn
      obtain ⟨m, hm, rfl⟩ := of_node?_modifyNode hn
      obtain ⟨hp, hindex⟩ := he m hm
      split
      · rename_i hid
        have hf := hf m (hid ▸ hm)
        exact ⟨hf.picture.trans hp, hf.index?_eq_none.2 hindex⟩
      · exact ⟨hp, hindex⟩
    · intro e id' m _ he n hn
      have hn : (e.nodes.remove id').2.get? id = some n := hn
      rw [Arena.get?_remove] at hn
      split at hn
      · cases hn
      · exact he n hn

namespace OperationClosed

variable {I : Engine → Prop} (h : OperationClosed I) {e : Engine}
include h

/-- What survives operations survives evaluation that records no reads. -/
theorem evaluation : EvaluationClosed (fun _ => False) I where
  outside he hnodes hshot hroot hentries := h.outside he hnodes hshot hroot hentries
  quiet hf he := h.quiet _ _ (fun n hn => (hf n hn).2) he
  track _ _ hnode _ := hnode.elim
  purge id he := h.purge id he
  edit id _ hf he := h.edit id hf he
  text id text he := h.text id text he

/-- Reporting a change. -/
theorem report (id : NodeId) (he : I e) : I (e.report id) := by
  unfold Engine.report
  split
  · rename_i hr
    exact h.update hr he
  · exact he

/-- Reporting that a subtree was moved. -/
theorem markRebind (id : NodeId) (he : I e) : I (e.markRebind id) := by
  have hflag (e : Engine) (id : NodeId) (hr : e.isReportable id = true) (he : I e) :
      I (e.flagRebind id) := by
    have hmoved : I (e.modifyNode id fun n => { n with flags := { n.flags with rebind := true } }) :=
      h.quiet id _ (fun _ _ => ⟨rfl, rfl, rfl, rfl, rfl, fun h => h⟩) he
    refine h.update ?_ hmoved
    rw [isReportable_modifyNode]
    · exact hr
    · exact fun _ => rfl
  have hkept (e : Engine) (id id' : NodeId) :
      (e.flagRebind id).isReportable id' = e.isReportable id' := by
    change (e.modifyNode id _).isReportable id' = _
    rw [isReportable_modifyNode]
    exact fun _ => rfl
  have hfold (ids : List NodeId) : ∀ e : Engine, (∀ id ∈ ids, e.isReportable id = true) → I e →
      I (ids.foldl flagRebind e) := by
    induction ids with
    | nil => exact fun _ _ he => he
    | cons id ids ih =>
      intro e hids he
      refine ih _ (fun id' hid' => ?_) (hflag e id (hids id List.mem_cons_self) he)
      rw [hkept]
      exact hids id' (List.mem_cons_of_mem id hid')
  exact hfold _ e (fun _ hmem => isReportable_of_mem_topReportableIn _ hmem) he

/-- Adding a node. -/
theorem addNode {kind : RenderKind} (hkind : kind.Unbuilt) (cursor : Cursor) (flags : NodeFlags)
    (he : I e) : I (e.addNode kind cursor flags).2 := by
  let n : RenderNode :=
    { kind := kind, parent := some cursor.parent, context := cursor.ctx, flags := flags,
      frame := cursor.frame }
  have hadded := h.modifyChildren cursor.parent (· ++ [(e.nodes.insert n).1])
    (h.insert n ⟨rfl, rfl, hkind⟩ he)
  unfold Engine.addNode
  dsimp only
  split
  · rename_i hr
    rw [if_pos hr] at hadded
    exact hadded
  · rename_i hr
    rw [if_neg hr] at hadded
    exact hadded

/-- Adding a root. -/
theorem addRoot (hroot : ∀ e root, I e → I { e with root := root }) (routine : Routine)
    (scope : Scope) (he : I e) : I (e.addRoot routine scope).2 := by
  let data : ContextData := { name := routine.name, routine := routine, scope := scope }
  let n : RenderNode :=
    { kind := .context data, parent := none, context := ⟨0, 0⟩, flags := { reportable := true } }
  have hadded := h.quiet (e.nodes.insert n).1
    (fun p => { p with context := (e.nodes.insert n).1 })
    (fun _ _ => ⟨rfl, rfl, rfl, rfl, rfl, fun h => h⟩) (h.insert n ⟨rfl, rfl, rfl⟩ he)
  exact hroot _ _ (h.outside hadded rfl rfl rfl rfl)

/-- Changing what a node is, of which it holds no variables and which is not shown. -/
theorem modifyKind {id : NodeId} {f : RenderKind → RenderKind}
    (hf : ∀ n, e.node? id = some n →
      (f n.kind).index? = n.kind.index? ∧ (f n.kind).picture = n.kind.picture ∧
        (n.kind.hasRun = true → (f n.kind).hasRun = true)) (he : I e) :
    I (e.modifyKind id f) :=
  h.quiet id _ (fun n hn => RenderNode.quiet_kind (hf n hn).1 (hf n hn).2.1 (hf n hn).2.2) he

/-- Changing a component instance. -/
theorem modifyContext {id : NodeId} {f : ContextData → ContextData}
    (hname : ∀ data, (f data).name = data.name) (hindex : ∀ data, (f data).index = data.index)
    (hrun : ∀ data, data.executed = true → (f data).executed = true) (he : I e) :
    I (e.modifyContext id f) :=
  h.quiet id _ (fun _ _ => RenderNode.quiet_modifyContext hname hindex hrun) he

/-- Taking the instances out of a loop. -/
theorem takeInstances (id : NodeId) (he : I e) : I (e.takeInstances id).2 := by
  unfold Engine.takeInstances
  split
  · rename_i data hdata
    obtain ⟨n, hn, hkind⟩ := Option.map_eq_some_iff.1 hdata
    have hloop : ∀ m, e.node? id = some m →
        m.kind.picture = (RenderKind.loop data).picture ∧ m.kind.index? = none := fun m hm => by
      obtain rfl : n = m := Option.some.inj (hn.symm.trans hm)
      rw [hkind]
      exact ⟨rfl, rfl⟩
    have hcleared : I (if data.showingEmpty then e.clearChildren id else e) ∧
        ∀ m, (if data.showingEmpty then e.clearChildren id else e).node? id = some m →
          m.kind.picture = (RenderKind.loop data).picture ∧ m.kind.index? = none := by
      split
      · exact ⟨h.clearChildren id he, (picture_removal id _).clearChildren id hloop⟩
      · exact ⟨he, hloop⟩
    have htaken : ∀ {e : Engine}, I e ∧ (∀ m, e.node? id = some m →
        m.kind.picture = (RenderKind.loop data).picture ∧ m.kind.index? = none) →
        I (e.modifyKind id fun _ => .loop { data with state := .unbuilt, showingEmpty := false }) :=
      fun he => h.modifyKind (fun m hm => ⟨(he.2 m hm).2.symm, (he.2 m hm).1.symm,
        fun hrun => absurd hrun (RenderKind.not_hasRun (he.2 m hm).2)⟩) he.1
    dsimp only
    split
    · exact htaken hcleared
    · exact htaken hcleared
  · exact he

/-- Ordering the children of a loop. -/
theorem orderChildren (id : NodeId) (instances : OrderedMap Key Instance) (he : I e) :
    I (e.orderChildren id instances) := h.modifyChildren id (fun _ => _) he

/-- Forgetting the names of nodes that are gone. -/
theorem resetContext (ctx : NodeId) (he : I e) : I (e.resetContext ctx) :=
  h.modifyContext (fun _ => rfl) (fun _ => rfl) (fun _ h => h) he

end OperationClosed

/-! ### Coarse invariants -/

/-- An invariant that painting nodes anew cannot break. -/
structure PaintClosed (I : Engine → Prop) : Prop where
  /-- Changes of what a node shows. -/
  change : ∀ {e : Engine} (id : NodeId) (f : RenderNode → RenderNode),
    (∀ n, e.node? id = some n → n.Repainted (f n)) → I e → I (e.modifyNode id f)
  /-- Reports of changed nodes. -/
  update : ∀ {e : Engine} {id : NodeId}, e.isReportable id = true → I e →
    I { e with shot := e.shot.update id }

namespace PaintClosed

variable {I : Engine → Prop} (h : PaintClosed I) {e : Engine}
include h

/-- Changing an element. -/
theorem modifyElement {id : NodeId} {f : ElementData → ElementData}
    (hf : ∀ data, (f data).skeleton = data.skeleton) (he : I e) : I (e.modifyElement id f) :=
  h.change id _ (fun _ _ => ⟨rfl, rfl, rfl, RenderKind.index?_modifyElement _ _,
    RenderKind.fixed_modifyElement hf _⟩) he

/-- Reporting a change. -/
theorem report (id : NodeId) (he : I e) : I (e.report id) := by
  unfold Engine.report
  split
  · rename_i hr
    exact h.update hr he
  · exact he

/-- Changing what an element shows. -/
theorem editElement (id : NodeId) {f : ElementData → ElementData}
    (hf : ∀ data, (f data).skeleton = data.skeleton) (he : I e) : I (e.editElement id f) := by
  unfold Engine.editElement
  split
  · exact he
  · dsimp only
    split
    · exact h.report _ (h.modifyElement hf he)
    · exact h.modifyElement hf he

/-- Showing a state. -/
theorem showState (id : NodeId) (state : ElementState) (he : I e) : I (e.showState id state).2 := by
  unfold Engine.showState
  split
  · exact he
  · exact h.modifyElement (fun _ => rfl) he

/-- Showing a state and reporting it. -/
theorem redraw (id : NodeId) (state : ElementState) (he : I e) : I (e.redraw id state) := by
  unfold Engine.redraw
  split
  · exact h.report _ (h.showState id state he)
  · exact h.showState id state he

/-- Setting the text of a node. -/
theorem setNodeText (id : NodeId) (text : String) (he : I e) : I (e.setNodeText id text) := by
  unfold Engine.setNodeText
  split
  · exact he
  · rename_i n hn
    split
    · split
      · exact he
      · exact h.report _ (h.modifyElement (fun _ => rfl) he)
    · rename_i data hkind
      split
      · exact he
      · have hsame (m : RenderNode) (hm : e.node? id = some m) : m.kind = .text data := by
          obtain rfl : n = m := Option.some.inj (hn.symm.trans hm)
          exact hkind
        refine h.report _ (h.change _ _ (fun m hm => ⟨rfl, rfl, rfl, ?_, ?_⟩) he)
        · rw [hsame m hm]
          rfl
        · rw [hsame m hm]
          rfl
    · exact he

end PaintClosed

/-- An invariant that operations cannot break because it survives all changes of a node that leave
its make. -/
structure FixedStable (I : Engine → Prop) : Prop where
  /-- Changes outside of the tree. -/
  outside : ∀ {e e' : Engine}, I e → e'.nodes = e.nodes → e'.shot = e.shot →
    e'.root = e.root → e'.entries = e.entries → I e'
  /-- Code that rebuilds or updates nodes. -/
  enter : ∀ {e : Engine}, I e → I { e with entries := e.entries + 1 }
  /-- Changes of a node that stays. -/
  change : ∀ {e : Engine} (id : NodeId) (f : RenderNode → RenderNode),
    (∀ n, e.node? id = some n → n.Fixed (f n)) → I e → I (e.modifyNode id f)
  /-- Reports of changed nodes. -/
  update : ∀ {e : Engine} {id : NodeId}, e.isReportable id = true → I e →
    I { e with shot := e.shot.update id }
  /-- New nodes. -/
  insert : ∀ {e : Engine} (n : RenderNode), I e →
    I { e with
      nodes := (e.nodes.insert n).2
      shot := if n.flags.reportable then e.shot.create (e.nodes.insert n).1 else e.shot }
  /-- Nodes that go. -/
  remove : ∀ {e : Engine} {id : NodeId} {n : RenderNode}, e.node? id = some n → I e →
    I { e with
      nodes := (e.nodes.remove id).2
      shot := if n.flags.reportable then e.shot.delete id else e.shot }

namespace FixedStable

variable {I : Engine → Prop} (h : FixedStable I) {e : Engine}
include h

/-- What survives changes that leave the make of a node survives new paintings. -/
theorem paint : PaintClosed I where
  change id f hf he := h.change id f (fun n hn => (hf n hn).fixed) he
  update hr he := h.update hr he

/-- What survives changes that leave the make of a node survives operations. -/
theorem closed : OperationClosed I where
  quiet id f hf he := h.change id f (fun n hn => (hf n hn).drawn.fixed) he
  drop id he :=
    keeps_drop (fun hf he => h.change _ _ (fun n hn => (hf n hn).fixed) he) h.remove id he
  outside he hnodes hshot hroot hentries := h.outside he hnodes hshot hroot hentries
  enter he := h.enter he
  track owner name _ _ he :=
    keeps_track (fun hf he => h.change _ _ (fun n hn => (hf n hn).fixed) he) owner name _ he
  purge id he := keeps_purge (fun hf he => h.change _ _ (fun n hn => (hf n hn).fixed) he) id he
  edit id _ hf he := h.paint.editElement id (fun data => (hf data).skeleton) he
  text id text he := h.paint.setNodeText id text he
  redraw _ _ he := h.paint.redraw _ _ he
  present _ _ _ he := h.paint.showState _ _ he
  draw _ _ hf he := h.change _ _ (fun n hn => (hf n hn).fixed) he
  update hr he := h.update hr he
  insert n _ he := h.insert n he

/-- What survives changes that leave the make of a node survives evaluation for any nodes. -/
theorem evaluation (readers : NodeId → Prop) : EvaluationClosed readers I where
  outside he hnodes hshot hroot hentries := h.outside he hnodes hshot hroot hentries
  quiet hf he := h.closed.quiet _ _ (fun n hn => (hf n hn).2) he
  track owner name _ he :=
    keeps_track (fun hf he => h.change _ _ (fun n hn => (hf n hn).fixed) he) owner name _ he
  purge id he := h.closed.purge id he
  edit id _ hf he := h.closed.edit id hf he
  text id text he := h.closed.text id text he

end FixedStable

/-- An invariant that operations cannot break because it only looks at which nodes are reportable. -/
structure OperationStable (I : Engine → Prop) : Prop where
  /-- Changes outside of the tree. -/
  outside : ∀ {e e' : Engine}, I e → e'.nodes = e.nodes → e'.shot = e.shot →
    e'.root = e.root → e'.entries = e.entries → I e'
  /-- Code that rebuilds or updates nodes. -/
  enter : ∀ {e : Engine}, I e → I { e with entries := e.entries + 1 }
  /-- Changes of a node that stays. -/
  change : ∀ {e : Engine} (id : NodeId) (f : RenderNode → RenderNode),
    (∀ n, e.node? id = some n → (f n).flags.reportable = n.flags.reportable) → I e →
      I (e.modifyNode id f)
  /-- Reports of changed nodes. -/
  update : ∀ {e : Engine} {id : NodeId}, e.isReportable id = true → I e →
    I { e with shot := e.shot.update id }
  /-- New nodes. -/
  insert : ∀ {e : Engine} (n : RenderNode), I e →
    I { e with
      nodes := (e.nodes.insert n).2
      shot := if n.flags.reportable then e.shot.create (e.nodes.insert n).1 else e.shot }
  /-- Nodes that go. -/
  remove : ∀ {e : Engine} {id : NodeId} {n : RenderNode}, e.node? id = some n → I e →
    I { e with
      nodes := (e.nodes.remove id).2
      shot := if n.flags.reportable then e.shot.delete id else e.shot }

namespace OperationStable

variable {I : Engine → Prop} (h : OperationStable I)
include h

/-- What only looks at which nodes are reportable survives changes that leave the make of a node. -/
theorem fixed : FixedStable I where
  outside := h.outside
  enter := h.enter
  change id f hf he := h.change id f (fun n hn => (hf n hn).reportable) he
  update := h.update
  insert := h.insert
  remove := h.remove

/-- What only looks at which nodes are reportable survives operations. -/
theorem closed : OperationClosed I := h.fixed.closed

/-- Changing what a node is. -/
theorem modifyKind {e : Engine} (id : NodeId) (f : RenderKind → RenderKind) (he : I e) :
    I (e.modifyKind id f) := h.change id _ (fun _ _ => rfl) he

/-- What only looks at which nodes are reportable survives all changes that leave skeletons. -/
theorem evaluation : EvaluationStable I where
  outside he hnodes hshot hroot hentries := h.outside he hnodes hshot hroot hentries
  node hf he := h.change _ _ (fun n hn => congrArg (·.flags.reportable) (hf n hn)) he
  report he := h.closed.report _ he

end OperationStable

/-! ## What operations cannot undo -/

/-- The slots are never taken away. -/
theorem slots_stable (k : Nat) : OperationStable fun e => k ≤ e.nodes.slots.size where
  outside he hnodes _ _ _ := by rwa [hnodes]
  enter he := he
  change id f _ he := by rwa [modifyNode, Arena.size_slots_modify]
  update _ he := he
  insert _ he := Nat.le_trans he (Arena.size_slots_le_insert _)
  remove _ he := by rwa [Arena.size_slots_remove]

/-- No change of an engine makes its arena invalid. -/
theorem valid_stable : OperationStable fun e => e.nodes.Valid where
  outside he hnodes _ _ _ := by rwa [hnodes]
  enter he := he
  change id f _ he := he.modify id f
  update _ he := he
  insert n he := he.insert n
  remove _ he := he.remove _

/-- No change of an engine gives a spent identity away. -/
theorem spent_stable (id : NodeId) :
    OperationStable fun e => e.nodes.Valid ∧ e.nodes.Spent id where
  outside he hnodes _ _ _ := by rwa [hnodes]
  enter he := he
  change id' f _ he := ⟨he.1.modify id' f, he.2.modify id' f⟩
  update _ he := he
  insert n he := ⟨he.1.insert n, he.2.insert he.1 n⟩
  remove _ he := ⟨he.1.remove _, he.2.remove he.1 _⟩

/-- No change of an engine calms it. -/
theorem calm_stable : OperationStable fun e => ¬e.Calm where
  outside he hnodes _ _ hentries := by
    unfold Calm at he ⊢
    rwa [hnodes, hentries]
  enter _ h := Nat.succ_ne_zero _ h.1
  change id f _ he h := he ⟨h.1, (Arena.roomy_modify id f).1 h.2⟩
  update _ he := he
  insert _ he h := he ⟨h.1, h.2.of_insert⟩
  remove _ he h := he ⟨h.1, (Arena.roomy_remove _).1 h.2⟩

/-- A node that the consumer has yet to be told of stays so until the shot is taken. -/
theorem fresh_stable (id : NodeId) : OperationStable fun e => e.Fresh id where
  outside he hnodes hshot _ _ := by
    unfold Fresh isReportable node? at he ⊢
    rwa [hnodes, hshot]
  enter he := he
  change {e} id' f hf he hr := by
    obtain ⟨n, hn, hr⟩ := isReportable_iff.1 hr
    obtain ⟨m, hm, rfl⟩ := of_node?_modifyNode hn
    refine he (isReportable_iff.2 ⟨m, hm, ?_⟩)
    split at hr
    · rename_i hid
      rw [← hf m (hid ▸ hm)]
      exact hr
    · exact hr
  update _ he hr := by
    have hmem := he hr
    unfold Shot.update
    split
    · exact hmem
    · exact hmem
  insert {e} n he hr := by
    obtain ⟨m, hm, hm'⟩ := isReportable_iff.1 hr
    rcases Arena.of_get?_insert hm with ⟨rfl, rfl⟩ | hm
    · dsimp only
      rw [if_pos hm']
      exact OrderedSet.mem_insert.2 (.inr rfl)
    · have hmem := he (isReportable_iff.2 ⟨m, hm, hm'⟩)
      dsimp only
      split
      · exact OrderedSet.mem_insert.2 (.inl hmem)
      · exact hmem
  remove {e id' n} hn he hr := by
    obtain ⟨m, hm, hr⟩ := isReportable_iff.1 hr
    have hm : (e.nodes.remove id').2.get? id = some m := hm
    rw [Arena.get?_remove] at hm
    split at hm
    · cases hm
    · rename_i hid
      have hmem := he (isReportable_iff.2 ⟨m, hm, hr⟩)
      dsimp only
      split
      · unfold Shot.delete
        dsimp only
        split
        · exact OrderedSet.mem_erase.2 ⟨hmem, hid⟩
        · exact hmem
      · exact hmem

/-- A node is of the same make as long as it is there. -/
theorem make_stable (id : NodeId) (p : Picture) : FixedStable fun e => e.nodes.Valid ∧
    (e.nodes.Spent id ∨ ∃ n, e.node? id = some n ∧ n.kind.picture.fixed = p) where
  outside he hnodes _ _ _ := by
    unfold node? at he ⊢
    rwa [hnodes]
  enter he := he
  change {e} id' f hf he := by
    refine ⟨he.1.modify id' f, he.2.imp (fun hs => hs.modify id' f) ?_⟩
    rintro ⟨n, hn, hp⟩
    rw [node?_modifyNode]
    split
    · rename_i hid
      rw [← hid, hn]
      exact ⟨_, rfl, (hf n (hid ▸ hn)).picture.trans hp⟩
    · exact ⟨n, hn, hp⟩
  update _ he := he
  insert n he := by
    refine ⟨he.1.insert n, he.2.imp (fun hs => hs.insert he.1 n) ?_⟩
    rintro ⟨m, hm, hp⟩
    exact ⟨m, Arena.get?_insert_of_some he.1 hm n, hp⟩
  remove {e id' n} hn he := by
    refine ⟨he.1.remove id', ?_⟩
    by_cases hid : id = id'
    · rw [hid]
      exact .inl (Arena.spent_remove he.1 hn)
    · refine he.2.imp (fun hs => hs.remove he.1 id') ?_
      rintro ⟨m, hm, hp⟩
      refine ⟨m, ?_, hp⟩
      change (e.nodes.remove id').2.get? id = some m
      rw [Arena.get?_remove, if_neg hid]
      exact hm

/-- Evaluation does not take the node away that an operation is at work on. -/
theorem attends_stable (earlier : Engine) (id : NodeId) :
    EvaluationStable fun e => earlier.Attends e id where
  outside he hnodes _ _ hentries := by
    unfold Attends Calm contains at he ⊢
    rwa [hnodes, hentries]
  node {e id' f} _ he hvalid hcalm := by
    have hlive := he hvalid ⟨hcalm.1, (Arena.roomy_modify id' f).1 hcalm.2⟩
    unfold contains modifyNode
    rwa [Arena.contains_modify]
  report {e id'} he := by
    unfold report
    split
    · exact he
    · exact he

/-- While an operation is at work on a node, its reads may be recorded. -/
theorem OperationClosed.attending {I : Engine → Prop} (h : OperationClosed I) {earlier : Engine}
    (hearlier : I earlier) (id : NodeId) :
    EvaluationClosed (· = id) fun e => I e ∧ earlier.Attends e id where
  outside he hnodes hshot hroot hentries :=
    ⟨h.outside he.1 hnodes hshot hroot hentries,
      (attends_stable earlier id).outside he.2 hnodes hshot hroot hentries⟩
  quiet hf he := ⟨h.quiet _ _ (fun n hn => (hf n hn).2) he.1,
    (attends_stable earlier id).node (fun n hn => (hf n hn).1) he.2⟩
  track owner name hnode he := by
    rw [hnode]
    exact ⟨h.track owner name hearlier he.2 he.1, (attends_stable earlier id).track owner name _ he.2⟩
  purge id' he := ⟨h.purge id' he.1, (attends_stable earlier id).purge id' he.2⟩
  edit id' _ hf he :=
    ⟨h.edit id' hf he.1, (attends_stable earlier id).editElement id' (fun data => (hf data).skeleton) he.2⟩
  text id' text he := ⟨h.text id' text he.1, (attends_stable earlier id).setNodeText id' text he.2⟩

end Engine

/-- Building, updating and rebuilding keep an invariant. -/
structure Reentry.Keeps (re : Reentry) (I : Engine → Prop) : Prop where
  /-- Building a body. -/
  build : ∀ body cursor, (re.build body cursor).Keeps I
  /-- Updating a node. -/
  update : ∀ id, (re.update id).Keeps I
  /-- Rebuilding a context. -/
  rebuild : ∀ ctx, (re.rebuild ctx).Keeps I

/-- Building, updating and rebuilding keep whatever operations cannot break. -/
def Reentry.Operates (re : Reentry) : Prop :=
  ∀ I : Engine → Prop, Engine.OperationClosed I → re.Keeps I

section

variable {I : Engine → Prop} (h : Engine.OperationClosed I) {re : Reentry} (hre : re.Operates)
include h

/-- An operation that is run from code. -/
theorem Intrinsic.enter_keeps (name : String) {action : Act Unit} (ha : action.Keeps I) :
    RenderM.Keeps I (enter name action) := by
  refine RenderM.keeps_bind (RenderM.keeps_modify fun _ he => h.enter he) fun _ => ?_
  refine RenderM.keeps_bind ha fun outcome => ?_
  cases outcome with
  | ok _ => exact RenderM.keeps_pure _
  | error _ => exact RenderM.keeps_pure _

include hre

/-- What code enters from inside keeps the invariant. -/
theorem Reentry.Operates.enters : re.EntersKeeping I where
  rebuild name ctx := Intrinsic.enter_keeps h name ((hre I h).rebuild ctx)
  update name id := Intrinsic.enter_keeps h name ((hre I h).update id)

omit h hre in
/-- Code that enters an operation from inside keeps what holds of engines that are not calm. -/
theorem Reentry.enters_wild (hcalm : re.Keeps fun e => ¬e.Calm) (hI : ∀ e : Engine, ¬e.Calm → I e) :
    re.EntersKeeping I := by
  have henter (name : String) {action : Act Unit} (ha : action.Keeps fun e => ¬e.Calm) :
      RenderM.Keeps I (Intrinsic.enter name action) := by
    intro e a e' hgives _
    obtain ⟨_, e₁, hentered, hrest⟩ := RenderM.gives_bind.1 hgives
    have hwild : ¬e₁.Calm := by
      rw [RenderM.gives_modify.1 hentered]
      exact fun h => Nat.succ_ne_zero _ h.1
    obtain ⟨outcome, e₂, haction, hend⟩ := RenderM.gives_bind.1 hrest
    have hend : e' = e₂ := by
      cases outcome with
      | ok _ => exact (RenderM.gives_pure.1 hend).2
      | error _ => exact (RenderM.gives_pure.1 hend).2
    exact hI e' (hend ▸ ha haction hwild)
  exact ⟨fun name ctx => henter name (hcalm.rebuild ctx), fun name id => henter name (hcalm.update id)⟩

omit h in
/-- What code enters from inside may take the node away that an operation is at work on, but then it
is not calm any more. -/
theorem Reentry.Operates.enters_attending (earlier : Engine) (id : NodeId) :
    re.EntersKeeping fun e => earlier.Attends e id :=
  Reentry.enters_wild (hre _ Engine.calm_stable.closed) fun _ hwild _ hcalm => absurd hcalm hwild

/-- What code enters from inside keeps the invariant while an operation is at work on a node. -/
theorem Reentry.Operates.attending (earlier : Engine) (id : NodeId) :
    re.EntersKeeping fun e => I e ∧ earlier.Attends e id :=
  (hre.enters h).and (hre.enters_attending earlier id)

/-- While an operation is at work on a node that the consumer has yet to be told of, the invariant
holds. -/
def Engine.Presents (I : Engine → Prop) (earlier : Engine) (id : NodeId) (e : Engine) : Prop :=
  (I e ∧ earlier.Attends e id) ∧ e.Fresh id

omit hre in
/-- While an operation is at work on a new node, its reads may be recorded. -/
theorem Engine.OperationClosed.presenting {earlier : Engine} (hearlier : I earlier) (id : NodeId) :
    EvaluationClosed (· = id) (Presents I earlier id) :=
  (h.attending hearlier id).and ((fresh_stable id).evaluation.closed _)

/-- What code enters from inside keeps the invariant while an operation is at work on a new node. -/
theorem Reentry.Operates.presenting (earlier : Engine) (id : NodeId) :
    re.EntersKeeping (Engine.Presents I earlier id) :=
  (hre.attending h earlier id).and (hre.enters (Engine.fresh_stable id).closed)

namespace Render

/-! ## Elements and texts -/

omit h in
/-- The state that was computed for an element is one of its actions. -/
theorem computed_of_elementState {id : NodeId} {n : RenderNode} {data : ElementData}
    {e e' : Engine} {state : ElementState} (hn : e.node? id = some n) (hkind : n.kind = .element data)
    (hgives : (elementState re id n data).Gives e (.ok state) e') : e.Computed e' id state := by
  intro hvalid data' hdata'
  have hmake := Engine.make_stable id n.kind.picture.fixed
  have hkept := elementState_keeps (hmake.evaluation fun _ => True) (hre.enters hmake.closed)
    trivial n data hgives ⟨hvalid, .inr ⟨n, hn, rfl⟩⟩
  obtain ⟨n', hn', hdata'⟩ := Option.bind_eq_some_iff.1 hdata'
  have hfollows := elementState_follows re id n data hgives
  rcases hkept.2 with hspent | ⟨m, hm, hsame⟩
  · rw [Engine.node?, hspent.get?] at hn'
    cases hn'
  · obtain rfl : n' = m := Option.some.inj (hn'.symm.trans hm)
    have hkind' : n'.kind = .element data' := RenderKind.eq_of_element? hdata'
    rw [hkind, hkind'] at hsame
    injection hsame with _ _ hactions
    rwa [hactions]

variable (h : Engine.OperationClosed I)
include h

omit hre in
/-- Creating a node. -/
theorem alloc_keeps {kind : RenderKind} (hkind : kind.Unbuilt) (cursor : Cursor) (flags : NodeFlags) :
    (alloc kind cursor flags).Keeps I :=
  Act.keeps_bind (Act.keeps_poll fun _ he => h.evaluation.poll he) fun _ =>
    Act.keeps_step fun _ he => h.addNode hkind cursor flags he

omit h hre in
/-- A node that was created is there, and the consumer has yet to be told of it. -/
theorem alloc_gives {kind : RenderKind} {cursor : Cursor} {flags : NodeFlags} {id : NodeId}
    {e e' : Engine} (hgives : (alloc kind cursor flags).Gives e (.ok id) e') :
    e.Attends e' id ∧ (flags.reportable = true → e'.Fresh id) := by
  let n : RenderNode :=
    { kind := kind, parent := some cursor.parent, context := cursor.ctx, flags := flags,
      frame := cursor.frame }
  rcases Act.gives_bind.1 hgives with ⟨⟨⟩, e₁, hpoll, hstep⟩ | ⟨err, -, h⟩
  · obtain ⟨hid, rfl⟩ := Act.gives_step.1 hstep
    have hpolled : e₁.nodes = e.nodes :=
      Act.keeps_poll (I := fun e' => e'.nodes = e.nodes) (fun _ he => he) hpoll rfl
    obtain rfl := Except.ok.inj hid
    have hnodes : (e₁.addNode kind cursor flags).2.nodes =
        (e₁.nodes.insert n).2.modify cursor.parent
          fun m => { m with children := m.children ++ [(e₁.nodes.insert n).1] } := by
      unfold Engine.addNode
      dsimp only
      split <;> rfl
    refine ⟨fun hvalid hcalm => ?_, fun hr _ => ?_⟩
    · rw [← hpolled] at hvalid
      have hroom := hcalm.2
      rw [hnodes] at hroom
      have hroom := ((Arena.roomy_modify _ _).1 hroom).of_insert
      unfold Engine.contains
      rw [hnodes, Arena.contains_modify]
      unfold Arena.contains
      exact Option.isSome_iff_exists.2 ⟨n, Arena.get?_insert_self hvalid hroom n⟩
    · unfold Engine.addNode
      dsimp only
      rw [if_pos hr]
      exact OrderedSet.mem_insert.2 (.inr rfl)
  · cases h

omit hre in
/-- Creating a node and working on it. -/
theorem alloc_bind_keeps {α : Type} {kind : RenderKind} (hkind : kind.Unbuilt) {cursor : Cursor}
    {flags : NodeFlags} {f : NodeId → Act α}
    (hf : ∀ e id, I e → (f id).Takes (fun e' => I e' ∧ e.Attends e' id) I) :
    Act.Keeps I (alloc kind cursor flags >>= f) :=
  Act.keeps_bind_of (J := fun e id e' => I e' ∧ e.Attends e' id) (alloc_keeps h hkind cursor flags)
    (fun hgives he => ⟨alloc_keeps h hkind cursor flags hgives he, (alloc_gives hgives).1⟩) hf

omit h hre in
/-- Working on a node that is found. -/
theorem node_bind_keeps {α : Type} {id : NodeId} {f : Option RenderNode → Act α}
    (hnone : (f none).Keeps I)
    (hsome : ∀ e n, I e → (f (some n)).Takes (fun e' => I e' ∧ e.Attends e' id) I) :
    Act.Keeps I (Act.read (·.node? id) >>= f) := by
  refine Act.keeps_bind_read fun e he => ?_
  rintro _ r e' hgives rfl
  cases hn : Engine.node? _ id with
  | none =>
    rw [hn] at hgives
    exact hnone hgives he
  | some n =>
    rw [hn] at hgives
    exact hsome _ n he hgives ⟨he, fun _ _ => Option.isSome_iff_exists.2 ⟨n, hn⟩⟩

/-- Showing the state that was computed for a new element. -/
theorem presented {earlier : Engine} {id : NodeId} {n : RenderNode} {data : ElementData}
    {e e' : Engine} {state : ElementState} (hn : e.node? id = some n)
    (hkind : n.kind = .element data) (hgives : (elementState re id n data).Gives e (.ok state) e')
    (he : Engine.Presents I earlier id e) (he' : Engine.Presents I earlier id e') :
    Engine.Presents I earlier id (e'.showState id state).2 := by
  have hcomputed := computed_of_elementState hre hn hkind hgives
  exact ⟨⟨h.present he'.2 he.1.1 hcomputed he'.1.1,
    (Engine.attends_stable earlier id).showState id state he'.1.2⟩,
    (Engine.fresh_stable id).evaluation.showState id state he'.2⟩

/-- The state of a new element. -/
theorem presentElement_keeps {earlier : Engine} (hearlier : I earlier) (id : NodeId) :
    (refreshElement re id).Keeps (Engine.Presents I earlier id) :=
  refreshElement_keeps (h.presenting hearlier id) (hre.presenting h earlier id) rfl
    fun hn hkind hgives he he' => presented h hre hn hkind hgives he he'

/-- The own text of a new element. -/
theorem presentText_keeps {earlier : Engine} (hearlier : I earlier) (id : NodeId)
    (source : TextSource) :
    (setElementText re id source).Keeps (Engine.Presents I earlier id) := by
  refine setElementText_keeps (h.presenting hearlier id) (hre.presenting h earlier id) rfl ?_ ?_ source
  · intro e n data state e' hn hkind hgives he he'
    exact presented h hre hn hkind hgives he he'
  · intro e text he
    refine ⟨⟨h.draw _ he.2 (fun n _ => ?_) he.1.1, ?_⟩, ?_⟩
    · refine ⟨rfl, rfl, rfl, RenderKind.index?_modifyElement _ _, ?_,
        (RenderKind.hasRun_modifyElement _ _).trans⟩
      cases n.kind <;> rfl
    · exact (Engine.attends_stable earlier id).modifyElement (fun _ => rfl) he.1.2
    · exact (Engine.fresh_stable id).evaluation.modifyElement (fun _ => rfl) he.2

/-- Creating an element. -/
theorem beginElement_ends {tag : String} {actions : List AttrAction} {cursor : Cursor} {e e' : Engine}
    {r : Except EngineError (NodeId × Cursor)}
    (hgives : (beginElement re tag actions cursor).Gives e r e') (he : I e) :
    I e' ∧ ∀ p, r = .ok p → Engine.Presents I e p.1 e' := by
  rcases Act.gives_bind.1 hgives with ⟨id, e₁, halloc, hrest⟩ | ⟨err, halloc, rfl⟩
  · have he₁ := alloc_keeps h (by exact rfl) _ _ halloc he
    obtain ⟨hlive, hfresh⟩ := alloc_gives halloc
    have hev := h.presenting he id
    have hen := hre.presenting h e id
    have hend : Engine.Presents I e id e' := by
      refine Act.keeps_bind (prepareElement_keeps hev hen id cursor actions) (fun injected => ?_)
        hrest ⟨⟨he₁, hlive⟩, hfresh rfl⟩
      refine Act.keeps_bind (presentElement_keeps h hre he id) fun _ => ?_
      refine Act.keeps_bind (runHooks_keeps hev hen _ id _) fun _ => ?_
      refine Act.keeps_bind (processNode_keeps hev hen _ id) fun _ => ?_
      exact Act.keeps_bind (enterFrame_keeps hev _ injected) fun inner => Act.keeps_pure _
    refine ⟨hend.1.1, ?_⟩
    rintro p rfl
    have hresult := Act.returns_bind (P := fun p : NodeId × Cursor => p.1 = id) (fun injected =>
      Act.returns_bind fun _ => Act.returns_bind fun _ => Act.returns_bind fun _ =>
      Act.returns_bind fun inner => Act.returns_pure rfl) hrest
    rw [hresult]
    exact hend
  · exact ⟨alloc_keeps h (by exact rfl) _ _ halloc he, nofun⟩

/-- Building an element. -/
theorem buildElement_keeps (tag : String) (actions : List AttrAction) (content : Content)
    (cursor : Cursor) : (buildElement re tag actions content cursor).Keeps I := by
  unfold buildElement
  split
  · exact Act.keeps_pure _
  · refine Act.keeps_bind_of (J := fun e p e' => Engine.Presents I e p.1 e')
      (fun _ _ _ hgives he => (beginElement_ends h hre hgives he).1)
      (fun hgives he => (beginElement_ends h hre hgives he).2 _ rfl) fun e p he => ?_
    obtain ⟨id, inner⟩ := p
    have hfinish := finishElement_keeps h.evaluation (hre.enters h) id
    cases content with
    | text source =>
      exact Act.takes_bind (presentText_keeps h hre he id source) (fun _ he => he.1.1)
        fun _ => hfinish.takes fun _ he => he.1.1
    | body body =>
      exact (Act.keeps_bind ((hre I h).build body inner) fun _ => hfinish).takes fun _ he => he.1.1

/-- Building a text node. -/
theorem buildText_keeps (source : TextSource) (cursor : Cursor) :
    (buildText re source cursor).Keeps I := by
  cases source with
  | literal text =>
    refine Act.keeps_bind (Act.keeps_step fun _ he => h.evaluation.localizeText _ he) fun _ => ?_
    exact Act.keeps_discard (alloc_keeps h (by exact trivial) _ _)
  | dynamic e =>
    refine Act.keeps_bind_of (J := fun e id e' => Engine.Presents I e id e')
      (alloc_keeps h (by exact trivial) _ _) (fun hgives he => ?_) fun e id he => ?_
    · obtain ⟨hlive, hfresh⟩ := alloc_gives hgives
      exact ⟨⟨alloc_keeps h (by exact trivial) _ _ hgives he, hlive⟩, hfresh rfl⟩
    · have hshow (e' : Engine) (text : String) (he' : Engine.Presents I e id e') :
          Engine.Presents I e id (e'.showText id text).2 := by
        refine ⟨⟨?_, (Engine.attends_stable e id).showText id text he'.1.2⟩,
          (Engine.fresh_stable id).evaluation.showText id text he'.2⟩
        unfold Engine.showText
        split
        · rename_i data hdata
          refine h.draw _ he'.2 (fun n hn => ?_) he'.1.1
          rw [hn] at hdata
          have hkind : n.kind = .text data := Option.some.inj hdata
          refine ⟨rfl, rfl, rfl, ?_, ?_, ?_⟩
          · rw [hkind]
            rfl
          · rw [hkind]
            rfl
          · rw [hkind]
            exact nofun
        · exact he'.1.1
      have hkept := Act.keeps_discard (refreshText_keeps (h.presenting he id)
        (hre.presenting h e id) rfl hshow)
      exact fun _ _ _ hgives he' => (hkept hgives he').1.1

/-! ## Components -/

/-- Building the template of a context. -/
theorem runRoutine_keeps (ctx : NodeId) (ns : Namespace) : (runRoutine re ctx ns).Keeps I := by
  refine Act.keeps_bind (Act.keeps_read _) fun found => ?_
  cases found with
  | none => exact Act.keeps_throw _
  | some data =>
    refine Act.keeps_bind ((hre I h).build _ _) fun _ => ?_
    exact callOwnHook_keeps h.evaluation (hre.enters h) _ _ _ _

/-- Setting a new context up. -/
theorem setupComponent_takes {earlier : Engine} (hearlier : I earlier) (id : NodeId)
    (actions : List AttrAction) (cursor : Cursor) :
    (setupComponent re id actions cursor).Takes (fun e => I e ∧ earlier.Attends e id) I := by
  have hev := h.evaluation
  have hen := hre.enters h
  refine Act.takes_bind (Act.keeps_read _) (fun _ he => he.1) fun owner => ?_
  have hprepared := prepareContext_keeps (h.attending hearlier id) (hre.attending h earlier id) rfl
    owner cursor actions
  refine Act.takes_bind hprepared (fun _ he => he.1) fun sources => ?_
  refine Act.Keeps.takes (I := I) ?_ fun _ he => he.1
  refine Act.keeps_bind (Act.keeps_change fun _ he => ?_) fun _ => ?_
  · exact h.modifyContext (fun _ => rfl) (fun _ => rfl) (fun _ h => h) he
  refine Act.keeps_bind (runHooks_keeps hev hen _ id _) fun _ => ?_
  refine Act.keeps_bind (processNode_keeps hev hen _ id) fun _ => ?_
  refine Act.keeps_bind (runRoutine_keeps h hre id _) fun _ => ?_
  exact runHooks_keeps hev hen _ id _

/-- Building an instance of a component. -/
theorem buildComponent_keeps (name : String) (actions : List AttrAction) (slots : SlotContent)
    (cursor : Cursor) : (buildComponent re name actions slots cursor).Keeps I := by
  have hev := h.evaluation
  unfold buildComponent
  split
  · exact Act.keeps_pure _
  · refine Act.keeps_bind (resolveComponent_keeps hev name) fun found => ?_
    cases found with
    | none =>
      refine Act.keeps_bind (Act.keeps_read _) fun reported => ?_
      cases reported with
      | true => exact Act.keeps_change fun _ he => hev.diagnose _ _ _ _ he
      | false => exact Act.keeps_pure _
    | some routine =>
      refine Act.keeps_bind_read fun e he => Act.Keeps.takes ?_ fun _ heq => heq ▸ he
      refine alloc_bind_keeps h (by exact rfl) fun e id he => ?_
      refine Act.takes_tryCatch (setupComponent_takes h hre he id actions cursor) fun err => ?_
      have hremove (err : EngineError) : Act.Keeps I (do
          Act.change (·.removeNode id)
          throw err : Act Unit) :=
        Act.keeps_bind (Act.keeps_change fun _ he => h.removeNode id he) fun _ =>
          Act.keeps_throw _
      cases err with
      | initFailed _ =>
        exact Act.keeps_change fun _ he => h.removeNode id (hev.diagnose _ _ _ _ he)
      | _ => exact hremove _

/-- Building the content of a slot. -/
theorem buildSlot_keeps (name : Option String) (fallback : Option Body) (cursor : Cursor) :
    (buildSlot re name fallback cursor).Keeps I := by
  refine Act.keeps_bind (Act.keeps_read _) fun binding => ?_
  dsimp only
  split
  · exact (hre I h).build _ _
  · cases fallback with
    | none => exact Act.keeps_pure _
    | some body => exact (hre I h).build body cursor

/-! ## Conditions -/

/-- Building a branch. -/
theorem buildBranch_keeps (id : NodeId) (selected : Option Nat) :
    (buildBranch re id selected).Keeps I := by
  refine Act.keeps_bind_read fun e he => ?_
  cases hn : e.node? id with
  | none => exact (Act.keeps_pure _).takes fun _ heq => heq ▸ he
  | some n =>
    dsimp only
    split
    · rename_i data hkind
      refine Act.takes_bind (R := I) (Act.takes_change ?_) (fun _ he => he) fun _ => ?_
      · rintro _ rfl
        refine h.modifyKind (fun m hm => ?_) he
        obtain rfl : n = m := Option.some.inj (hn.symm.trans hm)
        rw [hkind]
        exact ⟨rfl, rfl, nofun⟩
      · split
        · exact Act.keeps_pure _
        · exact Act.keeps_bind (Act.keeps_read _) fun _ => (hre I h).build _ _
    · exact (Act.keeps_pure _).takes fun _ heq => heq ▸ he

/-- Building a condition. -/
theorem buildChoice_keeps (branches : List Branch) (reactive : Bool) (cursor : Cursor) :
    (buildChoice re branches reactive cursor).Keeps I := by
  refine alloc_bind_keeps h (by exact trivial) fun e id he => ?_
  refine Act.takes_bind (selectBranch_keeps (h.attending he id) (hre.attending h e id) rfl)
    (fun _ he => he.1) fun selected => ?_
  exact (buildBranch_keeps h hre id selected).takes fun _ he => he.1

/-! ## Loops -/

/-- Building an instance of a loop. -/
theorem buildInstance_keeps (spec : LoopSpec) (cursor : Cursor) (item : Value) (index : Nat)
    (identity : Option Value) : (buildInstance re spec cursor item index identity).Keeps I := by
  have hev := h.evaluation
  refine Act.keeps_bind (Act.keeps_poll fun _ he => hev.poll he) fun _ => ?_
  refine Act.keeps_bind (Act.keeps_step fun _ he => hev.addFrame _ _ he) fun frame => ?_
  refine Act.keeps_bind (Act.keeps_read _) fun _ => ?_
  refine Act.keeps_bind ((hre I h).build _ _) fun _ => ?_
  exact Act.keeps_bind (Act.keeps_read _) fun _ => Act.keeps_pure _

/-- Building the instances of a loop with identities. -/
theorem buildKeyed_keeps (spec : LoopSpec) (cursor : Cursor) (items : List Value) :
    ∀ instances, (buildKeyed re spec cursor items instances).Keeps I := by
  induction items with
  | nil => exact fun _ => Act.keeps_pure _
  | cons item items ih =>
    intro instances
    have hkey := loopKey_keeps h.evaluation (hre.enters h) spec cursor item
    refine Act.keeps_bind hkey fun p => ?_
    obtain ⟨key, identity⟩ := p
    dsimp only
    split
    · exact ih instances
    · exact Act.keeps_bind (buildInstance_keeps h hre spec cursor item _ _) fun _ => ih _

/-- Building the instances of a loop without identities. -/
theorem buildPlain_keeps (spec : LoopSpec) (cursor : Cursor) (items : List Value) :
    ∀ index, (buildPlain re spec cursor index items).Keeps I := by
  induction items with
  | nil => exact fun _ => Act.keeps_pure _
  | cons item items ih =>
    intro index
    have hbuilt := buildInstance_keeps h hre spec cursor item index none
    exact Act.keeps_bind (Act.keeps_discard hbuilt) fun _ => ih (index + 1)

/-- Finishing a loop. -/
theorem finishLoop_keeps (id : NodeId) (spec : LoopSpec) (cursor : Cursor) (state : LoopState) :
    (finishLoop re id spec cursor state).Keeps I := by
  have hstate {f : RenderKind → RenderKind}
      (hf : ∀ kind, (f kind).index? = kind.index? ∧ (f kind).picture = kind.picture ∧
        (kind.hasRun = true → (f kind).hasRun = true)) :
      Act.Keeps I (Act.change (·.modifyKind id f)) :=
    Act.keeps_change fun _ he => h.modifyKind (fun n _ => hf n.kind) he
  unfold finishLoop
  split
  · split
    · refine Act.keeps_bind ((hre I h).build _ _) fun _ => hstate fun kind => ?_
      cases kind <;> exact ⟨rfl, rfl, fun h => h⟩
    · refine hstate fun kind => ?_
      cases kind <;> exact ⟨rfl, rfl, fun h => h⟩
  · refine hstate fun kind => ?_
    cases kind <;> exact ⟨rfl, rfl, fun h => h⟩

/-- Building all instances of a loop. -/
theorem fillLoop_keeps (id : NodeId) (items : List Value) : (fillLoop re id items).Keeps I := by
  refine Act.keeps_bind (Act.keeps_read _) fun found => ?_
  cases found with
  | none => exact Act.keeps_pure _
  | some parts =>
    obtain ⟨spec, cursor⟩ := parts
    dsimp only
    split
    · exact Act.keeps_bind (buildKeyed_keeps h hre spec cursor items _) fun _ =>
        finishLoop_keeps h hre id spec cursor _
    · exact Act.keeps_bind (buildPlain_keeps h hre spec cursor items 0) fun _ =>
        finishLoop_keeps h hre id spec cursor _

/-- Building a loop. -/
theorem buildLoop_keeps (spec : LoopSpec) (cursor : Cursor) :
    (buildLoop re spec cursor).Keeps I := by
  refine alloc_bind_keeps h (by exact trivial) fun e id he => ?_
  refine Act.takes_bind (loopItems_keeps (h.attending he id) (hre.attending h e id) rfl)
    (fun _ he => he.1) fun items => ?_
  exact (fillLoop_keeps h hre id items).takes fun _ he => he.1

/-! ## Sets, carriers and signals -/

/-- Building what a set binds its value for. -/
theorem fillSet_keeps (id : NodeId) (v : Value) : (fillSet re id v).Keeps I := by
  refine Act.keeps_bind_read fun e he => ?_
  cases hn : e.node? id with
  | none => exact (Act.keeps_pure _).takes fun _ heq => heq ▸ he
  | some n =>
    dsimp only
    split
    · rename_i data hkind
      refine Act.takes_bind (R := I) (Act.takes_change ?_) (fun _ he => he) fun _ => ?_
      · rintro _ rfl
        refine h.modifyKind (fun m hm => ?_) he
        obtain rfl : n = m := Option.some.inj (hn.symm.trans hm)
        rw [hkind]
        exact ⟨rfl, rfl, nofun⟩
      · refine Act.keeps_bind (Act.keeps_step fun _ he => h.evaluation.addFrame _ _ he) fun _ => ?_
        exact Act.keeps_bind (Act.keeps_read _) fun _ => (hre I h).build _ _
    · exact (Act.keeps_pure _).takes fun _ heq => heq ▸ he

/-- Building a set. -/
theorem buildSet_keeps (name : String) (value : DynamicExpr) (body : Body) (cursor : Cursor) :
    (buildSet re name value body cursor).Keeps I := by
  refine alloc_bind_keeps h (by exact trivial) fun e id he => ?_
  refine Act.takes_bind (setValue_keeps (h.attending he id) (hre.attending h e id) rfl)
    (fun _ he => he.1) fun v => ?_
  exact (fillSet_keeps h hre id v).takes fun _ he => he.1

omit h hre in
/-- A carrier has each attribute once. -/
theorem distinct_carrierAttrs (spec : CarrierSpec) (context : String)
    (texts : List (String × String)) : (carrierAttrs spec context texts).Distinct := by
  unfold carrierAttrs
  dsimp only
  split
  · exact (OrderedMap.distinct_ofList _).insert _ _
  · exact OrderedMap.distinct_ofList _

/-- Building a carrier. -/
theorem buildCarrier_keeps (spec : CarrierSpec) (cursor : Cursor) :
    (buildCarrier re spec cursor).Keeps I := by
  have hev := h.evaluation
  have hen := hre.enters h
  refine Act.keeps_bind (carrierTexts_keeps hev hen cursor _) fun texts => ?_
  refine Act.keeps_bind (Act.keeps_read _) fun context => ?_
  have hrest (text : Option String) : Act.Keeps I (do
      let restyle := spec.kind ≠ .script && !spec.everywhere
      if restyle then
        Act.change (·.modifyContext cursor.ctx fun data => { data with restyle := true })
      discard (alloc (.carrier ⟨spec.kind, carrierAttrs spec context texts, text, restyle⟩) cursor
        { reportable := true })) := by
    have hcarrier : (RenderKind.carrier ⟨spec.kind, carrierAttrs spec context texts, text,
      spec.kind ≠ .script && !spec.everywhere⟩).Unbuilt := distinct_carrierAttrs spec context texts
    have halloc := Act.keeps_discard (alloc_keeps h hcarrier cursor { reportable := true })
    dsimp only
    split
    · refine Act.keeps_bind (Act.keeps_change fun _ he => ?_) fun _ => halloc
      exact h.modifyContext (fun _ => rfl) (fun _ => rfl) (fun _ h => h) he
    · exact halloc
  split
  · exact Act.keeps_bind (Act.keeps_pure _) hrest
  · exact Act.keeps_bind (Act.keeps_pure _) hrest
  · refine Act.keeps_bind (evaluateAt_keeps hev hen (Site.readsFor_untracked _ _ _) _) fun _ => ?_
    exact Act.keeps_bind (Act.keeps_pure _) hrest

omit hre in
/-- Building a signal. -/
theorem buildSignal_keeps (key action : String) (cursor : Cursor) :
    (buildSignal key action cursor).Keeps I := by
  refine alloc_bind_keeps h (by exact trivial) fun e id he => ?_
  have hsite : (Site.ofNode cursor.ctx cursor.frame id true).ReadsFor (· = id) :=
    Site.readsFor_ofNode (by rfl) _ _ _
  have hread : (Act.step (·.lookupAt (.ofNode cursor.ctx cursor.frame id true) key)).Keeps
      fun e' => I e' ∧ e.Attends e' id :=
    Act.keeps_step fun _ he' => (h.attending he id).lookupAt hsite key he'
  exact fun _ _ _ hgives he' => (Act.keeps_discard hread hgives he').1

/-! ## Bodies -/

/-- Running a build step. -/
theorem runStep_keeps (cursor : Cursor) (step : Step) : (runStep re cursor step).Keeps I := by
  cases step with
  | element tag actions content =>
    exact Act.keeps_bind (buildElement_keeps h hre tag actions content cursor) fun _ =>
      Act.keeps_pure _
  | text source =>
    exact Act.keeps_bind (buildText_keeps h hre source cursor) fun _ => Act.keeps_pure _
  | component name actions slots =>
    have hname := componentName_keeps h.evaluation (hre.enters h) cursor name
    refine Act.keeps_bind hname fun name => ?_
    exact Act.keeps_bind (buildComponent_keeps h hre name actions slots cursor) fun _ =>
      Act.keeps_pure _
  | choice branches reactive =>
    exact Act.keeps_bind (buildChoice_keeps h hre branches reactive cursor) fun _ =>
      Act.keeps_pure _
  | loop spec =>
    exact Act.keeps_bind (buildLoop_keeps h hre spec cursor) fun _ => Act.keeps_pure _
  | set name value body =>
    exact Act.keeps_bind (buildSet_keeps h hre name value body cursor) fun _ => Act.keeps_pure _
  | slot name fallback =>
    exact Act.keeps_bind (buildSlot_keeps h hre name fallback cursor) fun _ => Act.keeps_pure _
  | code body line =>
    have hcode := runCodeBlock_keeps h.evaluation (hre.enters h) body line cursor
    exact Act.keeps_bind hcode fun _ => Act.keeps_pure _
  | carrier spec =>
    exact Act.keeps_bind (buildCarrier_keeps h hre spec cursor) fun _ => Act.keeps_pure _
  | scope bindings body =>
    have hvalues := bindingValues_keeps h.evaluation (hre.enters h) cursor bindings
    refine Act.keeps_bind hvalues fun values => ?_
    refine Act.keeps_bind (Act.keeps_step fun _ he => h.evaluation.addFrame _ _ he) fun _ => ?_
    exact Act.keeps_bind ((hre I h).build _ _) fun _ => Act.keeps_pure _
  | signal key action =>
    exact Act.keeps_bind (buildSignal_keeps h key action cursor) fun _ => Act.keeps_pure _
  | fragment body => exact Act.keeps_bind ((hre I h).build body cursor) fun _ => Act.keeps_pure _

/-- Building a body. -/
theorem buildBody_keeps (body : Body) (cursor : Cursor) : (buildBody re body cursor).Keeps I :=
  Act.keeps_discard
    (Act.keeps_foldlM (fun cursor step _ => runStep_keeps h hre cursor step) cursor)

/-! ## Updates -/

/-- Updating everything under a node. -/
theorem updateChildren_keeps (id : NodeId) : (updateChildren re id).Keeps I :=
  Act.keeps_bind (Act.keeps_read _) fun _ => Act.keeps_forM fun child _ => (hre I h).update child

/-- Updating what is under a node, if that is asked for. -/
theorem descend_keeps (id : NodeId) (recursive : Bool) :
    Act.Keeps I (if recursive then updateChildren re id else pure ()) := by
  split
  · exact updateChildren_keeps h hre id
  · exact Act.keeps_pure _

/-- Updating a loop without identities. -/
theorem updatePlain_keeps (id : NodeId) (items : List Value) (recursive : Bool) :
    (updatePlain re id items recursive).Keeps I := by
  refine Act.keeps_bind (Act.keeps_read _) fun found => ?_
  cases found with
  | none => exact Act.keeps_pure _
  | some n =>
    dsimp only
    split
    · have hfill : Act.Keeps I (do
          Act.change (·.clearChildren id)
          fillLoop re id items) :=
        Act.keeps_bind (Act.keeps_change fun _ he => h.clearChildren id he) fun _ =>
          fillLoop_keeps h hre id items
      exact Act.keeps_ite (descend_keeps h hre id recursive) hfill
    · exact Act.keeps_pure _

/-- Updating an instance that stays. -/
theorem keepInstance_keeps (spec : LoopSpec) (cursor : Cursor) (kept : Instance) (item : Value)
    (index : Nat) (identity : Value) (recursive : Bool) :
    (keepInstance re spec cursor kept item index identity recursive).Keeps I := by
  refine Act.keeps_bind (Act.keeps_step fun e he => ?_) fun changed => ?_
  · exact h.evaluation.rebindFrame _ _ _ (h.evaluation.rebindFrame _ _ _ he)
  · split
    · exact Act.keeps_forM fun id _ => (hre I h).update id
    · exact Act.keeps_pure _

/-- Arranging the instances of the wanted items. -/
theorem arrangeInstances_keeps (spec : LoopSpec) (cursor : Cursor) (recursive : Bool)
    (old : OrderedMap Key Instance) (wanted : List (Key × Value × Value)) :
    ∀ index, (arrangeInstances re spec cursor recursive old index wanted).Keeps I := by
  induction wanted with
  | nil => exact fun _ => Act.keeps_pure _
  | cons entry wanted ih =>
    intro index
    obtain ⟨key, identity, item⟩ := entry
    unfold arrangeInstances
    split
    · refine Act.keeps_bind (keepInstance_keeps h hre spec cursor _ item index identity _) ?_
      exact fun _ => Act.keeps_bind (ih (index + 1)) fun _ => Act.keeps_pure _
    · refine Act.keeps_bind (buildInstance_keeps h hre spec cursor item index _) fun _ => ?_
      exact Act.keeps_bind (ih (index + 1)) fun _ => Act.keeps_pure _

/-- Bringing a loop with identities in line with its items. -/
theorem reconcile_keeps (id : NodeId) (items : List Value) (recursive : Bool) :
    (reconcile re id items recursive).Keeps I := by
  refine Act.keeps_bind (Act.keeps_read _) fun found => ?_
  cases found with
  | none => exact Act.keeps_pure _
  | some parts =>
    obtain ⟨spec, cursor⟩ := parts
    refine Act.keeps_bind (Act.keeps_step fun _ he => h.takeInstances id he) fun old => ?_
    have hwanted := wantedItems_keeps h.evaluation (hre.enters h) spec cursor items
    refine Act.keeps_bind (hwanted _) fun wanted => ?_
    refine Act.keeps_bind (Act.keeps_change fun _ he => h.dropInstances old _ he) fun _ => ?_
    have harranged := arrangeInstances_keeps h hre spec cursor recursive old wanted.entries 0
    refine Act.keeps_bind harranged fun p => ?_
    obtain ⟨arranged, moved⟩ := p
    refine Act.keeps_bind (Act.keeps_change fun _ he => h.orderChildren id _ he) fun _ => ?_
    refine Act.keeps_bind (Act.keeps_change fun e he => ?_) fun _ => ?_
    · exact List.foldlRecOn moved _ he fun _ he id _ => h.markRebind id he
    · exact finishLoop_keeps h hre id spec cursor _

/-- Building a context anew. -/
theorem rebuildContext_keeps (ctx : NodeId) : (rebuildContext re ctx).Keeps I := by
  refine Act.keeps_bind (Act.keeps_read _) fun found => ?_
  cases found with
  | none => exact Act.keeps_throw _
  | some n =>
    have hrest : Act.Keeps I (do
        let ns ← Act.read (·.namespaceAt ctx)
        Act.change (·.clearChildren ctx)
        Act.change (·.resetContext ctx)
        runRoutine re ctx ns) := by
      refine Act.keeps_bind (Act.keeps_read _) fun ns => ?_
      refine Act.keeps_bind (Act.keeps_change fun _ he => h.clearChildren ctx he) fun _ => ?_
      refine Act.keeps_bind (Act.keeps_change fun _ he => h.resetContext ctx he) fun _ => ?_
      exact runRoutine_keeps h hre ctx ns
    dsimp only
    split
    · exact Act.keeps_bind (Act.keeps_throw _) fun _ => hrest
    · exact hrest

omit h hre in
/-- Reporting a node if it is shown differently than before. -/
theorem report_takes {P : Engine → Prop} {id : NodeId} {x : Act Bool} {rest : Act Unit}
    (hx : ∀ {e r e'}, x.Gives e r e' → P e →
      (r = .ok true → I (e'.report id)) ∧ (r ≠ .ok true → I e')) (hrest : rest.Keeps I) :
    Act.Takes P (do
      if ← x then Act.change (·.report id)
      rest) I := by
  intro e r e' hgives he
  rcases Act.gives_bind.1 hgives with ⟨changed, e₁, hx₁, hend⟩ | ⟨err, hx₁, -⟩
  · obtain ⟨hshown, hsame⟩ := hx hx₁ he
    cases changed with
    | true =>
      rcases Act.gives_bind.1 hend with ⟨u, e₂, hreport, hend⟩ | ⟨err, herr, -⟩
      · obtain ⟨-, rfl⟩ := Act.gives_change.1 hreport
        exact hrest hend (hshown rfl)
      · cases (Act.gives_change.1 herr).1
    | false => exact hrest hend (hsame nofun)
  · exact (hx hx₁ he).2 nofun

/-- Showing the new state of an element with a report. -/
theorem refreshElement_redraws {earlier : Engine} (hearlier : I earlier) {id : NodeId} {e e' : Engine}
    {r : Except EngineError Bool} (hgives : (refreshElement re id).Gives e r e')
    (he : I e ∧ earlier.Attends e id) : (r = .ok true → I (e'.report id)) ∧ (r ≠ .ok true → I e') := by
  have hstate (n : RenderNode) (data : ElementData) :=
    elementState_keeps (h.attending hearlier id) (hre.attending h earlier id) rfl n data
  rw [refreshElement_eq] at hgives
  rcases Act.gives_bind.1 hgives with ⟨found, e₁, hread, hrest⟩ | ⟨err, herr, -⟩
  · obtain ⟨hfound, rfl⟩ := Act.gives_read.1 hread
    rw [Except.ok.inj hfound] at hrest
    cases hn : e₁.node? id with
    | none =>
      rw [hn] at hrest
      obtain ⟨rfl, rfl⟩ := Act.gives_pure.1 hrest
      exact ⟨nofun, fun _ => he.1⟩
    | some n =>
      rw [hn] at hrest
      dsimp only at hrest
      split at hrest
      · rename_i data hkind
        rcases Act.gives_bind.1 hrest with ⟨state, e₂, hgiven, hshow⟩ | ⟨err, herr, rfl⟩
        · obtain ⟨rfl, rfl⟩ := Act.gives_step.1 hshow
          have hcomputed := computed_of_elementState hre hn hkind hgiven
          have hdrawn := h.redraw he.1 hcomputed (hstate n data hgiven he).1
          unfold Engine.redraw at hdrawn
          split at hdrawn
          · rename_i hchanged
            exact ⟨fun _ => hdrawn, fun hsame => absurd (congrArg Except.ok hchanged) hsame⟩
          · rename_i hsame
            exact ⟨fun hchanged => absurd (Except.ok.inj hchanged) hsame, fun _ => hdrawn⟩
        · exact ⟨nofun, fun _ => (hstate n data herr he).1⟩
      · obtain ⟨rfl, rfl⟩ := Act.gives_pure.1 hrest
        exact ⟨nofun, fun _ => he.1⟩
  · cases (Act.gives_read.1 herr).1

omit hre in
/-- Showing another text and reporting it is giving a text to the node. -/
theorem showText_report {e : Engine} {id : NodeId} {text : String} (he : I e)
    (hchanged : (e.showText id text).1 = true) : I ((e.showText id text).2.report id) := by
  have hgiven := h.text id text he
  unfold Engine.showText Engine.setNodeText at *
  cases hn : e.node? id with
  | none =>
    rw [hn] at hchanged
    cases hchanged
  | some n =>
    simp only [hn, Option.map_some] at hchanged hgiven ⊢
    cases hkind : n.kind with
    | text data =>
      simp only [hkind] at hchanged hgiven ⊢
      rwa [if_neg (of_decide_eq_true hchanged)] at hgiven
    | _ =>
      simp only [hkind] at hchanged
      cases hchanged

omit hre in
/-- Showing the same text is quiet. -/
theorem showText_same {e : Engine} {id : NodeId} {text : String} (he : I e)
    (hsame : (e.showText id text).1 ≠ true) : I (e.showText id text).2 := by
  unfold Engine.showText at *
  split at hsame
  · rename_i data hfound
    have htext : data.text = text := by simpa using hsame
    dsimp only
    refine h.modifyKind (fun n hn => ?_) he
    rw [hn] at hfound
    have hkind : n.kind = .text data := Option.some.inj hfound
    rw [hkind, ← htext]
    exact ⟨rfl, rfl, nofun⟩
  · exact he

/-- Showing the new text of a text node with a report. -/
theorem refreshText_redraws {earlier : Engine} (hearlier : I earlier) {id : NodeId} {e e' : Engine}
    {r : Except EngineError Bool} (hgives : (refreshText re id).Gives e r e')
    (he : I e ∧ earlier.Attends e id) : (r = .ok true → I (e'.report id)) ∧ (r ≠ .ok true → I e') := by
  have htext (n : RenderNode) (x : DynamicExpr) :=
    nodeText_keeps (h.attending hearlier id) (hre.attending h earlier id) rfl n x
  rw [refreshText_eq] at hgives
  rcases Act.gives_bind.1 hgives with ⟨found, e₁, hread, hrest⟩ | ⟨err, herr, -⟩
  · obtain ⟨hfound, rfl⟩ := Act.gives_read.1 hread
    rw [Except.ok.inj hfound] at hrest
    cases hn : e₁.node? id with
    | none =>
      rw [hn] at hrest
      obtain ⟨rfl, rfl⟩ := Act.gives_pure.1 hrest
      exact ⟨nofun, fun _ => he.1⟩
    | some n =>
      rw [hn] at hrest
      dsimp only at hrest
      split at hrest
      · rename_i x hkind
        rcases Act.gives_bind.1 hrest with ⟨text, e₂, hcomputed, hshow⟩ | ⟨err, herr, rfl⟩
        · obtain ⟨rfl, rfl⟩ := Act.gives_step.1 hshow
          have he₂ := (htext n x hcomputed he).1
          exact ⟨fun hchanged => showText_report h he₂ (Except.ok.inj hchanged),
            fun hsame => showText_same h he₂ fun hchanged => hsame (congrArg Except.ok hchanged)⟩
        · exact ⟨nofun, fun _ => (htext n x herr he).1⟩
      · obtain ⟨rfl, rfl⟩ := Act.gives_pure.1 hrest
        exact ⟨nofun, fun _ => he.1⟩
  · cases (Act.gives_read.1 herr).1

/-- Evaluating a node again. -/
theorem updateNode_keeps (id : NodeId) (recursive : Bool) :
    (updateNode re id recursive).Keeps I := by
  have hclear : Act.Keeps I (Act.change (·.clearChildren id)) :=
    Act.keeps_change fun _ he => h.clearChildren id he
  refine Act.keeps_bind (Act.keeps_poll fun _ he => h.evaluation.poll he) fun _ => ?_
  refine node_bind_keeps (Act.keeps_pure _) fun e n he => ?_
  have hev := h.attending he id
  have hen := hre.attending h e id
  have hpurge : Act.Keeps (fun e' => I e' ∧ e.Attends e' id) (Act.change (·.purge id)) :=
    Act.keeps_change fun _ he => hev.purge id he
  dsimp only
  split
  · refine Act.takes_bind hpurge (fun _ he => he.1) fun _ => ?_
    exact report_takes (refreshElement_redraws h hre he) (descend_keeps h hre id recursive)
  · refine Act.takes_bind hpurge (fun _ he => he.1) fun _ => ?_
    exact report_takes (refreshText_redraws h hre he) (Act.keeps_pure _)
  · exact Act.takes_bind (propagateSources_keeps hev hen rfl n _) (fun _ he => he.1) fun _ =>
      (descend_keeps h hre id recursive).takes fun _ he => he.1
  · refine Act.takes_bind hpurge (fun _ he => he.1) fun _ => ?_
    refine Act.takes_bind (selectBranch_keeps hev hen rfl) (fun _ he => he.1) fun selected => ?_
    refine Act.Keeps.takes (I := I) ?_ fun _ he => he.1
    split
    · exact Act.keeps_bind hclear fun _ => buildBranch_keeps h hre id selected
    · exact descend_keeps h hre id recursive
  · refine Act.takes_bind hpurge (fun _ he => he.1) fun _ => ?_
    refine Act.takes_bind (loopItems_keeps hev hen rfl) (fun _ he => he.1) fun items => ?_
    refine Act.Keeps.takes (I := I) ?_ fun _ he => he.1
    split
    · exact reconcile_keeps h hre id items recursive
    · exact updatePlain_keeps h hre id items recursive
  · refine Act.takes_bind hpurge (fun _ he => he.1) fun _ => ?_
    refine Act.takes_bind (setValue_keeps hev hen rfl) (fun _ he => he.1) fun v => ?_
    refine Act.Keeps.takes (I := I) ?_ fun _ he => he.1
    split
    · exact Act.keeps_bind hclear fun _ => fillSet_keeps h hre id v
    · exact descend_keeps h hre id recursive
  · exact (Act.keeps_pure _).takes fun _ he => he.1
  · refine Act.Keeps.takes (I := I) ?_ fun _ he => he.1
    split
    · exact Act.keeps_pure _
    · exact fireSignal_keeps h.evaluation (hre.enters h) _ id _

/-- Updating the nodes that still exist. -/
theorem updateLive_keeps (ids : List NodeId) : (updateLive re ids).Keeps I := by
  refine Act.keeps_forM fun id _ => ?_
  refine Act.keeps_bind (Act.keeps_read _) fun live => ?_
  cases live with
  | true => exact updateNode_keeps h hre id false
  | false => exact Act.keeps_pure _

/-- Following queued writes up. -/
theorem flush_keeps (limit rounds : Nat) : (flush re limit rounds).Keeps I := by
  induction rounds with
  | zero =>
    refine Act.keeps_bind (Act.keeps_read _) fun pending => ?_
    split
    · exact Act.keeps_pure _
    · exact Act.keeps_change fun _ he => h.outside he rfl rfl rfl rfl
  | succ rounds ih =>
    refine Act.keeps_bind (Act.keeps_read _) fun settled => ?_
    cases settled with
    | true => exact Act.keeps_pure _
    | false =>
      refine Act.keeps_bind (Act.keeps_step fun _ he => h.outside he rfl rfl rfl rfl) fun ids => ?_
      exact Act.keeps_bind (updateLive_keeps h hre ids) fun _ => ih

/-- Running an operation and following its writes up. -/
theorem batch_keeps {α : Type} {action : Act α} (ha : action.Keeps I) :
    (batch re action).Keeps I := by
  refine Act.keeps_bind (Act.keeps_lift ha) fun outcome => ?_
  refine Act.keeps_bind (Act.keeps_read _) fun limit => ?_
  refine Act.keeps_bind (Act.keeps_lift (flush_keeps h hre limit limit)) fun followed => ?_
  split
  · exact Act.keeps_throw _
  · exact Act.keeps_throw _
  · exact Act.keeps_pure _

end Render
end

/-- Building, updating and rebuilding keep what operations cannot break, however deeply they are
nested. -/
theorem Reentry.within_operates (depth : Nat) : (Reentry.within depth).Operates := by
  induction depth with
  | zero =>
    intro I _
    refine ⟨fun _ _ _ _ _ hgives => ?_, fun _ _ _ _ hgives => ?_, fun _ _ _ _ hgives => ?_⟩
    all_goals cases hgives
  | succ depth ih =>
    exact fun I h => ⟨fun body cursor => Render.buildBody_keeps h ih body cursor,
      fun id => Render.updateNode_keeps h ih id true, fun ctx => Render.rebuildContext_keeps h ih ctx⟩

end ReactiveView
