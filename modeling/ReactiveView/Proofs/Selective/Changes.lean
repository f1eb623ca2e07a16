import ReactiveView.Proofs.Registrations
import ReactiveView.Proofs.Structure.Effects

/-!
# Which nodes a change alters

Evaluation, the records of reads and reports leave nodes as they are, apart from marks that show in
no outline (`RenderNode.unread`). What an operation does to the rest is told by the nodes that it may
alter (`Engine.Alters`): any other node that is still there afterwards is as it was, and the records
of its reads are still there. Such a change adds no node; it may take nodes away.
-/

namespace ReactiveView

/-! ## Nodes without their marks -/

/-- A component instance without the records of its readers and the names of nodes. -/
def ContextData.unread (data : ContextData) : ContextData :=
  { data with index := .empty, refs := .empty }

/-- What a node is, without the records of its readers and the names of nodes. -/
def RenderKind.unread : RenderKind → RenderKind
  | context data => context data.unread
  | other => other

/-- A node without what records, names and reports leave on it. -/
def RenderNode.unread (n : RenderNode) : RenderNode :=
  { n with kind := n.kind.unread, watchers := [], flags := { n.flags with rebind := false } }

/-- Where a node stands, and its variables if it is a component instance. -/
structure Place where
  /-- The node that it is under. -/
  parent : Option NodeId
  /-- The context whose variables it reads. -/
  context : NodeId
  /-- The frame in which it was built. -/
  frame : Option FrameId
  /-- What it is as a component instance. -/
  instance? : Option ContextData

/-- Where a node stands. -/
def RenderNode.place (n : RenderNode) : Place :=
  ⟨n.parent, n.context, n.frame, n.kind.context?.map ContextData.unread⟩

/-- Reading the kind of a node past its marks. -/
theorem RenderKind.context?_unread (kind : RenderKind) :
    kind.unread.context? = kind.context?.map ContextData.unread := by
  cases kind <;> rfl

/-- Nodes that are alike without their marks stand in the same place. -/
theorem RenderNode.place_congr {n n' : RenderNode} (h : n'.unread = n.unread) :
    n'.place = n.place := by
  have hkind : n'.kind.unread = n.kind.unread := congrArg (·.kind) h
  unfold place
  rw [← RenderKind.context?_unread, ← RenderKind.context?_unread, hkind]
  simp only [Place.mk.injEq, and_true]
  exact ⟨congrArg (·.parent) h, congrArg (·.context) h, congrArg (·.frame) h⟩

/-- Whether a node is a component instance shows in its place. -/
theorem RenderNode.isContext_congr {n n' : RenderNode} (h : n'.place = n.place) :
    n'.isContext = n.isContext := by
  have hinstance : n'.kind.context?.map ContextData.unread = n.kind.context?.map ContextData.unread :=
    congrArg (·.instance?) h
  simpa [isContext, Option.isSome_map] using congrArg Option.isSome hinstance

/-- What is no component instance is the same with and without its marks. -/
theorem RenderKind.eq_of_unread {kind kind' : RenderKind} (h : kind'.unread = kind.unread)
    (hkind : kind.context? = none) : kind' = kind := by
  cases kind with
  | context data => cases hkind
  | _ =>
    cases kind' with
    | context data => cases h
    | _ => exact h

/-- Changes of a component instance that leave it alike without its marks. -/
theorem RenderNode.unread_modifyContext {f : ContextData → ContextData}
    (hf : ∀ data, (f data).unread = data.unread) (n : RenderNode) :
    { n with kind := n.kind.modifyContext f }.unread = n.unread := by
  have hkind : (n.kind.modifyContext f).unread = n.kind.unread := by
    cases n.kind with
    | context data => exact congrArg RenderKind.context (hf data)
    | _ => rfl
  unfold unread
  rw [hkind]

/-! ## What the host has set up -/

/-- The parts of an engine that no build and no update changes. -/
structure Setup where
  /-- Where components come from. -/
  library : Library
  /-- How the engine works. -/
  options : EngineOptions
  /-- Whether running operations are to stop. -/
  cancel : Cancel
  /-- The translations of texts. -/
  translator : Translator
  /-- The place from which assets are served. -/
  assets : String
  /-- The outermost component instance. -/
  root : Option NodeId
  /-- The variables whose readers have still to be updated. -/
  pending : OrderedSet (NodeId × String)
  /-- How often code has entered an operation from inside. -/
  entries : Nat

namespace Engine

/-- What the host has set up. -/
def setup (e : Engine) : Setup :=
  ⟨e.library, e.options, e.cancel, e.translator, e.assets, e.root, e.pending, e.entries⟩

/-- A node is recorded as a reader of a variable of a context. -/
def Reads (e : Engine) (c : NodeId) (k : String) (x : NodeId) : Prop :=
  ∃ index, e.index? c = some index ∧ x ∈ index.dependents k

/-- An identity has been given away. -/
def Known (e : Engine) (x : NodeId) : Prop := e.contains x = true ∨ e.nodes.Spent x

variable {e e' e₁ e₂ : Engine} {id x : NodeId} {M M' R R' : NodeId → Prop}

/-- Live nodes are known. -/
theorem known_of_node? {n : RenderNode} (h : e.node? x = some n) : e.Known x :=
  .inl (Option.isSome_iff_exists.2 ⟨n, h⟩)

/-- A live node. -/
theorem contains_iff : e.contains x = true ↔ ∃ n, e.node? x = some n := Option.isSome_iff_exists

/-! ## Changes of some nodes -/

/-- No node has come, and of those that are left only certain ones (`M`) are not as they were. Records
of reads have gone of certain nodes only (`R`). -/
structure Alters (M R : NodeId → Prop) (e e' : Engine) : Prop where
  /-- What is left stands where it stood, and is otherwise as it was unless it may be altered. -/
  node : ∀ ⦃x n'⦄, e'.node? x = some n' →
    ∃ n, e.node? x = some n ∧ n'.place = n.place ∧ (¬M x → n'.unread = n.unread)
  /-- The records of what other nodes have read stay. -/
  reads : ∀ ⦃c k x⦄, e'.contains c = true → e'.contains x = true → ¬R x → e.Reads c k x →
    e'.Reads c k x
  /-- The frames stay. -/
  frames : e'.frames = e.frames
  /-- So does what the host has set up. -/
  setup : e'.setup = e.setup
  /-- No identity is given away anew. -/
  known : ∀ ⦃x⦄, e.nodes.Valid → e.Known x → e'.Known x
  /-- The arena stays valid. -/
  valid : e.nodes.Valid → e'.nodes.Valid
  /-- No slot goes. -/
  slots : e.nodes.slots.size ≤ e'.nodes.slots.size

namespace Alters

/-- Nothing has changed. -/
theorem refl (M R : NodeId → Prop) (e : Engine) : e.Alters M R e where
  node _ n' hn' := ⟨n', hn', rfl, fun _ => rfl⟩
  reads _ _ _ _ _ _ h := h
  frames := rfl
  setup := rfl
  known _ _ h := h
  valid h := h
  slots := Nat.le_refl _

/-- What is left was there. -/
theorem contains (h : e.Alters M R e') (hx : e'.contains x = true) : e.contains x = true := by
  obtain ⟨n', hn'⟩ := contains_iff.1 hx
  obtain ⟨n, hn, -⟩ := h.node hn'
  exact contains_iff.2 ⟨n, hn⟩

/-- One change after another. -/
theorem trans (h₁ : e.Alters M R e₁) (h₂ : e₁.Alters M R e₂) : e.Alters M R e₂ where
  node x n₂ hn₂ := by
    obtain ⟨n₁, hn₁, hplace₂, hsame₂⟩ := h₂.node hn₂
    obtain ⟨n, hn, hplace₁, hsame₁⟩ := h₁.node hn₁
    exact ⟨n, hn, hplace₂.trans hplace₁, fun hx => (hsame₂ hx).trans (hsame₁ hx)⟩
  -- the second change keeps the records of whom it leaves alive, so the reader was alive in between
  reads c k x hc hx hR hreads :=
    h₂.reads hc hx hR (h₁.reads (h₂.contains hc) (h₂.contains hx) hR hreads)
  frames := h₂.frames.trans h₁.frames
  setup := h₂.setup.trans h₁.setup
  known x hvalid hx := h₂.known (h₁.valid hvalid) (h₁.known hvalid hx)
  valid hvalid := h₂.valid (h₁.valid hvalid)
  slots := Nat.le_trans h₁.slots h₂.slots

/-- More nodes may be altered. -/
theorem mono (h : e.Alters M R e') (hM : ∀ x, M x → M' x) (hR : ∀ x, R x → R' x) : e.Alters M' R' e' where
  node x n' hn' := by
    obtain ⟨n, hn, hplace, hsame⟩ := h.node hn'
    exact ⟨n, hn, hplace, fun hx => hsame fun hx' => hx (hM x hx')⟩
  reads _ _ _ hc hx hR' hreads := h.reads hc hx (fun hx' => hR' (hR _ hx')) hreads
  frames := h.frames
  setup := h.setup
  known _ hvalid hx := h.known hvalid hx
  valid := h.valid
  slots := h.slots

/-- Changes in turn. -/
theorem foldl {α : Type} {f : Engine → α → Engine} {xs : List α}
    (hf : ∀ a ∈ xs, ∀ e : Engine, e.Alters M R (f e a)) : ∀ e : Engine, e.Alters M R (xs.foldl f e) := by
  induction xs with
  | nil => exact fun e => .refl M R e
  | cons a xs ih =>
    intro e
    exact (hf a List.mem_cons_self e).trans
      (ih (fun b hb => hf b (List.mem_cons_of_mem a hb)) (f e a))

/-- Changes outside of the tree. -/
theorem outside (hnodes : e'.nodes = e.nodes) (hframes : e'.frames = e.frames)
    (hsetup : e'.setup = e.setup) : e.Alters M R e' where
  node x n' hn' := ⟨n', by unfold node? at hn' ⊢; rwa [← hnodes], rfl, fun _ => rfl⟩
  reads c k x _ _ _ hreads := by
    unfold Reads index? node? at hreads ⊢
    rwa [hnodes]
  frames := hframes
  setup := hsetup
  known x _ hx := by
    unfold Known Engine.contains at hx ⊢
    rwa [hnodes]
  valid hvalid := by rwa [hnodes]
  slots := by rw [hnodes]

/-- A change of a node that leaves its place and keeps the records of its readers. -/
theorem modifyNode {f : RenderNode → RenderNode}
    (hf : ∀ n, e.node? id = some n → (f n).place = n.place ∧ (¬M id → (f n).unread = n.unread))
    (hindex : ∀ n index, e.node? id = some n → n.kind.index? = some index →
      ∃ index', (f n).kind.index? = some index' ∧
        ∀ k x, ¬R x → x ∈ index.dependents k → x ∈ index'.dependents k) :
    e.Alters M R (e.modifyNode id f) where
  node x n' hn' := by
    obtain ⟨n, hn, rfl⟩ := of_node?_modifyNode hn'
    refine ⟨n, hn, ?_⟩
    split
    · rename_i hx
      subst hx
      exact hf n hn
    · exact ⟨rfl, fun _ => rfl⟩
  reads c k x _ _ hx := by
    rintro ⟨index, hc, hmem⟩
    unfold Reads
    rw [index?_modifyNode]
    split
    · rename_i hcid
      subst hcid
      obtain ⟨n, hn, hkind⟩ := Option.bind_eq_some_iff.1 hc
      -- the node that changed holds the records itself
      obtain ⟨index', hindex', hmono⟩ := hindex n index hn hkind
      exact ⟨index', by rw [hn, Option.bind_some, hindex'], hmono k x hx hmem⟩
    · exact ⟨index, hc, hmem⟩
  frames := rfl
  setup := rfl
  known x _ hx := by
    refine hx.imp (fun h => ?_) fun h => h.modify id f
    exact (Arena.contains_modify id x f).trans h
  valid hvalid := hvalid.modify id f
  slots := by
    unfold Engine.modifyNode
    rw [Arena.size_slots_modify]

/-- A change of a node that leaves its place and the records of its readers. -/
theorem modifyNode_of_index {f : RenderNode → RenderNode}
    (hf : ∀ n, e.node? id = some n → (f n).place = n.place ∧ (¬M id → (f n).unread = n.unread))
    (hindex : ∀ n, e.node? id = some n → (f n).kind.index? = n.kind.index?) :
    e.Alters M R (e.modifyNode id f) :=
  modifyNode hf fun n index hn hkind => ⟨index, (hindex n hn).trans hkind, fun _ _ _ h => h⟩

/-- A change of the records of readers that keeps those of the nodes that are not altered. -/
theorem modifyIndex (owner : NodeId) {f : ReactiveIndex NodeId → ReactiveIndex NodeId}
    (hf : ∀ index k x, ¬R x → x ∈ index.dependents k → x ∈ (f index).dependents k) :
    e.Alters M R (e.modifyIndex owner f) := by
  refine modifyNode (fun n _ => ?_) fun n index _ hkind => ?_
  · have hunread := RenderNode.unread_modifyContext
      (f := fun data => { data with index := f data.index }) (fun _ => rfl) n
    exact ⟨RenderNode.place_congr hunread, fun _ => hunread⟩
  · cases hn : n.kind with
    | context data =>
      rw [hn] at hkind
      cases hkind
      exact ⟨f data.index, rfl, hf data.index⟩
    | _ =>
      rw [hn] at hkind
      cases hkind

/-- Reports. -/
theorem report (id : NodeId) : e.Alters M R (e.report id) := by
  unfold Engine.report
  split
  · exact outside rfl rfl rfl
  · exact .refl M R e

/-- Problems. -/
theorem diagnose (ctx : NodeId) (node : Option NodeId) (message : String) (line : Option Nat) :
    e.Alters M R (e.diagnose ctx node message line) := outside rfl rfl rfl

/-- Letting a context watch a node. -/
theorem addWatcher (owner node : NodeId) : e.Alters M R (e.addWatcher owner node) := by
  refine modifyNode_of_index (fun n _ => ?_) fun n _ => by split <;> rfl
  split
  · exact ⟨rfl, fun _ => rfl⟩
  · exact ⟨rfl, fun _ => rfl⟩

/-- Records of reads. -/
theorem track (owner : NodeId) (name : String) (node : NodeId) :
    e.Alters M R (e.track owner name node) := by
  rw [track_eq]
  split
  · refine (modifyIndex owner fun index k x _ hx => ?_).trans (addWatcher owner node)
    exact (ReactiveIndex.mem_dependents_track index name k node x).2 (.inl hx)
  · exact .refl M R e

/-- Dropping the records of the reads of a node. -/
theorem purge {node : NodeId} (hR : R node) : e.Alters M R (e.purge node) := by
  rw [purge_eq]
  split
  · exact .refl M R e
  · rename_i n _
    -- the node forgets who watches it, then each of these forgets the node
    have hcleared : e.Alters M R (e.modifyNode node fun n => { n with watchers := [] }) :=
      modifyNode_of_index (fun _ _ => ⟨rfl, fun _ => rfl⟩) fun _ _ => rfl
    refine hcleared.trans (foldl (fun owner _ e => ?_) _)
    refine modifyIndex owner fun index k x hx hmem => ?_
    refine (ReactiveIndex.mem_dependents_purge index k node x).2 ⟨hmem, fun h => hx ?_⟩
    rw [h.2]
    exact hR

/-- Marking a node as moved. -/
theorem flagRebind (id : NodeId) : e.Alters M R (e.flagRebind id) := by
  have hmarked : e.Alters M R (e.modifyNode id fun n =>
      { n with flags := { n.flags with rebind := true } }) :=
    modifyNode_of_index (fun _ _ => ⟨rfl, fun _ => rfl⟩) fun _ _ => rfl
  exact hmarked.trans (outside rfl rfl rfl)

/-- Marking subtrees as moved. -/
theorem markRebind (ids : List NodeId) : e.Alters M R (ids.foldl Engine.markRebind e) :=
  foldl (fun _ _ e => foldl (fun id _ _ => flagRebind id) e) e

/-- Taking the name of a node away. -/
theorem unbindRef (n : RenderNode) (id : NodeId) : e.Alters M R (e.unbindRef n id) := by
  unfold Engine.unbindRef
  split
  · exact .refl M R e
  · rename_i name _
    refine modifyNode_of_index (fun m _ => ?_) fun m _ => ?_
    · -- names of nodes are no part of what an evaluation reads
      have hunread : ∀ data : ContextData,
          (if data.refs.get? name = some id then { data with refs := data.refs.erase name }
            else data).unread = data.unread := fun data => by split <;> rfl
      have hnode := RenderNode.unread_modifyContext hunread m
      exact ⟨RenderNode.place_congr hnode, fun _ => hnode⟩
    · refine RenderKind.index?_modifyContext (fun data => ?_) m.kind
      split <;> rfl

/-- A node that goes. -/
theorem dropNode (id : NodeId) : e.Alters M R (e.dropNode id) := by
  -- the records of the node go first, and nothing else is altered as it does not stay
  have hpurge : e.Alters M (fun x => R x ∨ x = id) (e.purge id) := purge (.inr rfl)
  let e₁ : Engine := { e.purge id with nodes := ((e.purge id).nodes.remove id).2 }
  have hnode (x : NodeId) : e₁.node? x = if x = id then none else (e.purge id).node? x :=
    Arena.get?_remove id x
  have hlive {x : NodeId} (hx : e₁.contains x = true) :
      x ≠ id ∧ (e.purge id).contains x = true := by
    obtain ⟨n, hn⟩ := contains_iff.1 hx
    rw [hnode] at hn
    split at hn
    · cases hn
    · exact ⟨‹_›, contains_iff.2 ⟨n, hn⟩⟩
  have hremoved : e.Alters M R e₁ := by
    refine ⟨fun x n' hn' => ?_, fun c k x hc hx hR hreads => ?_, hpurge.frames, hpurge.setup,
      fun x hvalid hx => ?_, fun hvalid => (hpurge.valid hvalid).remove id, ?_⟩
    · rw [hnode] at hn'
      split at hn'
      · cases hn'
      · obtain ⟨n, hn, hplace, hsame⟩ := hpurge.node hn'
        exact ⟨n, hn, hplace, hsame⟩
    · obtain ⟨hcid, hc⟩ := hlive hc
      obtain ⟨hxid, hx⟩ := hlive hx
      -- a reader that is left is another node, whose records the purge has kept
      obtain ⟨index, hindex, hmem⟩ := hpurge.reads hc hx (fun h => h.elim hR hxid) hreads
      refine ⟨index, ?_, hmem⟩
      unfold index? at hindex ⊢
      rw [hnode, if_neg hcid]
      exact hindex
    · rcases hpurge.known hvalid hx with hx | hx
      · by_cases hxid : x = id
        · -- its slot stays, under a later generation
          subst hxid
          obtain ⟨n, hn⟩ := contains_iff.1 hx
          exact .inr (Arena.spent_remove (hpurge.valid hvalid) hn)
        · obtain ⟨n, hn⟩ := contains_iff.1 hx
          exact .inl (contains_iff.2 ⟨n, by rw [hnode, if_neg hxid, hn]⟩)
      · exact .inr (hx.remove (hpurge.valid hvalid) id)
    · exact Nat.le_trans hpurge.slots (Nat.le_of_eq (Arena.size_slots_remove id).symm)
  unfold Engine.dropNode
  dsimp only
  split
  · exact hremoved
  · rename_i n _
    have hunbound : e.Alters M R (e₁.unbindRef n id) := hremoved.trans (unbindRef n id)
    split
    · exact hunbound.trans (outside rfl rfl rfl)
    · exact hunbound

/-- A subtree that goes. -/
theorem dropSubtree (id : NodeId) : e.Alters M R (e.dropSubtree id) :=
  foldl (fun id _ _ => dropNode id) e

/-- The children of a node that go with all that is under them. -/
theorem clearChildren (hM : M id) : e.Alters M R (e.clearChildren id) := by
  have hcleared : e.Alters M R (e.modifyNode id fun n => { n with children := [] }) :=
    modifyNode_of_index (fun _ _ => ⟨rfl, fun h => absurd hM h⟩) fun _ _ => rfl
  exact hcleared.trans (foldl (fun id _ _ => dropSubtree id) _)

/-- A child that goes with all that is under it. -/
theorem removeNode (hM : ∀ n p, e.node? id = some n → n.parent = some p → M p) :
    e.Alters M R (e.removeNode id) := by
  unfold Engine.removeNode
  cases hn : e.node? id with
  | none => exact .refl M R e
  | some n =>
    dsimp only
    cases hp : n.parent with
    | none => exact dropSubtree id
    | some p =>
      -- its parent loses a child
      have hp := hM n p hn hp
      have hfiltered : e.Alters M R (e.modifyNode p fun n => { n with
          children := n.children.filter (· ≠ id) }) :=
        modifyNode_of_index (fun _ _ => ⟨rfl, fun h => absurd hp h⟩) fun _ _ => rfl
      exact hfiltered.trans (dropSubtree id)

end Alters

/-- A tracked read is recorded. -/
theorem reads_track (h : (e.context? id).isSome = true) {name : String}
    (hname : isTrackedKey name = true) (node : NodeId) :
    (e.track id name node).Reads id name node := by
  rw [track_eq, h, hname]
  obtain ⟨data, hdata⟩ := Option.isSome_iff_exists.1 h
  have hindex : e.index? id = some data.index := by
    obtain ⟨n, hn, hkind⟩ := Option.bind_eq_some_iff.1 hdata
    unfold index? RenderKind.index?
    rw [hn, Option.bind_some, hkind, Option.map_some]
  refine ⟨data.index.track name node, ?_, ?_⟩
  · rw [Bool.and_self, if_pos rfl, index?_addWatcher, index?_modifyIndex, if_pos rfl, hindex,
      Option.map_some]
  · exact (ReactiveIndex.mem_dependents_track _ _ _ _ _).2 (.inr ⟨hname, rfl, rfl⟩)

end Engine
end ReactiveView
