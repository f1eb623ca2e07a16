import ReactiveView.Proofs.Structure.Frames
import ReactiveView.Render.Build

/-!
# Views of the rendered tree

What the structure of an engine depends on is its `View`: the forest of its nodes and the identities
that are gone for good. A loop with identities keeps books on which of its children belong to which
item; `View.Kept` says that the books are right, and `View.Sound` that they are right everywhere but
at the loops that are being worked on. Since an identity that is gone stays gone, the books of a loop
stay right for as long as the loop is left alone (`Kept.later`).

An operation that builds relates the view before it to the one after it by `View.Grown`, one that
updates by `View.Changed`.
-/

namespace ReactiveView

/-- The nodes of an engine and the identities that are gone for good. -/
@[ext] structure View where
  /-- The forest of the nodes. -/
  shape : Forest
  /-- The identities that are gone for good. -/
  spent : NodeId → Prop
  /-- What is gone is not there. -/
  disjoint : ∀ id, spent id → shape id = none

/-- Whether a node is a loop that keeps the nodes of the items that stay. -/
def RenderNode.isKeyed (n : RenderNode) : Bool :=
  match n.kind with
  | .loop data => data.isKeyed
  | _ => false

/-- Whether a node keeps books depends on its kind only. -/
theorem RenderNode.isKeyed_congr {n n' : RenderNode} (h : n.kind = n'.kind) :
    n.isKeyed = n'.isKeyed := by
  unfold isKeyed
  rw [h]

/-- A component instance keeps no books. -/
theorem RenderNode.isKeyed_of_isContext {n : RenderNode} (h : n.isContext = true) :
    n.isKeyed = false := by
  unfold isContext at h
  unfold isKeyed
  split
  · rename_i data hdata
    rw [hdata] at h
    cases h
  · rfl

/-- A new node at a cursor. -/
def Cursor.leaf (c : Cursor) (kind : RenderKind) : RenderNode where
  kind := kind.skeleton
  parent := some c.parent
  context := c.ctx
  frame := c.frame

/-- The nodes of instances, in the order of the instances. -/
def OrderedMap.nodes (instances : OrderedMap Key Instance) : List NodeId :=
  instances.values.flatMap (·.nodes)

namespace View

variable {v v' v₁ v₂ : View} {r p y id x : NodeId} {n : RenderNode} {busy : List NodeId}

/-- Whether there is a node. -/
def live (v : View) (id : NodeId) : Bool := (v.shape id).isSome

/-- There is a node if it is in the forest. -/
theorem live_iff : v.live id = true ↔ ∃ n, v.shape id = some n := Option.isSome_iff_exists

/-- What is gone is not there. -/
theorem live_of_spent (h : v.spent id) : v.live id = false := by
  rw [live, v.disjoint id h]
  rfl

/-! ## Time -/

/-- Identities that are gone stay gone, and a node that goes is gone for good. -/
structure Later (v v' : View) : Prop where
  /-- What is gone stays gone. -/
  spent : ∀ id, v.spent id → v'.spent id
  /-- What goes is gone for good. -/
  known : ∀ id, v.live id = true → v'.live id = true ∨ v'.spent id

/-- Nothing has happened. -/
theorem Later.refl (v : View) : v.Later v := ⟨fun _ h => h, fun _ h => .inl h⟩

/-- One thing has happened after another. -/
theorem Later.trans (h₁ : v.Later v₁) (h₂ : v₁.Later v₂) : v.Later v₂ where
  spent id h := h₂.spent id (h₁.spent id h)
  known id h := (h₁.known id h).elim (h₂.known id) fun h => .inr (h₂.spent id h)

/-! ## The books of loops -/

/-- The children of a loop are what is left of the nodes of its instances. -/
structure Lists (v : View) (instances : OrderedMap Key Instance) (children : List NodeId) :
    Prop where
  /-- No two instances have one key. -/
  distinct : instances.Distinct
  /-- The children are the nodes that are left. -/
  children_eq : children = instances.nodes.filter v.live
  /-- The others are gone for good. -/
  known : ∀ id ∈ instances.nodes, v.live id = true ∨ v.spent id

/-- A loop with identities lists its instances, or shows its empty case and has none. -/
def Kept (v : View) (n : RenderNode) : Prop :=
  ∀ data, n.kind = .loop data → data.isKeyed = true → ∃ instances,
    data.state = .keyed instances ∧
      if data.showingEmpty then instances = .empty else v.Lists instances n.children

/-- All loops are in order that are not being worked on. -/
def Sound (v : View) (busy : List NodeId) : Prop :=
  ∀ x n, v.shape x = some n → x ∉ busy → v.Kept n

/-- Children may be added to a node without its books. -/
def Free (v : View) (busy : List NodeId) (p : NodeId) : Prop :=
  ∀ n, v.shape p = some n → p ∈ busy ∨ n.isKeyed = false

/-- There are no books but those of loops with identities. -/
theorem kept_of_not_keyed (h : n.isKeyed = false) : v.Kept n := by
  intro data hdata hkeyed
  unfold RenderNode.isKeyed at h
  rw [hdata] at h
  exact absurd hkeyed (ne_true_of_eq_false h)

/-- The list of a loop stays right for as long as its children stay. -/
theorem Lists.later {instances : OrderedMap Key Instance} {children : List NodeId}
    (h : v.Lists instances children) (hlater : v.Later v')
    (hchildren : ∀ c ∈ children, v'.live c = true) : v'.Lists instances children := by
  have hiff (id : NodeId) (hid : id ∈ instances.nodes) : v.live id = v'.live id := by
    cases hlive : v.live id with
    | true =>
      refine (hchildren id ?_).symm
      rw [h.children_eq]
      exact List.mem_filter.2 ⟨hid, hlive⟩
    | false =>
      have hspent := (h.known id hid).resolve_left (ne_true_of_eq_false hlive)
      exact (live_of_spent (hlater.spent id hspent)).symm
  refine ⟨h.distinct, h.children_eq.trans (List.filter_congr hiff), fun id hid => ?_⟩
  rw [← hiff id hid]
  exact (h.known id hid).imp_right (hlater.spent id)

/-- The books of a loop stay right for as long as its children stay. -/
theorem Kept.later (h : v.Kept n) (hlater : v.Later v')
    (hchildren : ∀ c ∈ n.children, v'.live c = true) : v'.Kept n := by
  intro data hdata hkeyed
  obtain ⟨instances, hstate, hlists⟩ := h data hdata hkeyed
  refine ⟨instances, hstate, ?_⟩
  split
  · rename_i hempty
    rwa [if_pos hempty] at hlists
  · rename_i hempty
    rw [if_neg hempty] at hlists
    exact hlists.later hlater hchildren

/-- Children are there. -/
theorem live_of_child (ht : v.shape.Tree r) (hn : v.shape id = some n) {c : NodeId}
    (hc : c ∈ n.children) : v.live c = true :=
  live_iff.2 ⟨_, (ht.child id n c hn hc).choose_spec.1⟩

/-- What is left alone stays in order. -/
theorem Sound.kept (h : v.Sound busy) (hlater : v.Later v') (ht' : v'.shape.Tree r)
    (hn : v.shape x = some n) (hn' : v'.shape x = some n) (hx : x ∉ busy) : v'.Kept n :=
  (h x n hn hx).later hlater fun _ hc => live_of_child ht' hn' hc

/-- In a forest that has stayed the same, loops stay in order. -/
theorem Sound.later (h : v.Sound busy) (hlater : v.Later v') (ht : v.shape.Tree r)
    (hshape : v'.shape = v.shape) : v'.Sound busy := fun _ _ hn hx =>
  h.kept hlater (hshape ▸ ht) (hshape ▸ hn) hn hx

/-- Work on a loop begins. -/
theorem Sound.open (h : v.Sound busy) (id : NodeId) : v.Sound (id :: busy) := fun x n hn hx =>
  h x n hn fun hmem => hx (List.mem_cons_of_mem id hmem)

/-- Work on a loop ends when it is in order. -/
theorem Sound.close (h : v.Sound (id :: busy)) (hid : ∀ n, v.shape id = some n → v.Kept n) :
    v.Sound busy := by
  intro x n hn hx
  by_cases hxid : x = id
  · rw [hxid] at hn
    exact hid n hn
  · exact h x n hn fun hmem => (List.mem_cons.1 hmem).elim hxid hx

/-! ## Building -/

/-- Nodes were built under a node. -/
structure Grown (r p : NodeId) (v v' : View) : Prop where
  /-- What is gone stays gone. -/
  later : v.Later v'
  /-- The forest is a tree again. -/
  tree : v'.shape.Tree r
  /-- Nothing has changed but what is under the node. -/
  extends_children : ∃ new, v.shape.Extends v'.shape p new

/-- Nothing was built. -/
theorem Grown.refl (ht : v.shape.Tree r) (p : NodeId) : Grown r p v v :=
  ⟨.refl v, ht, [], .refl _ p⟩

/-- Building twice under one node. -/
theorem Grown.trans (h₁ : Grown r p v v₁) (h₂ : Grown r p v₁ v₂) : Grown r p v v₂ := by
  obtain ⟨new₁, hnew₁⟩ := h₁.extends_children
  obtain ⟨new₂, hnew₂⟩ := h₂.extends_children
  exact ⟨h₁.later.trans h₂.later, h₂.tree, _, hnew₁.trans hnew₂⟩

/-- A node that was there has become another one with the same place and data. -/
theorem Grown.node (h : Grown r p v v') (hn : v.shape x = some n) :
    ∃ n', v'.shape x = some n' ∧ n'.kind = n.kind ∧ n'.context = n.context ∧
      n'.parent = n.parent := by
  obtain ⟨new, hnew⟩ := h.extends_children
  exact ⟨_, hnew.old x n hn, rfl, rfl, rfl⟩

/-- Where children may be added, more may be added. -/
theorem Grown.free {q : NodeId} (h : Grown r q v v') (hp : v.live p = true)
    (hfree : v.Free busy p) : v'.Free busy p := by
  intro n' hn'
  obtain ⟨n, hn⟩ := live_iff.1 hp
  obtain ⟨m, hm, hkind, -⟩ := h.node hn
  rw [hn', Option.some.injEq] at hm
  rw [RenderNode.isKeyed, hm, hkind]
  exact hfree n hn

/-- An operation builds under a node. If it succeeds, all new loops are in order. -/
def Grows {α : Type} (p : NodeId) (v : View) (r : Except EngineError α) (v' : View) : Prop :=
  ∀ root, v.shape.Tree root → Grown root p v v' ∧
    ∀ busy a, r = .ok a → v.Free busy p → v.Sound busy → v'.Sound busy

/-! ## Updating -/

/-- A node and what is under it was changed. -/
structure Changed (r y : NodeId) (v v' : View) : Prop where
  /-- What is gone stays gone. -/
  later : v.Later v'
  /-- The forest is a tree again. -/
  tree : v'.shape.Tree r
  /-- Nothing else has changed. -/
  confined : v.shape.Confined v'.shape y

/-- Nothing was changed. -/
theorem Changed.refl (ht : v.shape.Tree r) (y : NodeId) : Changed r y v v :=
  ⟨.refl v, ht, .refl _ y⟩

/-- One change after another. -/
theorem Changed.trans (ht : v.shape.Tree r) (h₁ : Changed r y v v₁) (h₂ : Changed r y v₁ v₂) :
    Changed r y v v₂ :=
  ⟨h₁.later.trans h₂.later, h₂.tree, h₁.confined.trans h₂.confined ht⟩

/-- Building under a node changes what is under it. -/
theorem Grown.changed (h : Grown r p v v') : Changed r p v v' :=
  ⟨h.later, h.tree, h.extends_children.choose_spec.confined⟩

/-- A node that is there is there after it was changed. -/
theorem Changed.live (h : Changed r y v v') (hy : v.live y = true) : v'.live y = true := by
  obtain ⟨n, hn⟩ := live_iff.1 hy
  obtain ⟨n', hn', -⟩ := h.confined.self n hn
  exact live_iff.2 ⟨n', hn'⟩

/-- Loops outside of what was changed stay in order. -/
theorem Sound.changed {busy' : List NodeId} (h : v.Sound busy) (hchanged : Changed r y v v')
    (hbusy : ∀ x ∈ busy, x ≠ y → x ∈ busy')
    (hunder : ∀ x n', v'.shape x = some n' → x = y ∨ v'.shape.Above y x → x ∉ busy' → v'.Kept n') :
    v'.Sound busy' := by
  intro x n' hn' hx
  by_cases hxy : x = y ∨ v'.shape.Above y x
  · exact hunder x n' hn' hxy hx
  · -- a node that is not under the changed one was there before, as it is
    have hold : ¬∀ n, v.shape x = some n → v.shape.Above y x := fun hnew =>
      hxy (.inr (hchanged.confined.under x n' hn' hnew))
    obtain ⟨n, hn, hout⟩ : ∃ n, v.shape x = some n ∧ ¬v.shape.Above y x := by
      simpa only [Classical.not_forall, exists_prop] using hold
    have hsame := hchanged.confined.outside x n hn (fun heq => hxy (.inl heq)) hout
    rw [hn', Option.some.injEq] at hsame
    subst hsame
    exact h.kept hchanged.later hchanged.tree hn hn' fun hmem =>
      hx (hbusy x hmem fun heq => hxy (.inl heq))

/-- A mild change of a node is a change of the node. -/
theorem Changed.amend {f : RenderNode → RenderNode} (ht : v.shape.Tree r)
    (hf : ∀ n, v.shape y = some n → Forest.Mild n (f n)) (hlater : v.Later v')
    (hshape : v'.shape = v.shape.amend y f) : Changed r y v v' := by
  refine ⟨hlater, ?_, ?_⟩
  · rw [hshape]
    exact ht.amend hf
  · rw [hshape]
    exact Forest.confined_amend fun n hn => (hf n hn).parent

/-- Loops other than a node that was changed stay in order. -/
theorem Sound.amend {busy' : List NodeId} {f : RenderNode → RenderNode} (h : v.Sound busy)
    (hlater : v.Later v') (ht' : v'.shape.Tree r) (hshape : v'.shape = v.shape.amend id f)
    (hbusy : ∀ x ∈ busy, x ≠ id → x ∈ busy')
    (hid : ∀ n', v'.shape id = some n' → id ∉ busy' → v'.Kept n') : v'.Sound busy' := by
  intro x n' hn' hx
  by_cases hxid : x = id
  · rw [hxid] at hn' hx
    exact hid n' hn' hx
  · have hn : v.shape x = some n' := by
      rw [← hn', hshape, Forest.amend_of_ne f hxid]
    exact h.kept hlater ht' hn hn' fun hmem => hx (hbusy x hmem hxid)

/-! ## Taking away -/

/-- A loop from which a child was taken away lists what is left. -/
theorem Lists.uproot {instances : OrderedMap Key Instance} {c : NodeId}
    (h : v.Lists instances n.children) (ht : v.shape.Tree r) (hn : v.shape y = some n)
    (hc : v.shape.Parent y c) (hlater : v.Later v') (hshape : v'.shape = v.shape.uproot c) :
    v'.Lists instances (n.children.filter (· ≠ c)) := by
  -- a child that is left is not under the one that was taken away
  have hchild {x : NodeId} (hx : x ∈ n.children) : v'.live x = decide (x ≠ c) := by
    have hyx := ht.child y n x hn hx
    by_cases hxc : x = c
    · rw [live, hshape, Forest.uproot, Forest.cut_of (.inl hxc)]
      simp [hxc]
    · have hout : ¬(x = c ∨ v.shape.Above c x) := by
        rintro (h | h)
        · exact hxc h
        · rcases (Forest.above_iff_of_parent hyx).1 h with rfl | h
          · exact ht.above_irrefl (.single hc)
          · exact ht.above_asymm h (.single hc)
      rw [live, hshape, Forest.uproot, Forest.to_cut hout hyx.choose_spec.1]
      simp [hxc]
  refine ⟨h.distinct, ?_, fun id hid => ?_⟩
  · rw [h.children_eq, List.filter_filter]
    refine List.filter_congr fun x hx => ?_
    cases hlive : v.live x with
    | true =>
      have hmem : x ∈ n.children := by
        rw [h.children_eq]
        exact List.mem_filter.2 ⟨hx, hlive⟩
      rw [hchild hmem, Bool.and_true]
    | false =>
      have hspent := (h.known x hx).resolve_left (ne_true_of_eq_false hlive)
      rw [Bool.and_false, live_of_spent (hlater.spent x hspent)]
  · rcases h.known id hid with hlive | hspent
    · exact hlater.known id hlive
    · exact .inr (hlater.spent id hspent)

/-- A node that is left when a child of another one was taken away is as before. -/
theorem of_uproot {c : NodeId} {n' : RenderNode} (ht : v.shape.Tree r)
    (hc : v.shape.Parent y c) (hshape : v'.shape = v.shape.uproot c)
    (hn' : v'.shape x = some n') (hxy : x ≠ y) : v.shape x = some n' := by
  rw [hshape] at hn'
  obtain ⟨hx, n, hn, -⟩ := Forest.of_cut hn'
  have hsame := Forest.cut_eq_of_disjoint (D := fun x => x = c ∨ v.shape.Above c x) ht hn hx
    fun c' hc' hd => by
    rcases hd with rfl | hd
    · exact hxy (hc'.unique hc)
    · exact hx (((Forest.above_iff_of_parent hc').1 hd).imp Eq.symm fun h => h)
  rw [hn, ← hsame]
  exact hn'

/-- Loops stay in order when a node is taken away. -/
theorem Sound.uproot {c : NodeId} (h : v.Sound busy) (ht : v.shape.Tree r)
    (hc : v.shape.Parent y c) (hlater : v.Later v') (hshape : v'.shape = v.shape.uproot c) :
    v'.Sound busy := by
  have ht' : v'.shape.Tree r := hshape ▸ ht.uproot
  intro x n' hn' hx
  by_cases hxy : x = y
  · obtain ⟨n, hn, -⟩ := ht.parent_live hc
    rw [hxy] at hn' hx
    have hold := hn'
    rw [hshape, Forest.uproot_parent ht hc hn, Option.some.injEq] at hold
    subst hold
    intro data hdata hkeyed
    obtain ⟨instances, hstate, hlists⟩ := h y n hn hx data hdata hkeyed
    refine ⟨instances, hstate, ?_⟩
    split
    · rename_i hempty
      rwa [if_pos hempty] at hlists
    · rename_i hempty
      rw [if_neg hempty] at hlists
      exact hlists.uproot ht hn hc hlater hshape
  · exact h.kept hlater ht' (of_uproot ht hc hshape hn' hxy) hn' hx

/-- Taking away a child is a change of its parent. -/
theorem Changed.uproot {c : NodeId} (ht : v.shape.Tree r) (hc : v.shape.Parent y c)
    (hlater : v.Later v') (hshape : v'.shape = v.shape.uproot c) : Changed r y v v' := by
  refine ⟨hlater, hshape ▸ ht.uproot, ?_⟩
  rw [hshape]
  exact Forest.confined_uproot ht hc

/-- Taking away what is under a node is a change of the node. -/
theorem Changed.prune (ht : v.shape.Tree r) (hlater : v.Later v')
    (hshape : v'.shape = v.shape.prune y) : Changed r y v v' := by
  refine ⟨hlater, hshape ▸ ht.prune, ?_⟩
  rw [hshape]
  exact Forest.confined_prune ht

/-- Loops other than the node stay in order when what is under it is taken away. -/
theorem Sound.prune (h : v.Sound busy) (ht : v.shape.Tree r) (hlater : v.Later v')
    (hshape : v'.shape = v.shape.prune y) : v'.Sound (y :: busy) := by
  refine h.changed (.prune ht hlater hshape) (fun x hx _ => List.mem_cons_of_mem y hx) ?_
  rintro x n' hn' (rfl | ha) hx
  · exact absurd List.mem_cons_self hx
  · rw [hshape] at hn' ha
    obtain ⟨hout, -⟩ := Forest.of_cut hn'
    exact absurd ((Forest.above_cut Forest.closed_above hout).1 ha) hout

/-! ## Cursors -/

/-- A cursor stands under a live node, in a component instance that is the node or above it. -/
structure Admits (v : View) (c : Cursor) : Prop where
  /-- The node is there. -/
  parent : v.live c.parent = true
  /-- The component instance is the node or above it. -/
  ctx : c.ctx = c.parent ∨ v.shape.Above c.ctx c.parent
  /-- The context is a component instance. -/
  isContext : v.shape.IsContext c.ctx

/-- Cursors stay admitted while something is built. -/
theorem Admits.grown {q : NodeId} {c : Cursor} (h : v.Admits c) (hg : Grown r q v v') :
    v'.Admits c where
  parent := by
    obtain ⟨n, hn⟩ := live_iff.1 h.parent
    obtain ⟨n', hn', -⟩ := hg.node hn
    exact live_iff.2 ⟨n', hn'⟩
  ctx := h.ctx.imp_right hg.extends_children.choose_spec.above
  isContext := by
    obtain ⟨n, hn, hctx⟩ := h.isContext
    obtain ⟨n', hn', hkind, -⟩ := hg.node hn
    exact ⟨n', hn', by rwa [RenderNode.isContext, hkind]⟩

/-- The frame and the namespace of a cursor do not matter. -/
theorem Admits.congr {c c' : Cursor} (h : v.Admits c) (hparent : c'.parent = c.parent)
    (hctx : c'.ctx = c.ctx) : v.Admits c' := by
  obtain ⟨h₁, h₂, h₃⟩ := h
  rw [← hparent, ← hctx] at h₂
  exact ⟨hparent ▸ h₁, h₂, hctx ▸ h₃⟩

/-- What is under a node that is no component instance is built in the context of the node. -/
theorem admits_of_node (ht : v.shape.Tree r) (hn : v.shape id = some n)
    (hctx : n.isContext = false) (frame : Option FrameId) (ns : Namespace) :
    v.Admits ⟨id, n.context, frame, ns⟩ := by
  have hne : id ≠ r := by
    rintro rfl
    rw [(ht.root n hn).2.1] at hctx
    cases hctx
  obtain ⟨ha, hc⟩ := ht.contexts id n hn hne n.context List.mem_cons_self
  exact ⟨live_iff.2 ⟨n, hn⟩, .inr ha, hc⟩

/-- What a component instance is built from is built in itself. -/
theorem admits_of_context (hn : v.shape id = some n) (hctx : n.isContext = true)
    (frame : Option FrameId) (ns : Namespace) : v.Admits ⟨id, id, frame, ns⟩ :=
  ⟨live_iff.2 ⟨n, hn⟩, .inl rfl, n, hn, hctx⟩

/-- The content of a caller is built in the context of the caller. -/
theorem Admits.caller {c : Cursor} {data : ContextData} {slot : SlotBinding} (h : v.Admits c)
    (ht : v.shape.Tree r) (hn : v.shape c.ctx = some n) (hdata : n.kind.context? = some data)
    (hslot : data.slot = some slot) :
    v.Admits { c with ctx := slot.caller, frame := slot.frame } := by
  have hmem : slot.caller ∈ (n.kind.context?.bind (·.slot)).map (·.caller) := by
    rw [hdata, Option.bind_some, hslot, Option.map_some]
    rfl
  have hne : c.ctx ≠ r := by
    intro heq
    rw [heq] at hn
    have hrefs := (ht.root n hn).2.2
    unfold RenderNode.contexts at hrefs
    rw [List.cons_append, List.cons.injEq, List.append_eq_nil_iff] at hrefs
    rw [Option.mem_def.1 hmem] at hrefs
    cases hrefs.2.2
  have hrefs : slot.caller ∈ n.contexts :=
    List.mem_append_right _ (Option.mem_toList.2 hmem)
  obtain ⟨ha, hc⟩ := ht.contexts _ n hn hne _ hrefs
  refine ⟨h.parent, .inr ?_, hc⟩
  rcases h.ctx with heq | hctx
  · exact heq ▸ ha
  · exact .trans ha hctx

/-! ## Outcomes -/

section

variable {α β : Type} {r₁ : Except EngineError α}

/-- Nothing was built. -/
theorem Grows.refl (r₁ : Except EngineError α) (p : NodeId) (v : View) : v.Grows p r₁ v :=
  fun _ ht => ⟨.refl ht p, fun _ _ _ _ h => h⟩

/-- An operation that succeeded may be followed by one that may fail. -/
theorem Grows.trans {a : β} (h₁ : v.Grows p (.ok a) v₁) (h₂ : v₁.Grows p r₁ v₂)
    (hp : v.live p = true) : v.Grows p r₁ v₂ := by
  intro root ht
  obtain ⟨hg₁, hs₁⟩ := h₁ root ht
  obtain ⟨hg₂, hs₂⟩ := h₂ root hg₁.tree
  refine ⟨hg₁.trans hg₂, fun busy b hb hfree hsound => ?_⟩
  exact hs₂ busy b hb (hg₁.free hp hfree) (hs₁ busy a rfl hfree hsound)

/-- What a success has built, it has built whatever is made of it. -/
theorem Grows.of_ok {a : β} (h : v.Grows p (.ok a) v') : v.Grows p r₁ v' := fun root ht =>
  ⟨(h root ht).1, fun busy _ _ => (h root ht).2 busy a rfl⟩

/-- A failure has built something. -/
theorem Grows.of_error {err : EngineError} (h : v.Grows p (.error err : Except EngineError β) v') :
    v.Grows p (.error err : Except EngineError α) v' := fun root ht =>
  ⟨(h root ht).1, fun _ _ hok => by cases hok⟩

/-- An operation completes a node. If it succeeds, the node and all new loops are in order. -/
def Fills (id : NodeId) (v : View) (r₁ : Except EngineError α) (v' : View) : Prop :=
  ∀ root, v.shape.Tree root → v.live id = true → Changed root id v v' ∧
    ∀ busy a, r₁ = .ok a → v.Sound (id :: busy) → v'.Sound busy

/-- Building under a node completes it if it has no books. -/
theorem Grows.fills (h : v.Grows id r₁ v')
    (hid : ∀ n, v.shape id = some n → n.isKeyed = false) : v.Fills id r₁ v' := by
  intro root ht hlive
  obtain ⟨hg, hs⟩ := h root ht
  refine ⟨hg.changed, fun busy a ha hsound => ?_⟩
  refine (hs (id :: busy) a ha (fun n hn => .inr (hid n hn)) hsound).close fun n' hn' => ?_
  obtain ⟨n, hn⟩ := live_iff.1 hlive
  obtain ⟨m, hm, hkind, -⟩ := hg.node hn
  rw [hn', Option.some.injEq] at hm
  refine kept_of_not_keyed ?_
  rw [RenderNode.isKeyed, hm, hkind]
  exact hid n hn

/-- Building under a node and then completing it completes it. -/
theorem Grows.trans_fills {a : β} (h₁ : v.Grows id (.ok a) v₁) (h₂ : v₁.Fills id r₁ v₂) :
    v.Fills id r₁ v₂ := by
  intro root ht hlive
  obtain ⟨hg, hs₁⟩ := h₁ root ht
  obtain ⟨hc, hs₂⟩ := h₂ root hg.tree (hg.changed.live hlive)
  refine ⟨hg.changed.trans ht hc, fun busy b hb hsound => hs₂ busy b hb ?_⟩
  exact hs₁ (id :: busy) a rfl (fun _ _ => .inl List.mem_cons_self) hsound

/-- A node that was not completed because of a failure. -/
theorem Grows.fills_error {err : EngineError}
    (h : v.Grows id (.error err : Except EngineError β) v') :
    v.Fills id (.error err : Except EngineError α) v' := fun root ht _ =>
  ⟨(h root ht).1.changed, fun _ _ hok => by cases hok⟩

end

/-! ## New nodes -/

/-- A node was created at a cursor. -/
structure Allocated (c : Cursor) (kind : RenderKind) (id : NodeId) (v v' : View) : Prop where
  /-- The identity is new. -/
  fresh : v.shape id = none
  /-- What is gone stays gone. -/
  later : v.Later v'
  /-- The new node is the last child of the one at the cursor. -/
  shape_eq : v'.shape = v.shape.graft id (c.leaf kind) c.parent

/-- What a new node refers to is at the cursor or above it. -/
structure Fits (v : View) (c : Cursor) (kind : RenderKind) : Prop where
  /-- References point upwards, to component instances. -/
  contexts : ∀ x ∈ (c.leaf kind).contexts,
    (x = c.parent ∨ v.shape.Above x c.parent) ∧ v.shape.IsContext x
  /-- Variables are shared with those that have them. -/
  owns : ∀ data s, (c.leaf kind).kind.context? = some data → data.sharedWith = some s →
    v.shape.Owns s

/-- A node that is no component instance refers to its context only. -/
theorem Admits.fits {c : Cursor} (h : v.Admits c) {kind : RenderKind}
    (hkind : kind.skeleton.context? = none) : v.Fits c kind where
  contexts x hx := by
    unfold RenderNode.contexts Cursor.leaf at hx
    simp only [hkind, Option.bind_none, Option.map_none, Option.toList_none, List.append_nil,
      List.mem_singleton] at hx
    rw [hx]
    exact ⟨h.ctx, h.isContext⟩
  owns data s hdata _ := by
    exact absurd (hkind.symm.trans hdata) (Option.some_ne_none data).symm

namespace Allocated

variable {c : Cursor} {kind : RenderKind}

/-- The new node. -/
theorem node (h : Allocated c kind id v v') : v'.shape id = some (c.leaf kind) := by
  rw [h.shape_eq]
  exact Forest.graft_self

/-- The forest is a tree again. -/
theorem tree (h : Allocated c kind id v v') (ht : v.shape.Tree r) (hc : v.Admits c)
    (hfits : v.Fits c kind) : v'.shape.Tree r := by
  obtain ⟨np, hnp⟩ := live_iff.1 hc.parent
  have hroot : ∃ n, v.shape r = some n := by
    by_cases hpr : c.parent = r
    · exact ⟨np, hpr ▸ hnp⟩
    · exact ht.above_live (ht.root_above hnp hpr)
  rw [h.shape_eq]
  refine ht.graft h.fresh ?_ ⟨np, hnp⟩ rfl rfl hfits.contexts hfits.owns
  rintro rfl
  obtain ⟨n, hn⟩ := hroot
  rw [h.fresh] at hn
  cases hn

/-- Cursors stay admitted. -/
theorem grown (h : Allocated c kind id v v') (ht : v.shape.Tree r) (hc : v.Admits c)
    (hfits : v.Fits c kind) : Grown r c.parent v v' := by
  refine ⟨h.later, h.tree ht hc hfits, [id], ?_⟩
  rw [h.shape_eq]
  exact .graft h.fresh rfl

/-- All other loops are in order. -/
theorem sound (h : Allocated c kind id v v') (ht : v.shape.Tree r) (hc : v.Admits c)
    (hfits : v.Fits c kind) (hfree : v.Free busy c.parent) (hsound : v.Sound busy) :
    v'.Sound (id :: busy) := by
  have ht' := h.tree ht hc hfits
  intro x n' hn' hx
  obtain ⟨hxid, hx⟩ := not_or.1 fun hmem => hx (List.mem_cons.2 hmem)
  have hn'' := hn'
  rw [h.shape_eq] at hn''
  obtain ⟨rfl, -⟩ | ⟨-, n, hn, rfl⟩ := Forest.of_graft hn''
  · exact absurd rfl hxid
  · by_cases hxp : x = c.parent
    · refine kept_of_not_keyed ?_
      rw [hxp] at hn hx
      exact (hfree n hn).resolve_left hx
    · rw [if_neg hxp, List.append_nil] at hn' ⊢
      exact hsound.kept h.later ht' hn hn' hx

/-- A node that is created and completed was built. -/
theorem grows {α : Type} {r₁ : Except EngineError α} (h : Allocated c kind id v v₁)
    (hc : v.Admits c) (hfits : v.Fits c kind) (hfills : v₁.Fills id r₁ v₂) :
    v.Grows c.parent r₁ v₂ := by
  intro root ht
  have hg := h.grown ht hc hfits
  obtain ⟨hchanged, hsound⟩ := hfills root hg.tree (live_iff.2 ⟨_, h.node⟩)
  refine ⟨⟨h.later.trans hchanged.later, hchanged.tree, [id], ?_⟩, fun busy a ha hfree hs => ?_⟩
  · have hext : v.shape.Extends v₁.shape c.parent [id] := by
      rw [h.shape_eq]
      exact .graft h.fresh rfl
    exact hext.inside hchanged.confined h.fresh (.single ⟨_, h.node, rfl⟩) ht hg.tree
  · exact hsound busy a ha (h.sound ht hc hfits hfree hs)

end Allocated

end View
end ReactiveView
