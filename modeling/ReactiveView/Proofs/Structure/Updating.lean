import ReactiveView.Proofs.Structure.Building
import ReactiveView.Render.Update

/-!
# Updating keeps trees

What updating does to the view. A node that is updated stays in its place, and nothing changes but
the node and what is under it (`Render.updateNode_does`). Conditions, sets and loops without
identities are cleared and filled anew.

A loop with identities takes the list of its instances out of its books, removes the instances that
are not wanted, keeps or builds those that are, and puts its children into their order. While that
goes on, the list agrees with the children of the loop (`View.Working`); what was built is at the
end of the children, until the new order is in place (`View.Arranged`).
-/

namespace ReactiveView

/-! ## Instances -/

namespace OrderedMap

variable (old : OrderedMap Key Instance) (wanted : Key → Bool)

/-- The nodes of an instance are among those of all instances. -/
theorem mem_nodes {old : OrderedMap Key Instance} {key : Key} {kept : Instance} {c : NodeId}
    (h : (key, kept) ∈ old.entries) (hc : c ∈ kept.nodes) : c ∈ old.nodes :=
  List.mem_flatMap.2 ⟨kept, List.mem_map.2 ⟨_, h, rfl⟩, hc⟩

/-- A node of an instance is a node of an entry. -/
theorem exists_of_mem_nodes {old : OrderedMap Key Instance} {c : NodeId} (h : c ∈ old.nodes) :
    ∃ key kept, (key, kept) ∈ old.entries ∧ c ∈ kept.nodes := by
  obtain ⟨kept, hkept, hc⟩ := List.mem_flatMap.1 h
  obtain ⟨⟨key, _⟩, hentry, rfl⟩ := List.mem_map.1 hkept
  exact ⟨key, _, hentry, hc⟩

/-- Some of the instances have different keys if all have. -/
theorem Distinct.those {old : OrderedMap Key Instance} (h : old.Distinct) :
    (old.filter fun key _ => wanted key).Distinct :=
  List.Nodup.sublist (List.Sublist.map _ List.filter_sublist) h

/-- If all nodes of the other instances are gone, what is left is that of the wanted ones. -/
theorem nodes_those (alive : NodeId → Bool) (h : ∀ key kept, (key, kept) ∈ old.entries →
    wanted key = false → ∀ c ∈ kept.nodes, alive c = false) :
    (old.filter fun key _ => wanted key).nodes.filter alive = old.nodes.filter alive := by
  obtain ⟨entries⟩ := old
  unfold nodes values filter
  dsimp only at h ⊢
  induction entries with
  | nil => rfl
  | cons entry entries ih =>
    obtain ⟨key, kept⟩ := entry
    have hrest := ih fun key kept hmem => h key kept (List.mem_cons_of_mem _ hmem)
    rw [List.map_cons, List.flatMap_cons, List.filter_append]
    cases hw : wanted key with
    | true =>
      rw [List.filter_cons_of_pos (p := fun entry : Key × Instance => wanted entry.1) hw,
        List.map_cons, List.flatMap_cons, List.filter_append, hrest]
    | false =>
      have hnone : kept.nodes.filter alive = [] := List.filter_eq_nil_iff.2 fun c hc =>
        ne_true_of_eq_false (h key kept List.mem_cons_self hw c hc)
      rw [List.filter_cons_of_neg (p := fun entry : Key × Instance => wanted entry.1)
        (ne_true_of_eq_false hw), hnone, List.nil_append, hrest]

/-- Looking keys up that differ from each other gives the entries with these keys. -/
theorem filterMap_get?_perm {old : OrderedMap Key Instance} {keys : List Key} (hold : old.Distinct)
    (hkeys : keys.Nodup) (hwanted : ∀ key, wanted key = true ↔ key ∈ keys) :
    ((keys.filterMap old.get?).flatMap (·.nodes)).Perm
      (old.filter fun key _ => wanted key).nodes := by
  let found (key : Key) : Option (Key × Instance) := (old.get? key).map fun kept => (key, kept)
  have hfound {key : Key} {entry : Key × Instance} (h : entry ∈ found key) : entry.1 = key := by
    obtain ⟨kept, -, rfl⟩ := Option.map_eq_some_iff.1 h
    rfl
  have hentries : (keys.filterMap found).Perm (old.entries.filter fun entry => wanted entry.1) := by
    refine (List.perm_ext_iff_of_nodup ?_ ?_).2 fun entry => ?_
    · exact hkeys.filterMap fun a b entry ha hb => (hfound ha).symm.trans (hfound hb)
    · exact (List.Nodup.of_map _ hold).filter _
    · rw [List.mem_filterMap, List.mem_filter]
      constructor
      · rintro ⟨key, hkey, h⟩
        obtain ⟨kept, hget, rfl⟩ := Option.map_eq_some_iff.1 h
        exact ⟨mem_of_find? hget, (hwanted key).2 hkey⟩
      · rintro ⟨hentry, hkey⟩
        refine ⟨entry.1, (hwanted _).1 hkey, ?_⟩
        have hget : old.get? entry.1 = some entry.2 := find?_of_mem hold hentry
        change (old.get? entry.1).map _ = _
        rw [hget, Option.map_some]
  have hvalues : keys.filterMap old.get? = (keys.filterMap found).map (·.2) := by
    rw [List.map_filterMap]
    refine List.filterMap_congr fun key _ => ?_
    change old.get? key = ((old.get? key).map _).map _
    rw [Option.map_map]
    exact Option.map_id'.symm
  rw [hvalues]
  exact (hentries.map _).flatMap_right _

end OrderedMap

/-! ## Updates -/

/-- A node is a loop that builds at a cursor. -/
structure RenderNode.Repeats (n : RenderNode) (spec : LoopSpec) (c : Cursor) : Prop where
  /-- What is repeated. -/
  data : ∃ data, n.kind = .loop data ∧ data.spec = spec
  /-- The context of the node. -/
  context : n.context = c.ctx

/-- A loop is no component instance. -/
theorem RenderNode.Repeats.isContext {n : RenderNode} {spec : LoopSpec} {c : Cursor}
    (h : n.Repeats spec c) : n.isContext = false := by
  obtain ⟨data, hdata, -⟩ := h.data
  unfold RenderNode.isContext
  rw [hdata]
  rfl

namespace View

variable {v v' v₁ : View} {r y id : NodeId} {busy : List NodeId}

/-- An update of a node. It has to leave order only if it succeeds. -/
def Updates {α : Type} (y : NodeId) (v : View) (r : Except EngineError α) (v' : View) : Prop :=
  ∀ a, r = .ok a → (v.live y = false → v' = v) ∧
    ∀ root busy, v.shape.Tree root → v.live y = true → v.Sound busy →
      (∀ b ∈ busy, v.shape.Above b y) → Changed root y v v' ∧ v'.Sound busy

/-- An update that changes nothing. -/
theorem Updates.refl {α : Type} (r : Except EngineError α) (y : NodeId) (v : View) :
    v.Updates y r v :=
  fun _ _ => ⟨fun _ => rfl, fun _ _ ht _ hsound _ => ⟨.refl ht y, hsound⟩⟩

/-- A failed update is not asked for anything. -/
theorem Updates.error {α : Type} (err : EngineError) (y : NodeId) (v v' : View) :
    v.Updates y (.error err : Except EngineError α) v' := fun _ h => by cases h

/-- A loop is being brought in line with its items: its books are taken out, and list what is left of
the instances. -/
structure Working (v : View) (root : NodeId) (c : Cursor) (busy : List NodeId) (spec : LoopSpec)
    (instances : OrderedMap Key Instance) : Prop where
  /-- The forest is a tree. -/
  tree : v.shape.Tree root
  /-- The other loops are in order. -/
  sound : v.Sound (c.parent :: busy)
  /-- Work on the loops above goes on. -/
  above : ∀ b ∈ busy, v.shape.Above b c.parent
  /-- The list agrees with the children of the loop. -/
  node : ∃ n, v.shape c.parent = some n ∧ n.Repeats spec c ∧ v.Lists instances n.children

/-- The instances of a loop are all there, but not yet in their order. -/
structure Arranged (v : View) (root : NodeId) (c : Cursor) (busy : List NodeId) (spec : LoopSpec)
    (instances : OrderedMap Key Instance) : Prop where
  /-- The forest is a tree. -/
  tree : v.shape.Tree root
  /-- The other loops are in order. -/
  sound : v.Sound (c.parent :: busy)
  /-- Work on the loops above goes on. -/
  above : ∀ b ∈ busy, v.shape.Above b c.parent
  /-- The children of the loop are those of the list, in another order. -/
  node : ∃ n, v.shape c.parent = some n ∧ n.Repeats spec c ∧ instances.Distinct ∧
    n.children.Perm (instances.nodes.filter v.live) ∧
      ∀ x ∈ instances.nodes, v.live x = true ∨ v.spent x

/-- The instances of keys are kept or built, the new ones at the end of the children. -/
def Arranges (c : Cursor) (old : OrderedMap Key Instance) (keys : List Key) (v : View)
    (arranged : List (Key × Instance)) (v' : View) : Prop :=
  ∀ root busy n, v.shape.Tree root → v.shape c.parent = some n → v.Sound (c.parent :: busy) →
    (∀ b ∈ busy, v.shape.Above b c.parent) → n.isContext = false → n.context = c.ctx →
      (∀ key ∈ keys, ∀ kept, old.get? key = some kept →
        ∀ x ∈ kept.nodes, x ∈ n.children ∨ v.spent x) →
        Changed root c.parent v v' ∧ v'.Sound (c.parent :: busy) ∧ arranged.map (·.1) = keys ∧
          ∃ built, v'.shape c.parent = some { n with children := n.children ++ built } ∧
            (arranged.flatMap (·.2.nodes)).Perm
              ((keys.filterMap old.get?).flatMap (·.nodes) ++ built)

/-- What is above a node stays above it when the node is changed. -/
theorem Changed.above (h : Changed r y v v') (ht : v.shape.Tree r) (hy : v.live y = true)
    {a : NodeId} (ha : v.shape.Above a y) : v'.shape.Above a y :=
  (h.confined.above_iff ht (live_iff.1 hy).choose_spec ht.above_irrefl).2 ha

/-- Keeping an instance, and arranging the others. -/
theorem Arranges.cons_kept {c : Cursor} {old : OrderedMap Key Instance} {key : Key} {kept : Instance}
    {keys : List Key} {arranged : List (Key × Instance)} (hkept : old.get? key = some kept)
    (hkeep : ∀ root busy n, v.shape.Tree root → v.shape c.parent = some n → v.Sound busy →
      (∀ b ∈ busy, b = c.parent ∨ v.shape.Above b c.parent) →
      (∀ x ∈ kept.nodes, x ∈ n.children ∨ v.spent x) →
        Changed root c.parent v v₁ ∧ v₁.Sound busy ∧ v₁.shape c.parent = some n)
    (hrest : v₁.Arranges c old keys arranged v') :
    v.Arranges c old (key :: keys) ((key, kept) :: arranged) v' := by
  intro root busy n ht hn hsound hbusy hno hctx hold
  obtain ⟨hchanged, hsound₁, hn₁⟩ := hkeep root (c.parent :: busy) n ht hn hsound
    (fun b hb => (List.mem_cons.1 hb).imp_right (hbusy b)) (hold key List.mem_cons_self kept hkept)
  have hlive : v.live c.parent = true := live_iff.2 ⟨n, hn⟩
  obtain ⟨hchanged', hsound', hkeys, built, hn', hperm⟩ := hrest root busy n hchanged.tree hn₁
    hsound₁ (fun b hb => hchanged.above ht hlive (hbusy b hb)) hno hctx
    fun key' hkey' kept' hkept' x hx => (hold key' (List.mem_cons_of_mem key hkey') kept' hkept'
      x hx).imp_right (hchanged.later.spent x)
  refine ⟨hchanged.trans ht hchanged', hsound', ?_, built, hn', ?_⟩
  · rw [List.map_cons, hkeys]
  · rw [List.filterMap_cons_some hkept, List.flatMap_cons, List.flatMap_cons, List.append_assoc]
    exact hperm.append_left kept.nodes

/-- Building an instance for a key that had none, and arranging the others. -/
theorem Arranges.cons_built {c : Cursor} {old : OrderedMap Key Instance} {key : Key}
    {first : Instance} {keys : List Key} {arranged : List (Key × Instance)}
    (hnone : old.get? key = none)
    (hbuild : ∀ root busy n, v.shape.Tree root → v.shape c.parent = some n →
      v.Sound (c.parent :: busy) → v.Admits c → Grown root c.parent v v₁ ∧
        v₁.Sound (c.parent :: busy) ∧
          v₁.shape c.parent = some { n with children := n.children ++ first.nodes })
    (hrest : v₁.Arranges c old keys arranged v') :
    v.Arranges c old (key :: keys) ((key, first) :: arranged) v' := by
  intro root busy n ht hn hsound hbusy hno hctx hold
  have hc : v.Admits c := (admits_of_node ht hn hno c.frame c.ns).congr rfl hctx.symm
  obtain ⟨hg, hsound₁, hn₁⟩ := hbuild root busy n ht hn hsound hc
  have hlive : v.live c.parent = true := live_iff.2 ⟨n, hn⟩
  have hchanged := hg.changed
  obtain ⟨hchanged', hsound', hkeys, built, hn', hperm⟩ := hrest root busy _ hg.tree hn₁
    hsound₁ (fun b hb => hchanged.above ht hlive (hbusy b hb)) hno hctx
    fun key' hkey' kept' hkept' x hx => (hold key' (List.mem_cons_of_mem key hkey') kept' hkept'
      x hx).imp (List.mem_append_left _) (hchanged.later.spent x)
  refine ⟨hchanged.trans ht hchanged', hsound', ?_, first.nodes ++ built, ?_, ?_⟩
  · rw [List.map_cons, hkeys]
  · rw [hn', List.append_assoc]
  · -- what is new comes first in its row, and last among the children
    rw [List.filterMap_cons_none hnone, List.flatMap_cons]
    have hfront := hperm.append_left first.nodes
    rw [← List.append_assoc] at hfront ⊢
    exact hfront.trans (.append_right built List.perm_append_comm)

/-- The nodes of the instances that are left are children of the loop, or gone for good. -/
theorem Working.ready {c : Cursor} {spec : LoopSpec} {old : OrderedMap Key Instance}
    {wanted : Key → Bool} {keys : List Key}
    (hw : v.Working r c busy spec (old.filter fun key _ => wanted key))
    (hwanted : ∀ key, wanted key = true ↔ key ∈ keys) : ∃ n, v.shape c.parent = some n ∧
      n.Repeats spec c ∧ v.Lists (old.filter fun key _ => wanted key) n.children ∧
        ∀ key ∈ keys, ∀ kept, old.get? key = some kept →
          ∀ x ∈ kept.nodes, x ∈ n.children ∨ v.spent x := by
  obtain ⟨n, hn, hloop, hlists⟩ := hw.node
  refine ⟨n, hn, hloop, hlists, fun key hkey kept hkept x hx => ?_⟩
  have hmem : x ∈ (old.filter fun key _ => wanted key).nodes :=
    OrderedMap.mem_nodes (List.mem_filter.2 ⟨OrderedMap.mem_of_find? hkept, (hwanted key).2 hkey⟩) hx
  refine (hlists.known x hmem).imp_left fun hlive => ?_
  rw [hlists.children_eq]
  exact List.mem_filter.2 ⟨hmem, hlive⟩

/-- What was there before, and what was built for it, is all there is after the instances were
arranged. -/
theorem Working.arranged {c : Cursor} {spec : LoopSpec} {old : OrderedMap Key Instance}
    {wanted : Key → Bool} {keys : List Key} {arranged : List (Key × Instance)}
    (hw : v.Working r c busy spec (old.filter fun key _ => wanted key)) (hold : old.Distinct)
    (hkeys : keys.Nodup) (hwanted : ∀ key, wanted key = true ↔ key ∈ keys)
    (h : v.Arranges c old keys arranged v') :
    Changed r c.parent v v' ∧ v'.Arranged r c busy spec ⟨arranged⟩ := by
  obtain ⟨n, hn, hloop, hlists, hknown⟩ := hw.ready hwanted
  obtain ⟨hchanged, hsound, hsame, built, hn', hperm⟩ :=
    h r busy n hw.tree hn hw.sound hw.above hloop.isContext hloop.context hknown
  have hall : (OrderedMap.nodes ⟨arranged⟩).Perm
      ((old.filter fun key _ => wanted key).nodes ++ built) := by
    have hnodes : OrderedMap.nodes ⟨arranged⟩ = arranged.flatMap (·.2.nodes) := List.flatMap_map ..
    rw [hnodes]
    exact hperm.trans (.append_right built (OrderedMap.filterMap_get?_perm wanted hold hkeys hwanted))
  have hlive (x : NodeId) (hx : x ∈ n.children ++ built) : v'.live x = true :=
    live_of_child hchanged.tree hn' hx
  have hlists' := hlists.later hchanged.later fun x hx => hlive x (List.mem_append_left built hx)
  refine ⟨hchanged, hchanged.tree, hsound, fun b hb => ?_, _, hn', ⟨hloop.data, hloop.context⟩, ?_,
    ?_, fun x hx => ?_⟩
  · exact (hchanged.confined.above_iff hw.tree hn hw.tree.above_irrefl).2 (hw.above b hb)
  · unfold OrderedMap.Distinct OrderedMap.keys
    rwa [hsame]
  · refine .trans ?_ (hall.filter v'.live).symm
    rw [List.filter_append, ← hlists'.children_eq,
      List.filter_eq_self.2 fun x hx => hlive x (List.mem_append_right n.children hx)]
  · rcases List.mem_append.1 (hall.mem_iff.1 hx) with hx | hx
    · exact hlists'.known x hx
    · exact .inl (hlive x (List.mem_append_right n.children hx))

/-- The root stays when a node is changed. -/
theorem Changed.live_root (h : Changed r y v v') (ht : v.shape.Tree r) (hy : v.live y = true) :
    v'.live r = v.live r := by
  obtain ⟨n, hn⟩ := live_iff.1 hy
  have hroot : ∃ n, v.shape r = some n := by
    by_cases hyr : y = r
    · exact ⟨n, hyr ▸ hn⟩
    · exact ht.above_live (ht.root_above hn hyr)
  obtain ⟨m, hm⟩ := hroot
  obtain ⟨m', hm', -⟩ := h.confined.live hm ht.not_above_root
  rw [live_iff.2 ⟨m, hm⟩, live_iff.2 ⟨m', hm'⟩]

/-- A change that keeps a tree with its books, and its root. -/
def Settles (v v' : View) : Prop :=
  ∀ root, v.shape.Tree root → v.Sound [] →
    v'.shape.Tree root ∧ v'.Sound [] ∧ v'.live root = v.live root

/-- No change. -/
theorem Settles.refl (v : View) : v.Settles v := fun _ ht hsound => ⟨ht, hsound, rfl⟩

/-- One change after another. -/
theorem Settles.trans (h₁ : v.Settles v₁) (h₂ : v₁.Settles v') : v.Settles v' := by
  intro root ht hsound
  obtain ⟨ht₁, hsound₁, hroot₁⟩ := h₁ root ht hsound
  obtain ⟨ht', hsound', hroot'⟩ := h₂ root ht₁ hsound₁
  exact ⟨ht', hsound', hroot'.trans hroot₁⟩

/-- Updating a node keeps a tree. -/
theorem Updates.settles {α : Type} {res : Except EngineError α} (h : v.Updates y res v') {a : α}
    (ha : res = .ok a) : v.Settles v' := by
  intro root ht hsound
  obtain ⟨hdead, hlive⟩ := h a ha
  cases hy : v.live y with
  | false =>
    rw [hdead hy]
    exact ⟨ht, hsound, rfl⟩
  | true =>
    obtain ⟨hchanged, hsound'⟩ := hlive root [] ht hy hsound fun _ hb => (List.not_mem_nil hb).elim
    exact ⟨hchanged.tree, hsound', hchanged.live_root ht hy⟩

/-- Building what a component instance shows keeps a tree. -/
theorem Grows.settles {α : Type} {res : Except EngineError α} (h : v.Grows y res v') {a : α}
    (ha : res = .ok a) (hctx : v.shape.IsContext y) : v.Settles v' := by
  intro root ht hsound
  obtain ⟨n, hn, hn'⟩ := hctx
  obtain ⟨hg, hs⟩ := h root ht
  refine ⟨hg.tree, hs [] a ha (fun m hm => .inr ?_) hsound, ?_⟩
  · obtain rfl : m = n := Option.some.inj (hm.symm.trans hn)
    exact RenderNode.isKeyed_of_isContext hn'
  · exact hg.changed.live_root ht (live_iff.2 ⟨n, hn⟩)

end View

/-- What updating needs of the operations that are entered anew. -/
structure Reentry.Grounded (re : Reentry) : Prop extends re.Builds where
  /-- Updating changes the node and what is under it. -/
  update : ∀ id, (re.update id).Does fun v r v' => v.Updates id r v'

namespace Render

open Act

variable {re : Reentry}

section

variable (hre : re.Grounded)
include hre

/-! ## Children -/

/-- Updating children of a node, and nodes that are gone. -/
theorem updateAll_does (id : NodeId) (cs : List NodeId) :
    Act.Ensures (cs.forM re.update) fun v _ v' => ∀ root busy n,
      v.shape.Tree root → v.shape id = some n → v.Sound busy →
      (∀ b ∈ busy, b = id ∨ v.shape.Above b id) → (∀ c ∈ cs, c ∈ n.children ∨ v.spent c) →
        View.Changed root id v v' ∧ v'.Sound busy ∧ v'.shape id = some n := by
  induction cs with
  | nil =>
    exact does_pure fun v _ _ root busy n ht hn hsound _ _ => ⟨.refl ht id, hsound, hn⟩
  | cons c cs ih =>
    refine does_bind (hre.update c) (fun _ => ih) ?_ fun v err v' _ a h => by cases h
    intro v a v₁ r v' hfirst hrest a' ha' root busy n ht hn hsound hbusy hcs
    obtain ⟨hdead, hlive⟩ := hfirst a rfl
    have hcs' (c' : NodeId) (hc' : c' ∈ cs) := hcs c' (List.mem_cons_of_mem c hc')
    rcases hcs c List.mem_cons_self with hc | hspent
    · have hparent : v.shape.Parent id c := ht.child id n c hn hc
      obtain ⟨hchanged, hsound₁⟩ := hlive root busy ht (View.live_of_child ht hn hc) hsound
        fun b hb => by
          rcases hbusy b hb with rfl | ha
          · exact .single hparent
          · exact .tail ha hparent
      obtain ⟨hconfined, hsame⟩ := hchanged.confined.of_child ht hparent
      have hchanged : View.Changed root id v v₁ := ⟨hchanged.later, hchanged.tree, hconfined⟩
      obtain ⟨hchanged', hsound', hn'⟩ := hrest a' ha' root busy n hchanged.tree (hsame.trans hn)
        hsound₁ (fun b hb => (hbusy b hb).imp_right
          (hchanged.above ht (View.live_iff.2 ⟨n, hn⟩)))
        (fun c' hc' => (hcs' c' hc').imp_right (hchanged.later.spent c'))
      exact ⟨hchanged.trans ht hchanged', hsound', hn'⟩
    · obtain rfl := hdead (View.live_of_spent hspent)
      exact hrest a' ha' root busy n ht hn hsound hbusy hcs'

/-- Updating everything under a node. -/
theorem updateChildren_does (id : NodeId) :
    (updateChildren re id).Does fun v r v' => v.Updates id r v' := by
  refine does_bind_read fun e => ?_
  cases hlive : e.contains id with
  | false =>
    have hnone : e.node? id = none := by
      unfold Engine.contains Arena.contains at hlive
      exact Option.isNone_iff_eq_none.1 (Option.isSome_eq_false_iff.1 hlive)
    have hchildren : e.childrenOf id = [] := by
      unfold Engine.childrenOf
      rw [hnone]
      rfl
    rw [hchildren]
    exact does_pure fun v _ => .refl _ id v
  | true =>
    refine (updateAll_does hre id (e.childrenOf id)).mono fun v r v' h hview a ha => ?_
    rw [← Engine.live_view, ← hview] at hlive
    refine ⟨fun hdead => absurd (hlive.symm.trans hdead) (by decide),
      fun root busy ht _ hsound habove => ?_⟩
    obtain ⟨n, hn⟩ := View.live_iff.1 hlive
    have hchildren : e.childrenOf id = n.children := Engine.childrenOf_view (hview ▸ hn)
    obtain ⟨hchanged, hsound', -⟩ := h a ha root busy n ht hn hsound
      (fun b hb => .inr (habove b hb)) fun c hc => .inl (hchildren ▸ hc)
    exact ⟨hchanged, hsound'⟩

/-- Updating what is under a node, if that is asked for. -/
theorem descend_does (id : NodeId) (recursive : Bool) :
    Act.Does (if recursive then updateChildren re id else pure ()) fun v r v' =>
      v.Updates id r v' := by
  split
  · exact updateChildren_does hre id
  · exact does_pure fun v => .refl _ id v

/-! ## Filling anew -/

omit hre in
/-- Removing what is under a node. -/
theorem clearChildren_does (id : NodeId) : (change (·.clearChildren id)).Does fun v _ v' =>
    ∀ root, v.shape.Tree root → v.Later v' ∧ v'.shape = v.shape.prune id :=
  does_change (fun _ _ h he => h.closed.clearChildren id he) fun _ hvalid hlater _ ht =>
    ⟨hlater, Engine.shape_clearChildren hvalid ht⟩

omit hre in
/-- Clearing a node and completing it anew. -/
theorem clear_bind_does {id : NodeId} {x : Act Unit} (kind : RenderKind)
    (hx : x.Does fun v r v' => ∀ n, v.shape id = some n → n.kind = kind → n.children = [] →
      v.Fills id r v') : Act.Does (do
        change (·.clearChildren id)
        x) fun v r v' => (∃ n, v.shape id = some n ∧ n.kind = kind) → v.Updates id r v' := by
  refine does_bind (clearChildren_does id) (fun _ => hx) ?_ fun v err v' _ _ => .error err id v v'
  rintro v - v₁ r v' hcleared hfills ⟨n, hn, hkind⟩ a ha
  refine ⟨fun hdead => ?_, fun root busy ht hlive hsound habove => ?_⟩
  · rw [View.live, hn] at hdead
    cases hdead
  · obtain ⟨hlater, hshape⟩ := hcleared root ht
    have hpruned := View.Changed.prune ht hlater hshape
    have hn₁ : v₁.shape id = some { n with children := [] } := by
      rw [hshape, Forest.prune_self ht hn]
    obtain ⟨hfilled, hsound'⟩ := hfills _ hn₁ hkind rfl root hpruned.tree (hpruned.live hlive)
    exact ⟨hpruned.trans ht hfilled, hsound' busy a ha (hsound.prune ht hlater hshape)⟩

/-- Updating a loop without identities. -/
theorem updatePlain_does (id : NodeId) (items : List Value) (recursive : Bool) :
    (updatePlain re id items recursive).Does fun v r v' => v.Updates id r v' := by
  refine does_bind_read fun e => ?_
  split
  · exact does_pure fun v _ => .refl _ id v
  rename_i n hn
  split
  · have hupdate := (descend_does hre id recursive).mono fun v r v' h (_ : v = e.view) => h
    have hfill : Act.Does (do
        change (·.clearChildren id)
        fillLoop re id items) fun v r v' => v = e.view → v.Updates id r v' := by
      refine (clear_bind_does n.shape.kind
        ((fillLoop_does hre.toBuilds id items).mono fun v r v' h n hn _ hleaf => ?_)).mono
        fun v r v' h hview => h ⟨n.shape, hview ▸ Engine.view_of_node? hn, rfl⟩
      refine h fun n' hn' => ?_
      rw [hn, Option.some.injEq] at hn'
      rwa [← hn']
    exact does_ite hupdate hfill
  · exact does_pure fun v _ => .refl _ id v

/-! ## Loops with identities -/

omit hre in
/-- Without the nodes of an empty case, the list of the instances of a loop agrees with its children. -/
theorem lists_of_cleared {e e₁ : Engine} {root id : NodeId} {busy : List NodeId} {n : RenderNode}
    {showing : Bool} {instances : OrderedMap Key Instance}
    (he₁ : e₁ = if showing then e.clearChildren id else e) (hvalid : e.nodes.Valid)
    (ht : e.view.shape.Tree root) (hn : e.view.shape id = some n) (hsound : e.view.Sound busy)
    (hlists : if showing then instances = .empty else e.view.Lists instances n.children) :
    e₁.nodes.Valid ∧ View.Changed root id e.view e₁.view ∧ e₁.view.Sound (id :: busy) ∧
      ∃ children, e₁.view.shape id = some { n with children := children } ∧
        e₁.view.Lists instances children := by
  subst he₁
  cases showing with
  | true =>
    rw [if_pos rfl] at hlists ⊢
    have hcleared : e.view.Later (e.clearChildren id).view :=
      Engine.Operates.later (fun I h he => h.closed.clearChildren id he) hvalid
    have hshape : (e.clearChildren id).view.shape = e.view.shape.prune id :=
      Engine.shape_clearChildren hvalid ht
    refine ⟨Engine.valid_stable.closed.clearChildren id hvalid, .prune ht hcleared hshape,
      hsound.prune ht hcleared hshape, [], ?_, ?_⟩
    · rw [hshape, Forest.prune_self ht hn]
    · rw [hlists]
      exact ⟨List.nodup_nil, rfl, fun _ hmem => (List.not_mem_nil hmem).elim⟩
  | false =>
    rw [if_neg nofun] at hlists ⊢
    exact ⟨hvalid, .refl ht _, hsound.open _, n.children, hn, hlists⟩

omit hre in
/-- What is taken out of a loop with identities. -/
theorem takeInstances_eq {e : Engine} {id : NodeId} {n : RenderNode} {data : LoopData}
    {old : OrderedMap Key Instance} (hn : e.node? id = some n)
    (hkind : n.kind = .loop data) (hstate : data.state = .keyed old) :
    e.takeInstances id = (old,
      (if data.showingEmpty then e.clearChildren id else e).modifyKind id fun _ =>
        .loop { data with state := .unbuilt, showingEmpty := false }) := by
  unfold Engine.takeInstances
  rw [hn, Option.map_some, hkind]
  dsimp only
  rw [hstate]

omit hre in
/-- Taking the instances out of a loop. -/
theorem takeInstances_does (spec : LoopSpec) (c : Cursor) :
    (step (·.takeInstances c.parent)).Ensures fun v old v' => ∀ root busy n, v.shape.Tree root →
      v.shape c.parent = some n → n.Repeats spec c → n.isKeyed = true → v.Sound busy →
        (∀ b ∈ busy, v.shape.Above b c.parent) →
          View.Changed root c.parent v v' ∧ v'.Working root c busy spec old := by
  refine does_step (fun e I h he => h.closed.takeInstances c.parent he) ?_
  intro e hvalid _ hlater old hold root busy n ht hn hloop hkeyed hsound habove
  obtain rfl := Except.ok.inj hold
  obtain ⟨data, hdata, hspec⟩ := hloop.data
  have hkeyed : data.isKeyed = true := by
    unfold RenderNode.isKeyed at hkeyed
    rwa [hdata] at hkeyed
  -- the loop is not yet being worked on, so its books are in order
  have hid : c.parent ∉ busy := fun hmem => ht.above_irrefl (habove c.parent hmem)
  obtain ⟨instances, hstate, hlists⟩ := hsound c.parent n hn hid data hdata hkeyed
  obtain ⟨m, hm, rfl⟩ := Engine.node?_of_shape hn
  have hkind : m.kind = .loop data := by
    unfold RenderNode.shape RenderNode.skeleton at hdata
    cases hkind : m.kind with
    | loop data' =>
      rw [hkind] at hdata
      exact hdata
    | _ =>
      rw [hkind] at hdata
      cases hdata
  let f : RenderKind → RenderKind := fun _ =>
    .loop { data with state := .unbuilt, showingEmpty := false }
  let e₁ := if data.showingEmpty then e.clearChildren c.parent else e
  have htaken : e.takeInstances c.parent = (instances, e₁.modifyKind c.parent f) :=
    takeInstances_eq hm hkind hstate
  have he₁ : e₁ = if data.showingEmpty then e.clearChildren c.parent else e := rfl
  obtain ⟨hvalid₁, hchanged₁, hsound₁, children, hn₁, hlists₁⟩ :=
    lists_of_cleared he₁ hvalid ht hn hsound hlists
  have hlater₂ : e₁.view.Later (e₁.modifyKind c.parent f).view :=
    Engine.Operates.later (fun I h he => h.modifyKind c.parent f he) hvalid₁
  have hshape₂ : (e₁.modifyKind c.parent f).view.shape = e₁.view.shape.amend c.parent fun n =>
      { n with kind := f n.kind } := Engine.shape_modifyNode fun _ _ => rfl
  have hmild (n' : RenderNode) (hn' : e₁.view.shape c.parent = some n') :
      Forest.Mild n' { n' with kind := f n'.kind } := by
    rw [hn₁, Option.some.injEq] at hn'
    refine ⟨rfl, rfl, ?_, .refl _⟩
    rw [← hn', hdata]
    rfl
  have hchanged₂ := View.Changed.amend hchanged₁.tree hmild hlater₂ hshape₂
  have hn₂ : (e₁.modifyKind c.parent f).view.shape c.parent =
      some { m.shape with kind := f m.shape.kind, children := children } := by
    rw [hshape₂, Forest.amend_self, hn₁, Option.map_some]
  rw [htaken]
  refine ⟨hchanged₁.trans ht hchanged₂, hchanged₂.tree, ?_, fun b hb => ?_, ?_⟩
  · exact hsound₁.amend hlater₂ hchanged₂.tree hshape₂ (fun x hx _ => hx) fun n' _ hout =>
      absurd List.mem_cons_self hout
  · have hlive : e.view.live c.parent = true := View.live_iff.2 ⟨_, hn⟩
    exact (hchanged₁.trans ht hchanged₂).above ht hlive (habove b hb)
  · exact ⟨_, hn₂, ⟨⟨_, rfl, hspec⟩, hloop.context⟩, hlists₁.later hlater₂ fun c hc =>
      View.live_of_child hchanged₂.tree hn₂ hc⟩

omit hre in
/-- The keys of the wanted items are different from each other. -/
theorem wantedItems_distinct (spec : LoopSpec) (c : Cursor) (items : List Value) :
    ∀ wanted : OrderedMap Key (Value × Value), wanted.Distinct → ∀ e w e',
      (wantedItems re spec c items wanted).Gives e (.ok w) e' → w.Distinct := by
  induction items with
  | nil =>
    intro wanted hd e w e' hgives
    obtain ⟨hw, -⟩ := gives_pure.1 hgives
    obtain rfl := Except.ok.inj hw
    exact hd
  | cons item items ih =>
    intro wanted hd e w e' hgives
    rcases gives_bind.1 hgives with ⟨p, e₁, -, hrest⟩ | ⟨err, -, h⟩
    · obtain ⟨key, identity⟩ := p
      refine ih _ ?_ _ _ _ hrest
      split
      · exact hd
      · rename_i hkey
        exact hd.insert _ _
    · cases h

omit hre in
/-- Removing instances removes their nodes. -/
theorem dropInstances_eq (e : Engine) (old : OrderedMap Key Instance) (wanted : Key → Bool) :
    e.dropInstances old wanted =
      ((old.entries.filter fun entry => !wanted entry.1).flatMap (·.2.nodes)).foldl
        Engine.removeNode e := by
  unfold Engine.dropInstances
  induction old.entries generalizing e with
  | nil => rfl
  | cons entry entries ih =>
    rw [List.foldl_cons, ih]
    cases hw : wanted entry.1 with
    | true => simp [hw]
    | false => simp [hw, List.foldl_append]

omit hre in
/-- Removing a node of an instance leaves the books of a loop in line with its children. -/
theorem removeNode_working {root c : NodeId} {c₀ : Cursor} {busy : List NodeId} {spec : LoopSpec}
    {old : OrderedMap Key Instance} {e : Engine} (hvalid : e.nodes.Valid)
    (hw : e.view.Working root c₀ busy spec old) (hc : c ∈ old.nodes) :
    View.Changed root c₀.parent e.view (e.removeNode c).view ∧
      (e.removeNode c).view.Working root c₀ busy spec old ∧ (e.removeNode c).view.spent c := by
  obtain ⟨n, hn, hloop, hlists⟩ := hw.node
  cases hlive : e.view.live c with
  | false =>
    -- a node that is gone is gone for good, and nothing happens
    have hspent := (hlists.known c hc).resolve_left (ne_true_of_eq_false hlive)
    rw [Engine.removeNode_of_dead (Engine.live_view e c ▸ hlive)]
    exact ⟨.refl hw.tree c₀.parent, hw, hspent⟩
  | true =>
    have hlater : e.view.Later (e.removeNode c).view :=
      Engine.Operates.later (fun I h he => h.closed.removeNode c he) hvalid
    have hmem : c ∈ n.children := by
      rw [hlists.children_eq]
      exact List.mem_filter.2 ⟨hc, hlive⟩
    have hparent : e.view.shape.Parent c₀.parent c := hw.tree.child c₀.parent n c hn hmem
    have hshape : (e.removeNode c).view.shape = e.view.shape.uproot c :=
      Engine.shape_removeNode hvalid hw.tree (Engine.live_view e c ▸ hlive)
    have hchanged := View.Changed.uproot hw.tree hparent hlater hshape
    refine ⟨hchanged, ⟨hchanged.tree, hw.sound.uproot hw.tree hparent hlater hshape, fun b hb => ?_,
      ?_⟩, ?_⟩
    · exact hchanged.above hw.tree (View.live_iff.2 ⟨n, hn⟩) (hw.above b hb)
    · refine ⟨{ n with children := n.children.filter (· ≠ c) }, ?_, ⟨hloop.data, hloop.context⟩, ?_⟩
      · rw [hshape, Forest.uproot_parent hw.tree hparent hn]
      · exact hlists.uproot hw.tree hn hparent hlater hshape
    · refine (hlater.known c hlive).resolve_left ?_
      rw [View.live, hshape, Forest.uproot, Forest.cut_of (.inl rfl)]
      exact Bool.false_ne_true

omit hre in
/-- So does removing several. -/
theorem foldl_removeNode_working {root : NodeId} {c₀ : Cursor} {busy : List NodeId} {spec : LoopSpec}
    {old : OrderedMap Key Instance} (ids : List NodeId) : ∀ e : Engine, e.nodes.Valid →
      e.view.Working root c₀ busy spec old → (∀ c ∈ ids, c ∈ old.nodes) →
        View.Changed root c₀.parent e.view (ids.foldl Engine.removeNode e).view ∧
          (ids.foldl Engine.removeNode e).view.Working root c₀ busy spec old ∧
            ∀ c ∈ ids, (ids.foldl Engine.removeNode e).view.live c = false := by
  induction ids with
  | nil => exact fun e _ hw _ => ⟨.refl hw.tree c₀.parent, hw, fun _ h => (List.not_mem_nil h).elim⟩
  | cons c ids ih =>
    intro e hvalid hw hids
    rw [List.foldl_cons]
    obtain ⟨hchanged, hw₁, hspent⟩ := removeNode_working hvalid hw (hids c List.mem_cons_self)
    obtain ⟨hchanged', hw', hdead⟩ := ih (e.removeNode c)
      (Engine.valid_stable.closed.removeNode c hvalid) hw₁
      fun c' hc' => hids c' (List.mem_cons_of_mem c hc')
    refine ⟨hchanged.trans hw.tree hchanged', hw', fun c' hc' => ?_⟩
    rcases List.mem_cons.1 hc' with rfl | hc'
    · exact View.live_of_spent (hchanged'.later.spent c' hspent)
    · exact hdead c' hc'

omit hre in
/-- Removing the instances that are not wanted. -/
theorem dropInstances_does (c₀ : Cursor) (spec : LoopSpec) (old : OrderedMap Key Instance)
    (wanted : Key → Bool) : (change (·.dropInstances old wanted)).Ensures fun v _ v' =>
      ∀ root busy, v.Working root c₀ busy spec old → View.Changed root c₀.parent v v' ∧
        v'.Working root c₀ busy spec (old.filter fun key _ => wanted key) := by
  refine does_change (fun e I h he => h.closed.dropInstances old wanted he) ?_
  intro e hvalid _ _ _ root busy hw
  have hnodes (c : NodeId) (key : Key) (kept : Instance) (hentry : (key, kept) ∈ old.entries)
      (hkey : wanted key = false) (hc : c ∈ kept.nodes) :
      c ∈ (old.entries.filter fun entry => !wanted entry.1).flatMap (·.2.nodes) :=
    List.mem_flatMap.2 ⟨_, List.mem_filter.2 ⟨hentry, by rw [hkey]; rfl⟩, hc⟩
  have hold (c : NodeId)
      (hc : c ∈ (old.entries.filter fun entry => !wanted entry.1).flatMap (·.2.nodes)) :
      c ∈ old.nodes := by
    obtain ⟨⟨key, kept⟩, hentry, hc⟩ := List.mem_flatMap.1 hc
    exact OrderedMap.mem_nodes (List.mem_filter.1 hentry).1 hc
  have hremoved := foldl_removeNode_working _ e hvalid hw hold
  rw [← dropInstances_eq] at hremoved
  obtain ⟨hchanged, hw', hdead⟩ := hremoved
  obtain ⟨n, hn, hloop, hlists⟩ := hw'.node
  refine ⟨hchanged, hw'.tree, hw'.sound, hw'.above, n, hn, hloop,
    hlists.distinct.those wanted, ?_, fun c hc => ?_⟩
  · rw [hlists.children_eq, OrderedMap.nodes_those]
    exact fun key kept hentry hkey c hc => hdead c (hnodes c key kept hentry hkey hc)
  · obtain ⟨key, kept, hentry, hc⟩ := OrderedMap.exists_of_mem_nodes hc
    exact hlists.known c (OrderedMap.mem_nodes (List.mem_filter.1 hentry).1 hc)

/-- Binding an instance anew, and updating it. -/
theorem keepInstance_does (id : NodeId) (spec : LoopSpec) (c : Cursor) (kept : Instance)
    (item : Value) (index : Nat) (identity : Value) (recursive : Bool) :
    (keepInstance re spec c kept item index identity recursive).Ensures fun v _ v' =>
      ∀ root busy n, v.shape.Tree root → v.shape id = some n → v.Sound busy →
        (∀ b ∈ busy, b = id ∨ v.shape.Above b id) → (∀ c ∈ kept.nodes, c ∈ n.children ∨ v.spent c) →
          View.Changed root id v v' ∧ v'.Sound busy ∧ v'.shape id = some n := by
  refine evaluates_bind hre.toBuilds (fun I h _ => keeps_step fun _ he => ?_) (fun changed => ?_)
    fun v err _ h => by cases h
  · exact h.tracking.rebindFrame _ _ _ (h.tracking.rebindFrame _ _ _ he)
  · refine does_ite (updateAll_does hre id kept.nodes) (ensures_pure fun v root busy n ht hn hsound _ _ => ?_)
    exact ⟨.refl ht id, hsound, hn⟩

/-- Building an instance of a loop that is being worked on. -/
theorem buildInstance_ensures (spec : LoopSpec) (c : Cursor) (item : Value) (index : Nat)
    (identity : Value) : (buildInstance re spec c item index (some identity)).Ensures fun v built v' =>
      ∀ root busy n, v.shape.Tree root → v.shape c.parent = some n → v.Sound (c.parent :: busy) →
        v.Admits c → View.Grown root c.parent v v' ∧ v'.Sound (c.parent :: busy) ∧
          v'.shape c.parent = some { n with children := n.children ++ built.nodes } := by
  refine (buildInstance_does hre.toBuilds spec c item index (some identity)).mono ?_
  intro v r v' h built hbuilt root busy n ht hn hsound hc
  obtain ⟨hgrows, hnode⟩ := h hc
  obtain ⟨hg, hs⟩ := hgrows root ht
  exact ⟨hg, hs (c.parent :: busy) built hbuilt (fun _ _ => .inl List.mem_cons_self) hsound,
    hnode built hbuilt root n ht hn⟩

/-- Keeping or building the instances of the wanted items. -/
theorem arrangeInstances_does (spec : LoopSpec) (c : Cursor) (recursive : Bool)
    (old : OrderedMap Key Instance) (wanted : List (Key × Value × Value)) :
    ∀ index, (arrangeInstances re spec c recursive old index wanted).Ensures fun v p v' =>
      v.Arranges c old (wanted.map (·.1)) p.1 v' := by
  induction wanted with
  | nil =>
    refine fun index => ensures_pure fun v root busy n ht hn hsound _ _ _ _ => ?_
    exact ⟨.refl ht c.parent, hsound, rfl, [], by rw [hn, List.append_nil], .refl _⟩
  | cons w wanted ih =>
    intro index
    obtain ⟨key, identity, item⟩ := w
    unfold arrangeInstances
    split
    · rename_i kept hkept
      refine (ensures_bind (keepInstance_does hre c.parent spec c kept item index identity recursive)
        fun _ => ensures_bind (ih (index + 1)) fun p => ensures_pure (S := fun v q v' => v' = v ∧
          q.1 = (key, kept) :: p.1) fun v => ⟨rfl, rfl⟩).imp ?_
      rintro v q v' ⟨_, v₁, hkeep, p, v₂, hrest, rfl, hq⟩
      rw [hq]
      exact .cons_kept hkept hkeep hrest
    · rename_i hnone
      refine (ensures_bind (buildInstance_ensures hre spec c item index identity)
        fun built => ensures_bind (ih (index + 1)) fun p => ensures_pure (S := fun v q v' => v' = v ∧
          q.1 = (key, built) :: p.1) fun v => ⟨rfl, rfl⟩).imp ?_
      rintro v q v' ⟨first, v₁, hbuild, p, v₂, hrest, rfl, hq⟩
      rw [hq]
      exact .cons_built hnone hbuild hrest

omit hre in
/-- Putting the children of a loop into their order. -/
theorem orderChildren_does (c : Cursor) (spec : LoopSpec) (instances : OrderedMap Key Instance) :
    (change (·.orderChildren c.parent instances)).Ensures fun v _ v' =>
      ∀ root busy, v.Arranged root c busy spec instances →
        View.Changed root c.parent v v' ∧ v'.Working root c busy spec instances := by
  refine does_change (fun e I h he => h.closed.orderChildren c.parent instances he) ?_
  intro e hvalid hlater _ _ root busy ha
  obtain ⟨n, hn, hloop, hdistinct, hperm, hknown⟩ := ha.node
  let order := instances.nodes.filter e.view.live
  let f : RenderNode → RenderNode := fun n => { n with children := order }
  have hshape : (e.orderChildren c.parent instances).view.shape = e.view.shape.amend c.parent f := by
    have horder : instances.nodes.filter e.contains = order :=
      List.filter_congr fun x _ => (Engine.live_view e x).symm
    refine Engine.shape_modifyNode fun m _ => ?_
    change RenderNode.shape { m with children := instances.nodes.filter e.contains } = _
    rw [horder]
    rfl
  have hmild (n' : RenderNode) (hn' : e.view.shape c.parent = some n') : Forest.Mild n' (f n') := by
    rw [hn, Option.some.injEq] at hn'
    subst hn'
    exact ⟨rfl, rfl, rfl, hperm.symm⟩
  have hchanged := View.Changed.amend ha.tree hmild hlater hshape
  have hn' : (e.orderChildren c.parent instances).view.shape c.parent = some (f n) := by
    rw [hshape, Forest.amend_self, hn, Option.map_some]
  have hlists : e.view.Lists instances (f n).children := ⟨hdistinct, rfl, hknown⟩
  refine ⟨hchanged, hchanged.tree, ?_, fun b hb => ?_, f n, hn', ⟨hloop.data, hloop.context⟩, ?_⟩
  · exact ha.sound.amend hlater hchanged.tree hshape (fun x hx _ => hx) fun n' _ hout =>
      absurd List.mem_cons_self hout
  · exact hchanged.above ha.tree (View.live_iff.2 ⟨n, hn⟩) (ha.above b hb)
  · exact hlists.later hlater fun x hx => View.live_of_child hchanged.tree hn' hx

omit hre in
/-- Reporting that nodes were moved leaves the view. -/
theorem markRebind_does (moved : List NodeId) :
    (change fun e => moved.foldl Engine.markRebind e).Does fun v _ v' => v' = v := by
  refine does_change (fun e I h he => ?_) fun e _ _ => ?_
  · exact List.foldlRecOn moved _ he fun _ he id _ => h.closed.markRebind id he
  · have hflag (e₁ : Engine) (id : NodeId) (h : e₁.view = e.view) :
        (e₁.flagRebind id).view = e.view := by
      rw [← h]
      refine View.ext ?_ (funext fun x => propext (Arena.spent_modify x id _))
      exact Engine.shape_modifyNode_of_same fun _ _ => rfl
    have hmark (e₁ : Engine) (id : NodeId) (h : e₁.view = e.view) :
        (e₁.markRebind id).view = e.view :=
      List.foldlRecOn _ _ (motive := fun e₂ => e₂.view = e.view) h fun e₂ h₂ id' _ => hflag e₂ id' h₂
    exact List.foldlRecOn moved _ (motive := fun e₁ => e₁.view = e.view) rfl fun e₁ h₁ id _ =>
      hmark e₁ id h₁

/-- Finding the items of a loop leaves the view, and each key is found once. -/
theorem wantedItems_does (spec : LoopSpec) (c : Cursor) (items : List Value) :
    (wantedItems re spec c items .empty).Does fun v r v' =>
      v' = v ∧ ∀ wanted, r = .ok wanted → wanted.Distinct := by
  have hkept := does_evaluation hre.operates fun I h hen =>
    wantedItems_keeps h.tracking hen spec c items .empty
  refine ⟨hkept.calm, hkept.valid, fun e r e' hgives hcalm hvalid => ?_⟩
  refine ⟨hkept.spec hgives hcalm hvalid, fun wanted hr => ?_⟩
  rw [hr] at hgives
  exact wantedItems_distinct spec c items .empty List.nodup_nil e wanted e' hgives

/-- Finishing a loop that was brought in line with its items. -/
theorem endLoop_does (spec : LoopSpec) (c : Cursor) (all : OrderedMap Key Instance) :
    (finishLoop re c.parent spec c (.keyed all)).Ensures fun v _ v' =>
      ∀ root busy, v.Working root c busy spec all →
        View.Changed root c.parent v v' ∧ v'.Sound busy := by
  refine (finishLoop_does hre.toBuilds c.parent spec c (.keyed all)).mono ?_
  intro v r v' h a ha root busy hw
  obtain ⟨n, hn, hloop, hlists⟩ := hw.node
  obtain ⟨data, hdata, hspec⟩ := hloop.data
  have hc : v.Admits c :=
    (View.admits_of_node hw.tree hn hloop.isContext c.frame c.ns).congr rfl hloop.context.symm
  obtain ⟨hchanged, hsound⟩ := h n data hn hdata hspec hc rfl (fun _ => ⟨all, rfl, hlists⟩) root
    hw.tree hc.parent
  exact ⟨hchanged, hsound busy a ha hw.sound⟩

/-- Bringing a loop with identities in line with its items. -/
theorem reconcile_does (id : NodeId) (items : List Value) (recursive : Bool) :
    (reconcile re id items recursive).Does fun v r v' =>
      (∃ n, v.shape id = some n ∧ n.isKeyed = true) → v.Updates id r v' := by
  refine does_bind_read fun e => ?_
  cases hparts : e.loopParts? id with
  | none => exact does_pure fun v _ _ => .refl _ id v
  | some parts =>
    obtain ⟨spec, c⟩ := parts
    obtain ⟨n, data, hn, hdata, hspec, rfl, hctx⟩ := Engine.loopParts?_some hparts
    have hloop : n.Repeats spec c := ⟨⟨data, hdata, hspec⟩, hctx.symm⟩
    refine Does.mono (ensures_bind (takeInstances_does spec c) fun old =>
      ensures_bind (Does.mono (wantedItems_does hre spec c items) fun v r v' h wanted hr =>
        (⟨h.1, h.2 wanted hr⟩ : v' = v ∧ wanted.Distinct)) fun wanted =>
      ensures_bind (dropInstances_does c spec old wanted.contains) fun _ =>
      ensures_bind (arrangeInstances_does hre spec c recursive old wanted.entries 0) fun p =>
      ensures_bind (orderChildren_does c spec ⟨p.1⟩) fun _ =>
      ensures_bind (Does.mono (markRebind_does p.2) fun v r v' h _ _ => h) fun _ =>
        endLoop_does hre spec c ⟨p.1⟩) ?_
    rintro v r v' h hview ⟨m, hm, hkeyed⟩ a ha
    -- instances are taken out, dropped, arranged and put into order; finding the wanted items and
    -- reporting what was moved are not seen
    obtain ⟨old, v₁, htake, wanted, v₁', ⟨rfl, hdistinct⟩, _, v₂, hdrop, p, v₃, harrange, _, v₄,
      horder, _, v₄', rfl, hend⟩ := h a ha
    have hlive : v.live c.parent = true := View.live_iff.2 ⟨m, hm⟩
    obtain rfl : m = n := by
      rw [hview] at hm
      exact Option.some.inj (hm.symm.trans hn)
    refine ⟨fun hdead => absurd (hlive.symm.trans hdead) (by decide), ?_⟩
    intro root busy ht _ hsound habove
    obtain ⟨hchanged₁, hw₁⟩ := htake root busy m ht hm hloop hkeyed hsound habove
    obtain ⟨hchanged₂, hw₂⟩ := hdrop root busy hw₁
    obtain ⟨_, -, -, hlists⟩ := hw₁.node
    obtain ⟨hchanged₃, ha₃⟩ := hw₂.arranged hlists.distinct hdistinct
      (OrderedMap.contains_iff wanted) harrange
    obtain ⟨hchanged₄, hw₄⟩ := horder root busy ha₃
    obtain ⟨hchanged₅, hsound'⟩ := hend root busy hw₄
    have hchanged := (hchanged₁.trans ht hchanged₂).trans ht hchanged₃
    exact ⟨(hchanged.trans ht hchanged₄).trans ht hchanged₅, hsound'⟩

/-! ## Nodes -/

/-- Building the template of a component instance anew. -/
theorem rebuildContext_does (ctx : NodeId) :
    (rebuildContext re ctx).Does fun v r v' => v.Updates ctx r v' := by
  refine does_bind_read fun e => ?_
  cases hfound : e.node? ctx with
  | none => exact does_throw fun v _ => .refl _ ctx v
  | some n =>
    have hview := Engine.view_of_node? hfound
    dsimp only
    split
    · exact does_throw fun v _ => .refl _ ctx v
    · rename_i hctx
      have hctx : n.shape.isContext = true := by simpa [n.isContext_shape] using hctx
      refine evaluates_bind hre.toBuilds (fun I _ _ => keeps_read _) (fun ns => ?_)
        fun v err _ => .error err ctx v v
      have hbuilt : Act.Does (do
          Act.change (·.resetContext ctx)
          runRoutine re ctx ns) fun v r v' => ∀ m, v.shape ctx = some m → m.kind = n.shape.kind →
            m.children = [] → v.Fills ctx r v' := by
        refine evaluates_bind hre.toBuilds (fun I h _ => keeps_change fun _ he => ?_) (fun _ => ?_)
          fun v err m _ _ _ => ?_
        · exact h.modifyContext (fun _ => rfl) he
        · refine (runRoutine_does hre.toBuilds ctx ns).mono fun v r v' h m hm hkind' _ => ?_
          have hm' : m.isContext = true := by
            unfold RenderNode.isContext at hctx ⊢
            rwa [hkind']
          refine (h ⟨m, hm, hm'⟩).fills fun m' hmm => ?_
          obtain rfl : m = m' := Option.some.inj (hm.symm.trans hmm)
          exact RenderNode.isKeyed_of_isContext hm'
        · exact (View.Grows.refl (.error err : Except EngineError Unit) ctx v).fills_error
      exact (clear_bind_does _ hbuilt).mono fun v r v' h hv => h ⟨_, hv ▸ hview, rfl⟩

omit hre in
/-- Clearing a node that keeps no books, and building its content anew. -/
theorem refill_does {e : Engine} {id : NodeId} {n : RenderNode} {x : Act Unit}
    (hn : e.node? id = some n) (hbooks : n.isKeyed = false)
    (hx : x.Does fun v r v' => v.Grows id r v') : Act.Does (do
      change (·.clearChildren id)
      x) fun v r v' => v = e.view → v.Updates id r v' := by
  refine (clear_bind_does n.shape.kind (hx.mono fun v r v' h m hm hkind _ =>
    h.fills fun m' hm' => ?_)).mono fun v r v' h hv => h ⟨_, hv ▸ Engine.view_of_node? hn, rfl⟩
  obtain rfl : m = m' := Option.some.inj (hm.symm.trans hm')
  rw [RenderNode.isKeyed_congr hkind, RenderNode.isKeyed_shape, hbooks]

/-- Updating a node that has no children of its own is an evaluation. -/
theorem evaluates_updates {x : Act Unit} (hx : x.Evaluates re) (id : NodeId) :
    x.Does fun v r v' => v.Updates id r v' :=
  (does_evaluation hre.operates hx).mono fun v r v' h => by
    rw [h]
    exact .refl r id v

/-- Evaluating a node again. -/
theorem updateNode_does (id : NodeId) (recursive : Bool) :
    (updateNode re id recursive).Does fun v r v' => v.Updates id r v' := by
  have hre' := hre.toBuilds
  have herr (v : View) (err : EngineError) : v.Updates id (.error err : Except EngineError Unit) v :=
    .error err id v v
  have hpurge : (change (·.purge id)).Evaluates re := fun I h _ => keeps_change fun _ he => h.purge id he
  have hreport : (change (·.report id)).Evaluates re := fun I h _ => keeps_change fun _ he => h.report he
  have hdescend := descend_does hre id recursive
  refine evaluates_bind hre' (fun I h _ => keeps_poll fun _ he => h.tracking.poll he) (fun _ => ?_) herr
  refine does_bind_read fun e => ?_
  cases hfound : e.node? id with
  | none => exact does_pure fun v _ => .refl _ id v
  | some n =>
    have hview := Engine.view_of_node? hfound
    have hsame {x : Act Unit} (hx : x.Does fun v r v' => v.Updates id r v') :
        x.Does fun v r v' => v = e.view → v.Updates id r v' := hx.mono fun v r v' h _ => h
    have herr' (v : View) (err : EngineError) : v = e.view →
        v.Updates id (.error err : Except EngineError Unit) v := fun _ => herr v err
    dsimp only
    split
    · refine hsame (evaluates_bind hre' hpurge (fun _ => ?_) herr)
      refine evaluates_bind hre' (evaluates_refreshElement id) (fun changed => ?_) herr
      cases changed with
      | true => exact evaluates_bind hre' hreport (fun _ => hdescend) herr
      | false => exact hdescend
    · refine hsame (evaluates_bind hre' hpurge (fun _ => ?_) herr)
      refine evaluates_bind hre' (evaluates_refreshText id) (fun changed => ?_) herr
      cases changed with
      | true => exact evaluates_updates hre hreport id
      | false => exact does_pure fun v => .refl _ id v
    · exact hsame (evaluates_bind hre' (fun I h hen => propagateSources_keeps h.tracking hen trivial n _)
        (fun _ => hdescend) herr)
    · rename_i data hdata
      refine evaluates_bind hre' hpurge (fun _ => ?_) herr'
      refine evaluates_bind hre' (fun I h hen => selectBranch_keeps h.tracking hen trivial) (fun selected => ?_) herr'
      split
      · exact refill_does hfound (by rw [RenderNode.isKeyed, hdata]) (buildBranch_does hre' id selected)
      · exact hsame hdescend
    · rename_i data hdata
      refine evaluates_bind hre' hpurge (fun _ => ?_) herr'
      refine evaluates_bind hre' (fun I h hen => loopItems_keeps h.tracking hen trivial) (fun items => ?_) herr'
      split
      · rename_i hkeyed
        refine (reconcile_does hre id items recursive).mono fun v r v' h hv => h ⟨n.shape, hv ▸ hview, ?_⟩
        rw [RenderNode.isKeyed_shape, RenderNode.isKeyed, hdata]
        exact hkeyed
      · exact hsame (updatePlain_does hre id items recursive)
    · rename_i data hdata
      refine evaluates_bind hre' hpurge (fun _ => ?_) herr'
      refine evaluates_bind hre' (fun I h hen => setValue_keeps h.tracking hen trivial) (fun value => ?_) herr'
      split
      · exact refill_does hfound (by rw [RenderNode.isKeyed, hdata]) (fillSet_does hre' id value)
      · exact hsame hdescend
    · exact does_pure fun v _ => .refl _ id v
    · split
      · exact does_pure fun v _ => .refl _ id v
      · exact hsame (evaluates_updates hre (fun I h hen => fireSignal_keeps h.tracking hen _ id _) id)

/-! ## Following writes up -/

/-- Updating nodes that still exist. -/
theorem updateLive_does (ids : List NodeId) :
    (updateLive re ids).Ensures fun v _ v' => v.Settles v' := by
  induction ids with
  | nil => exact ensures_pure fun v => .refl v
  | cons id ids ih =>
    have hfirst : Act.Ensures (do if ← Act.read (·.contains id) then updateNode re id false)
        fun v _ v' => v.Settles v' := by
      refine does_bind_read fun e => ?_
      dsimp only
      split
      · exact (updateNode_does hre id false).mono fun v r v' h _ a ha => h.settles ha
      · exact does_pure fun v _ _ _ => .refl v
    exact (ensures_bind hfirst fun _ => ih).imp fun v _ v' ⟨_, v₁, h₁, h₂⟩ => h₁.trans h₂

/-- Following queued writes up. -/
theorem flush_does (limit rounds : Nat) :
    (flush re limit rounds).Ensures fun v _ v' => v.Settles v' := by
  have hstays {α : Type} {x : Act α} (hx : x.Evaluates re) : x.Ensures fun v _ v' => v.Settles v' :=
    (does_evaluation hre.operates hx).mono fun v r v' h _ _ => by
      rw [h]
      exact .refl v
  induction rounds with
  | zero =>
    refine hstays fun I h _ => keeps_bind (keeps_read _) fun pending => ?_
    split
    · exact keeps_pure _
    · exact keeps_change fun _ he => h.outside he rfl rfl rfl rfl
  | succ rounds ih =>
    refine does_bind_read fun e => ?_
    cases e.pending.isEmpty with
    | true => exact does_pure fun v _ _ _ => .refl v
    | false =>
      have htake : takeReaders.Ensures fun v _ v' => v.Settles v' :=
        hstays fun I h _ => keeps_step fun _ he => h.outside he rfl rfl rfl rfl
      refine Does.mono (ensures_bind htake fun ids =>
        ensures_bind (updateLive_does hre ids) fun _ => ih) fun v r v' h _ a ha => ?_
      obtain ⟨ids, v₁, h₁, _, v₂, h₂, h₃⟩ := h a ha
      exact (h₁.trans h₂).trans h₃

end

end Render

/-- The operations that may be entered anew are as building and updating need them. -/
theorem Reentry.within_grounded (depth : Nat) : (Reentry.within depth).Grounded := by
  have hre := Reentry.within_operates depth
  have hcalm := hre _ Engine.calm_stable.closed
  have hvalid := hre _ Engine.valid_stable.closed
  induction depth with
  | zero =>
    refine ⟨⟨hre, fun body c => ?_⟩, fun id => ?_⟩
    · exact ⟨hcalm.build body c, hvalid.build body c, fun _ _ _ hgives => by cases hgives⟩
    · exact ⟨hcalm.update id, hvalid.update id, fun _ _ _ hgives => by cases hgives⟩
  | succ depth ih =>
    have hinner := Reentry.within_operates depth
    have hre' := ih hinner (hinner _ Engine.calm_stable.closed) (hinner _ Engine.valid_stable.closed)
    exact ⟨⟨hre, fun body c => Render.buildBody_does hre'.toBuilds body c⟩,
      fun id => Render.updateNode_does hre' id true⟩

end ReactiveView
