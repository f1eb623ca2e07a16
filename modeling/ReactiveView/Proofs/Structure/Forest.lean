import ReactiveView.Proofs.Evaluation

/-!
# Forests of nodes

The shape of a rendered tree as a function from identities to nodes (`Forest`), with no regard to how
the nodes are stored. `Forest.Tree` says that such a forest is a tree below a root in which all
references to component instances point upwards. Four changes are considered: a leaf is added
(`graft`), everything in a part that is closed downwards is taken away (`cut`), a node gets another
order of its children or other data (`amend`). Each keeps trees.

What a change leaves alone is stated in two strengths. `Extends`: one node got further children, and
everything else is as before or new. `Confined`: nothing has changed but one node and what is under
it.
-/

namespace ReactiveView

/-- The nodes of a tree by their identities. -/
abbrev Forest := NodeId → Option RenderNode

/-- The component instances that a node refers to: that whose variables it reads, and for a component
instance that whose variables it shares and that of its caller's content. -/
def RenderNode.contexts (n : RenderNode) : List NodeId :=
  n.context ::
    (n.kind.context?.bind (·.sharedWith)).toList ++
      ((n.kind.context?.bind (·.slot)).map (·.caller)).toList

/-- A component instance refers to the one whose variables it shares. -/
theorem RenderNode.mem_contexts_of_shared {n : RenderNode} {data : ContextData} {s : NodeId}
    (hdata : n.kind.context? = some data) (hs : data.sharedWith = some s) : s ∈ n.contexts := by
  unfold contexts
  rw [hdata, Option.bind_some, hs]
  exact List.mem_append_left _ (List.mem_cons_of_mem _ (List.mem_singleton.2 rfl))

namespace Forest

variable {V V' V₁ V₂ : Forest} {r p a id x : NodeId} {n : RenderNode}

/-- One node is the parent of another. -/
def Parent (V : Forest) (p id : NodeId) : Prop := ∃ n, V id = some n ∧ n.parent = some p

/-- One node is a proper ancestor of another. -/
def Above (V : Forest) : NodeId → NodeId → Prop := Relation.TransGen V.Parent

/-- An identity is that of a component instance. -/
def IsContext (V : Forest) (c : NodeId) : Prop := ∃ n, V c = some n ∧ n.isContext = true

/-- An identity is that of a component instance with variables of its own. -/
def Owns (V : Forest) (c : NodeId) : Prop :=
  ∃ n data, V c = some n ∧ n.kind.context? = some data ∧ data.sharedWith = none

/-- A forest is a tree below a root, or empty. -/
structure Tree (V : Forest) (r : NodeId) : Prop where
  /-- The root has no parent and is a component instance that refers to itself only. -/
  root : ∀ n, V r = some n → n.parent = none ∧ n.isContext = true ∧ n.contexts = [r]
  /-- Every other node has a parent, and is one of its children. -/
  parent : ∀ id n, V id = some n → id ≠ r →
    ∃ p np, n.parent = some p ∧ V p = some np ∧ id ∈ np.children
  /-- Children are alive and know their parent. -/
  child : ∀ id n c, V id = some n → c ∈ n.children → V.Parent id c
  /-- No node is twice among the children of another one. -/
  nodup : ∀ id n, V id = some n → n.children.Nodup
  /-- There are no cycles. -/
  rank : ∃ d : NodeId → Nat, ∀ p id, V.Parent p id → d p < d id
  /-- References point upwards, to component instances. -/
  contexts : ∀ id n, V id = some n → id ≠ r → ∀ c ∈ n.contexts, V.Above c id ∧ V.IsContext c
  /-- Variables are shared with those that have them. -/
  owns : ∀ id n data s, V id = some n → n.kind.context? = some data → data.sharedWith = some s →
    V.Owns s

/-! ## Ancestors -/

/-- A node has one parent. -/
theorem Parent.unique {q : NodeId} (h : V.Parent p id) (h' : V.Parent q id) : p = q := by
  obtain ⟨n, hn, hp⟩ := h
  obtain ⟨n', hn', hq⟩ := h'
  rw [hn, Option.some.injEq] at hn'
  rw [← hn', hp, Option.some.injEq] at hq
  exact hq

/-- A forest without nodes is a tree. -/
theorem Tree.of_none (h : ∀ x, V x = none) : V.Tree r := by
  have hno {x : NodeId} {n : RenderNode} (hn : V x = some n) : False := by
    rw [h x] at hn
    cases hn
  refine ⟨fun _ hn => (hno hn).elim, fun _ _ hn => (hno hn).elim, fun _ _ _ hn => (hno hn).elim,
    fun _ _ hn => (hno hn).elim, ⟨fun _ => 0, fun _ _ hp => ?_⟩, fun _ _ hn => (hno hn).elim,
    fun _ _ _ _ hn => (hno hn).elim⟩
  exact (hno hp.choose_spec.1).elim

/-- A root without children is a tree. -/
theorem Tree.single (hn : V r = some n) (hother : ∀ x, x ≠ r → V x = none)
    (hparent : n.parent = none) (hctx : n.isContext = true) (hcontexts : n.contexts = [r])
    (hchildren : n.children = []) : V.Tree r := by
  have honly {x : NodeId} {m : RenderNode} (hm : V x = some m) : x = r ∧ m = n := by
    by_cases hx : x = r
    · rw [hx, hn, Option.some.injEq] at hm
      exact ⟨hx, hm.symm⟩
    · rw [hother x hx] at hm
      cases hm
  have hno (p x : NodeId) : ¬V.Parent p x := by
    rintro ⟨m, hm, hp⟩
    rw [(honly hm).2, hparent] at hp
    cases hp
  refine ⟨fun m hm => ?_, fun x m hm hx => ?_, fun x m c hm hc => ?_, fun x m hm => ?_, ?_,
    fun x m hm hx => ?_, fun x m data s hm hdata hs => ?_⟩
  · rw [(honly hm).2]
    exact ⟨hparent, hctx, hcontexts⟩
  · exact absurd (honly hm).1 hx
  · rw [(honly hm).2, hchildren] at hc
    exact (List.not_mem_nil hc).elim
  · rw [(honly hm).2, hchildren]
    exact List.nodup_nil
  · exact ⟨fun _ => 0, fun p x h => absurd h (hno p x)⟩
  · exact absurd (honly hm).1 hx
  · -- the root refers to itself only, so that it shares with no one
    rw [(honly hm).2] at hdata
    unfold RenderNode.contexts at hcontexts
    rw [hdata, List.cons_append, List.cons.injEq, List.append_eq_nil_iff, Option.bind_some, hs] at hcontexts
    cases hcontexts.2.1

/-- The ancestors of a node are its parent and the ancestors of that. -/
theorem above_iff_of_parent (h : V.Parent p id) : V.Above a id ↔ a = p ∨ V.Above a p := by
  constructor
  · intro ha
    cases ha with
    | single ha => exact .inl (ha.unique h)
    | tail ha hq =>
      obtain rfl := hq.unique h
      exact .inr ha
  · rintro (rfl | ha)
    · exact .single h
    · exact .tail ha h

/-- A node that has ancestors is alive. -/
theorem Above.live (h : V.Above a id) : ∃ n, V id = some n := by
  cases h with
  | single h => exact ⟨_, h.choose_spec.1⟩
  | tail _ h => exact ⟨_, h.choose_spec.1⟩

/-- A forest in which every node has the parent that it had before has the ancestors of before. -/
theorem Above.mono (hparent : ∀ p id, V.Parent p id → V'.Parent p id) (h : V.Above a id) :
    V'.Above a id := by
  induction h with
  | single h => exact .single (hparent _ _ h)
  | tail _ h ih => exact .tail ih (hparent _ _ h)

namespace Tree

variable (h : V.Tree r)
include h

/-- Parents are alive. -/
theorem parent_live (hp : V.Parent p id) : ∃ np, V p = some np ∧ id ∈ np.children := by
  obtain ⟨n, hn, hp⟩ := hp
  have hne : id ≠ r := by
    rintro rfl
    rw [(h.root n hn).1] at hp
    cases hp
  obtain ⟨q, nq, hq, hlive, hmem⟩ := h.parent id n hn hne
  rw [hp, Option.some.injEq] at hq
  rw [hq]
  exact ⟨nq, hlive, hmem⟩

/-- Ancestors are alive. -/
theorem above_live (ha : V.Above a id) : ∃ n, V a = some n := by
  induction ha with
  | single hp =>
    obtain ⟨np, hnp, -⟩ := h.parent_live hp
    exact ⟨np, hnp⟩
  | tail _ _ ih => exact ih

/-- A node is a child of its parent. -/
theorem mem_children_iff (hn : V p = some n) : id ∈ n.children ↔ V.Parent p id := by
  constructor
  · exact h.child p n id hn
  · intro hp
    obtain ⟨np, hnp, hmem⟩ := h.parent_live hp
    rw [hn, Option.some.injEq] at hnp
    rw [hnp]
    exact hmem

/-- No node is above itself. -/
theorem above_irrefl : ¬V.Above id id := by
  intro ha
  obtain ⟨d, hd⟩ := h.rank
  have hlt : ∀ {a id}, V.Above a id → d a < d id := by
    intro a id ha
    induction ha with
    | single hp => exact hd _ _ hp
    | tail _ hp ih => exact Nat.lt_trans ih (hd _ _ hp)
  exact Nat.lt_irrefl _ (hlt ha)

/-- No two nodes are above each other. -/
theorem above_asymm (ha : V.Above a id) : ¬V.Above id a := fun hid =>
  h.above_irrefl (Relation.TransGen.trans ha hid)

/-- Nothing is above the root. -/
theorem not_above_root : ¬V.Above a r := by
  intro ha
  have hroot : ∀ {p}, ¬V.Parent p r := by
    rintro p ⟨n, hn, hp⟩
    rw [(h.root n hn).1] at hp
    cases hp
  cases ha with
  | single hp => exact hroot hp
  | tail _ hp => exact hroot hp

/-- The root is above every other node. -/
theorem root_above (hn : V id = some n) (hne : id ≠ r) : V.Above r id := by
  obtain ⟨d, hd⟩ := h.rank
  induction hk : d id using Nat.strongRecOn generalizing id n with
  | ind k ih =>
    obtain ⟨p, np, hp, hnp, -⟩ := h.parent id n hn hne
    have hparent : V.Parent p id := ⟨n, hn, hp⟩
    by_cases hpr : p = r
    · rw [← hpr]
      exact .single hparent
    · exact .tail (ih (d p) (hk ▸ hd p id hparent) hnp hpr rfl) hparent

end Tree

/-! ## Amending a node -/

/-- Change one node. -/
def amend (V : Forest) (id : NodeId) (f : RenderNode → RenderNode) : Forest := fun x =>
  if x = id then (V x).map f else V x

/-- Where other nodes stand. -/
theorem amend_of_ne (f : RenderNode → RenderNode) (h : x ≠ id) : V.amend id f x = V x := if_neg h

/-- The node that is changed. -/
theorem amend_self (f : RenderNode → RenderNode) : V.amend id f id = (V id).map f := if_pos rfl

/-- A change that leaves a node its place, its references and its children, up to their order. -/
structure Mild (n n' : RenderNode) : Prop where
  /-- The parent stays. -/
  parent : n'.parent = n.parent
  /-- The context stays. -/
  context : n'.context = n.context
  /-- What it is as a component instance stays. -/
  instance_eq : n'.kind.context? = n.kind.context?
  /-- The children stay. -/
  children : n'.children.Perm n.children

/-- Nothing that parents depend on has changed. -/
theorem parent_amend {f : RenderNode → RenderNode}
    (hf : ∀ n, V id = some n → (f n).parent = n.parent) (p x : NodeId) :
    (V.amend id f).Parent p x ↔ V.Parent p x := by
  unfold Parent
  by_cases hx : x = id
  · subst hx
    rw [amend_self]
    constructor
    · rintro ⟨n', hn', hp⟩
      obtain ⟨n, hn, rfl⟩ := Option.map_eq_some_iff.1 hn'
      exact ⟨n, hn, hf n hn ▸ hp⟩
    · rintro ⟨n, hn, hp⟩
      exact ⟨f n, by rw [hn, Option.map_some], (hf n hn).trans hp⟩
  · rw [amend_of_ne f hx]

/-- Nor have ancestors. -/
theorem above_amend {f : RenderNode → RenderNode}
    (hf : ∀ n, V id = some n → (f n).parent = n.parent) (a x : NodeId) :
    (V.amend id f).Above a x ↔ V.Above a x :=
  ⟨Above.mono fun p x => (parent_amend hf p x).1, Above.mono fun p x => (parent_amend hf p x).2⟩

/-- A node of an amended forest is a node of before, with a mild change. -/
theorem of_amend {f : RenderNode → RenderNode} (hf : ∀ n, V id = some n → Mild n (f n))
    {n' : RenderNode} (hn' : V.amend id f x = some n') : ∃ n, V x = some n ∧ Mild n n' := by
  by_cases hx : x = id
  · subst hx
    rw [amend_self] at hn'
    obtain ⟨n, hn, rfl⟩ := Option.map_eq_some_iff.1 hn'
    exact ⟨n, hn, hf n hn⟩
  · rw [amend_of_ne f hx] at hn'
    exact ⟨n', hn', rfl, rfl, rfl, .refl _⟩

/-- A node of before is a node of the amended forest, with a mild change. -/
theorem to_amend {f : RenderNode → RenderNode} (hf : ∀ n, V id = some n → Mild n (f n))
    (hn : V x = some n) : ∃ n', V.amend id f x = some n' ∧ Mild n n' := by
  by_cases hx : x = id
  · subst hx
    exact ⟨f n, by rw [amend_self, hn, Option.map_some], hf n hn⟩
  · exact ⟨n, by rw [amend_of_ne f hx, hn], rfl, rfl, rfl, .refl _⟩

/-- Mild changes leave the references. -/
theorem Mild.contexts {n n' : RenderNode} (h : Mild n n') : n'.contexts = n.contexts := by
  unfold RenderNode.contexts
  rw [h.context, h.instance_eq]

/-- Mild changes keep trees. -/
theorem Tree.amend (h : V.Tree r) {f : RenderNode → RenderNode}
    (hf : ∀ n, V id = some n → Mild n (f n)) : (V.amend id f).Tree r := by
  have hparent := parent_amend fun n hn => (hf n hn).parent
  have habove := above_amend fun n hn => (hf n hn).parent
  -- a mild change leaves parents and references, so only the lists of children need a look
  have hcontext (c : NodeId) (hc : V.IsContext c) : (V.amend id f).IsContext c := by
    obtain ⟨n, hn, hc⟩ := hc
    obtain ⟨n', hn', hmild⟩ := to_amend hf hn
    refine ⟨n', hn', ?_⟩
    unfold RenderNode.isContext at hc ⊢
    rw [hmild.instance_eq]
    exact hc
  refine ⟨?root, ?parent, ?child, ?nodup, ?rank, ?contexts, ?owns⟩
  case root =>
    intro n' hn'
    obtain ⟨n, hn, hmild⟩ := of_amend hf hn'
    obtain ⟨hnone, hctx, hrefs⟩ := h.root n hn
    refine ⟨hmild.parent.trans hnone, ?_, hmild.contexts.trans hrefs⟩
    unfold RenderNode.isContext at hctx ⊢
    rw [hmild.instance_eq]
    exact hctx
  case parent =>
    intro x n' hn' hne
    obtain ⟨n, hn, hmild⟩ := of_amend hf hn'
    obtain ⟨p, np, hp, hnp, hmem⟩ := h.parent x n hn hne
    obtain ⟨np', hnp', hmild'⟩ := to_amend hf hnp
    exact ⟨p, np', hmild.parent.trans hp, hnp', hmild'.children.mem_iff.2 hmem⟩
  case child =>
    intro x n' c hn' hc
    obtain ⟨n, hn, hmild⟩ := of_amend hf hn'
    exact (hparent x c).2 (h.child x n c hn (hmild.children.mem_iff.1 hc))
  case nodup =>
    intro x n' hn'
    obtain ⟨n, hn, hmild⟩ := of_amend hf hn'
    exact hmild.children.nodup_iff.2 (h.nodup x n hn)
  case rank =>
    obtain ⟨d, hd⟩ := h.rank
    exact ⟨d, fun p x hp => hd p x ((hparent p x).1 hp)⟩
  case contexts =>
    intro x n' hn' hne c hc
    obtain ⟨n, hn, hmild⟩ := of_amend hf hn'
    rw [hmild.contexts] at hc
    obtain ⟨ha, hctx⟩ := h.contexts x n hn hne c hc
    exact ⟨(habove c x).2 ha, hcontext c hctx⟩
  case owns =>
    intro x n' data s hn' hdata hs
    obtain ⟨n, hn, hmild⟩ := of_amend hf hn'
    rw [hmild.instance_eq] at hdata
    obtain ⟨m, data', hm, hdata', hnone⟩ := h.owns x n data s hn hdata hs
    obtain ⟨m', hm', hmild'⟩ := to_amend hf hm
    exact ⟨m', data', hm', hmild'.instance_eq.trans hdata', hnone⟩

/-! ## Adding a leaf -/

/-- Put a node at the end of the children of another one. -/
def graft (V : Forest) (id : NodeId) (n : RenderNode) (p : NodeId) : Forest := fun x =>
  if x = id then some n
  else if x = p then (V x).map fun m => { m with children := m.children ++ [id] }
  else V x

section

variable (hid : V id = none)
include hid

omit hid in
/-- The new node. -/
theorem graft_self : V.graft id n p id = some n := if_pos rfl

omit hid in
/-- The nodes of before. -/
theorem graft_of_ne (hx : x ≠ id) : V.graft id n p x =
    if x = p then (V x).map fun m => { m with children := m.children ++ [id] } else V x :=
  if_neg hx

/-- A node of before is still there, with more children if it is the parent of the new one. -/
theorem to_graft {m : RenderNode} (hm : V x = some m) : V.graft id n p x =
    some { m with children := m.children ++ if x = p then [id] else [] } := by
  have hne : x ≠ id := by
    rintro rfl
    rw [hid] at hm
    cases hm
  rw [graft_of_ne hne, hm]
  split
  · rfl
  · rw [List.append_nil]

omit hid in
/-- A node is the new one or one of before, with more children if it is the parent of the new one. -/
theorem of_graft {m' : RenderNode} (hm' : V.graft id n p x = some m') : x = id ∧ m' = n ∨
    x ≠ id ∧ ∃ m, V x = some m ∧
      m' = { m with children := m.children ++ if x = p then [id] else [] } := by
  by_cases hx : x = id
  · rw [hx, graft, if_pos rfl, Option.some.injEq] at hm'
    exact .inl ⟨hx, hm'.symm⟩
  · refine .inr ⟨hx, ?_⟩
    rw [graft_of_ne hx] at hm'
    by_cases hp : x = p
    · rw [if_pos hp] at hm'
      obtain ⟨m, hm, rfl⟩ := Option.map_eq_some_iff.1 hm'
      rw [if_pos hp]
      exact ⟨m, hm, rfl⟩
    · rw [if_neg hp] at hm' ⊢
      exact ⟨m', hm', by rw [List.append_nil]⟩

/-- The parents of before. -/
theorem Parent.graft {q : NodeId} (h : V.Parent q x) : (V.graft id n p).Parent q x := by
  obtain ⟨m, hm, hq⟩ := h
  exact ⟨_, to_graft hid hm, hq⟩

omit hid in
/-- The parents of the new forest are those of before, and that of the new node. -/
theorem of_parent_graft (hparent : n.parent = some p) {q : NodeId}
    (hq : (V.graft id n p).Parent q x) : x = id ∧ q = p ∨ x ≠ id ∧ V.Parent q x := by
  obtain ⟨m', hm', hq⟩ := hq
  obtain ⟨rfl, rfl⟩ | ⟨hx, m, hm, rfl⟩ := of_graft hm'
  · rw [hparent, Option.some.injEq] at hq
    exact .inl ⟨rfl, hq.symm⟩
  · exact .inr ⟨hx, m, hm, hq⟩

/-- Nodes that variables can be shared with stay so. -/
theorem Owns.graft {c : NodeId} (hc : V.Owns c) : (V.graft id n p).Owns c := by
  obtain ⟨m, data, hm, hdata, hnone⟩ := hc
  exact ⟨_, data, to_graft hid hm, hdata, hnone⟩

/-- Component instances stay such. -/
theorem IsContext.graft {c : NodeId} (hc : V.IsContext c) : (V.graft id n p).IsContext c := by
  obtain ⟨m, hm, hc⟩ := hc
  exact ⟨_, to_graft hid hm, hc⟩

/-- A node does not become a child twice. -/
theorem Tree.nodup_graft (h : V.Tree r) {m : RenderNode} (hm : V x = some m) :
    (m.children ++ if x = p then [id] else []).Nodup := by
  by_cases hx : x = p
  · rw [if_pos hx]
    refine List.nodup_append.2 ⟨h.nodup x m hm, List.pairwise_singleton _ id, fun c hc d hd => ?_⟩
    rw [List.mem_singleton] at hd
    subst hd
    -- children are alive, and the new node was not
    rintro rfl
    obtain ⟨nc, hnc, -⟩ := h.child x m c hm hc
    rw [hid] at hnc
    cases hnc
  · rw [if_neg hx, List.append_nil]
    exact h.nodup x m hm

/-- A leaf has the rank that follows that of its parent. -/
theorem Tree.rank_graft (h : V.Tree r) (hp : ∃ np, V p = some np) (hparent : n.parent = some p) :
    ∃ d : NodeId → Nat, ∀ q x, (V.graft id n p).Parent q x → d q < d x := by
  obtain ⟨d, hd⟩ := h.rank
  refine ⟨fun x => if x = id then d p + 1 else d x, fun q x hq => ?_⟩
  have hold {y : NodeId} (hy : ∃ m, V y = some m) : y ≠ id := by
    rintro rfl
    obtain ⟨m, hm⟩ := hy
    rw [hid] at hm
    cases hm
  dsimp only
  rcases of_parent_graft hparent hq with ⟨rfl, rfl⟩ | ⟨hx, hq⟩
  · rw [if_neg (hold hp), if_pos rfl]
    exact Nat.lt_succ_self _
  · obtain ⟨nq, hnq, -⟩ := h.parent_live hq
    rw [if_neg (hold ⟨nq, hnq⟩), if_neg hx]
    exact hd q x hq

/-- A new leaf keeps trees, provided that its references point upwards. -/
theorem Tree.graft (h : V.Tree r) (hne : id ≠ r) (hp : ∃ np, V p = some np)
    (hparent : n.parent = some p) (hleaf : n.children = [])
    (hcontexts : ∀ c ∈ n.contexts, (c = p ∨ V.Above c p) ∧ V.IsContext c)
    (howns : ∀ data s, n.kind.context? = some data → data.sharedWith = some s → V.Owns s) :
    (V.graft id n p).Tree r := by
  have hmono {a x : NodeId} (ha : V.Above a x) : (V.graft id n p).Above a x :=
    ha.mono fun _ _ hq => hq.graft hid
  have hnew : (V.graft id n p).Parent p id := ⟨n, graft_self, hparent⟩
  refine ⟨?root, ?parent, ?child, ?nodup, h.rank_graft hid hp hparent, ?contexts, ?owns⟩
  case root =>
    intro m' hm'
    obtain ⟨rfl, -⟩ | ⟨-, m, hm, rfl⟩ := of_graft hm'
    · exact absurd rfl hne
    · exact h.root m hm
  case parent =>
    intro x m' hm' hxr
    obtain ⟨rfl, rfl⟩ | ⟨-, m, hm, rfl⟩ := of_graft hm'
    · obtain ⟨np, hnp⟩ := hp
      refine ⟨p, _, hparent, to_graft hid hnp, ?_⟩
      rw [if_pos rfl]
      exact List.mem_append_right _ (List.mem_singleton.2 rfl)
    · obtain ⟨q, nq, hq, hnq, hmem⟩ := h.parent x m hm hxr
      exact ⟨q, _, hq, to_graft hid hnq, List.mem_append_left _ hmem⟩
  case child =>
    intro x m' c hm' hc
    obtain ⟨rfl, rfl⟩ | ⟨-, m, hm, rfl⟩ := of_graft hm'
    · rw [hleaf] at hc
      cases hc
    · rcases List.mem_append.1 hc with hc | hc
      · exact (h.child x m c hm hc).graft hid
      · by_cases hx : x = p
        · rw [if_pos hx, List.mem_singleton] at hc
          rw [hc, hx]
          exact hnew
        · rw [if_neg hx] at hc
          cases hc
  case nodup =>
    intro x m' hm'
    obtain ⟨rfl, rfl⟩ | ⟨-, m, hm, rfl⟩ := of_graft hm'
    · rw [hleaf]
      exact List.nodup_nil
    · exact h.nodup_graft hid hm
  case contexts =>
    intro x m' hm' hxr c hc
    obtain ⟨rfl, rfl⟩ | ⟨-, m, hm, rfl⟩ := of_graft hm'
    · -- what the leaf refers to is its parent, or above that
      obtain ⟨hc | hc, hc'⟩ := hcontexts c hc
      · rw [hc] at hc' ⊢
        exact ⟨.single hnew, hc'.graft hid⟩
      · exact ⟨.tail (hmono hc) hnew, hc'.graft hid⟩
    · obtain ⟨hc, hc'⟩ := h.contexts x m hm hxr c hc
      exact ⟨hmono hc, hc'.graft hid⟩
  case owns =>
    intro x m' data s hm' hdata hs
    obtain ⟨rfl, rfl⟩ | ⟨-, m, hm, rfl⟩ := of_graft hm'
    · exact (howns data s hdata hs).graft hid
    · exact (h.owns x m data s hm hdata hs).graft hid

end

/-! ## Taking a part away -/

section

open Classical in
/-- Take a part away. -/
noncomputable def cut (V : Forest) (D : NodeId → Prop) : Forest := fun x =>
  if D x then none
  else (V x).map fun n => { n with children := n.children.filter fun c => ¬D c }

variable {D : NodeId → Prop}

/-- What is in the part is gone. -/
theorem cut_of (h : D x) : V.cut D x = none := if_pos h

open Classical in
/-- What is not in the part stays, less its children in the part. -/
theorem cut_of_not (h : ¬D x) : V.cut D x =
    (V x).map fun n => { n with children := n.children.filter fun c => ¬D c } := if_neg h

open Classical in
/-- A node that stays was there before. -/
theorem of_cut {n' : RenderNode} (h : V.cut D x = some n') : ¬D x ∧ ∃ n, V x = some n ∧
    n' = { n with children := n.children.filter fun c => ¬D c } := by
  by_cases hx : D x
  · rw [cut_of hx] at h
    cases h
  · rw [cut_of_not hx] at h
    obtain ⟨n, hn, rfl⟩ := Option.map_eq_some_iff.1 h
    exact ⟨hx, n, hn, rfl⟩

open Classical in
/-- A node of before stays if it is not in the part. -/
theorem to_cut (hx : ¬D x) (hn : V x = some n) :
    V.cut D x = some { n with children := n.children.filter fun c => ¬D c } := by
  rw [cut_of_not hx, hn, Option.map_some]

open Classical in
/-- A node of before stays with those of its children that are not in the part. -/
theorem to_cut_filter {k : NodeId → Bool} (hx : ¬D x) (hn : V x = some n)
    (hk : ∀ c ∈ n.children, k c = true ↔ ¬D c) :
    V.cut D x = some { n with children := n.children.filter k } := by
  rw [to_cut hx hn]
  congr 2
  refine List.filter_congr fun c hc => ?_
  rw [Bool.eq_iff_iff, hk c hc, decide_eq_true_eq]

/-- The parents of what stays. -/
theorem parent_cut : (V.cut D).Parent p x ↔ V.Parent p x ∧ ¬D x := by
  constructor
  · rintro ⟨n', hn', hp⟩
    obtain ⟨hx, n, hn, rfl⟩ := of_cut hn'
    exact ⟨⟨n, hn, hp⟩, hx⟩
  · rintro ⟨⟨n, hn, hp⟩, hx⟩
    exact ⟨_, to_cut hx hn, hp⟩

variable (hD : ∀ p id, V.Parent p id → D p → D id)
include hD

/-- The part is closed downwards. -/
theorem of_above (ha : V.Above a x) (h : D a) : D x := by
  induction ha with
  | single hp => exact hD _ _ hp h
  | tail _ hp ih => exact hD _ _ hp ih

/-- The ancestors of what stays. -/
theorem above_cut (hx : ¬D x) : (V.cut D).Above a x ↔ V.Above a x := by
  constructor
  · exact Above.mono fun p x hp => (parent_cut.1 hp).1
  · intro ha
    induction ha with
    | single hp => exact .single (parent_cut.2 ⟨hp, hx⟩)
    | tail _ hp ih => exact .tail (ih fun hq => hx (hD _ _ hp hq)) (parent_cut.2 ⟨hp, hx⟩)

open Classical in
/-- Taking away a part that is closed downwards keeps trees. -/
theorem Tree.cut (h : V.Tree r) : (V.cut D).Tree r := by
  have hctx {c x : NodeId} (hx : ¬D x) (ha : V.Above c x) (hc : V.IsContext c) :
      (V.cut D).IsContext c := by
    obtain ⟨m, hm, hc⟩ := hc
    exact ⟨_, to_cut (fun hd => hx (of_above hD ha hd)) hm, hc⟩
  refine ⟨?root, ?parent, ?child, ?nodup, ?rank, ?contexts, ?owns⟩
  case root =>
    intro n' hn'
    obtain ⟨-, n, hn, rfl⟩ := of_cut hn'
    exact h.root n hn
  case parent =>
    intro x n' hn' hne
    obtain ⟨hx, n, hn, rfl⟩ := of_cut hn'
    obtain ⟨p, np, hp, hnp, hmem⟩ := h.parent x n hn hne
    refine ⟨p, _, hp, to_cut (fun hd => hx (hD p x ⟨n, hn, hp⟩ hd)) hnp, ?_⟩
    exact List.mem_filter.2 ⟨hmem, decide_eq_true hx⟩
  case child =>
    intro x n' c hn' hc
    obtain ⟨hx, n, hn, rfl⟩ := of_cut hn'
    obtain ⟨hc, hcD⟩ := List.mem_filter.1 hc
    exact parent_cut.2 ⟨h.child x n c hn hc, of_decide_eq_true hcD⟩
  case nodup =>
    intro x n' hn'
    obtain ⟨hx, n, hn, rfl⟩ := of_cut hn'
    exact (h.nodup x n hn).filter _
  case rank =>
    obtain ⟨d, hd⟩ := h.rank
    exact ⟨d, fun p x hp => hd p x (parent_cut.1 hp).1⟩
  case contexts =>
    intro x n' hn' hne c hc
    obtain ⟨hx, n, hn, rfl⟩ := of_cut hn'
    obtain ⟨ha, hc'⟩ := h.contexts x n hn hne c hc
    exact ⟨(above_cut hD hx).2 ha, hctx hx ha hc'⟩
  case owns =>
    intro x n' data s hn' hdata hs
    obtain ⟨hx, n, hn, rfl⟩ := of_cut hn'
    obtain ⟨m, data', hm, hdata', hnone⟩ := h.owns x n data s hn hdata hs
    -- whose variables are shared is among what the node refers to, so it is above and stays as well
    have hsx : s ∈ n.contexts := n.mem_contexts_of_shared hdata hs
    have hsD : ¬D s := by
      by_cases hxr : x = r
      · subst hxr
        rw [(h.root n hn).2.2, List.mem_singleton] at hsx
        rw [hsx]
        exact hx
      · exact fun hd => hx (of_above hD (h.contexts x n hn hxr s hsx).1 hd)
    exact ⟨_, data', to_cut hsD hm, hdata', hnone⟩

end

end Forest
end ReactiveView
