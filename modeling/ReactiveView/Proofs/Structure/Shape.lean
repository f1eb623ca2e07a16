import ReactiveView.Proofs.Rendering
import ReactiveView.Proofs.Structure.Frames

/-!
# The shape of the rendered tree

The shape of an engine is the forest of its nodes, without what evaluation and reports may change
(`Engine.shape`). Adding a node grafts a leaf, removing a node uproots it, and clearing a node
prunes it. The walks of the engine over its tree are bounded by the number of nodes; in a tree that
bound is no restriction, because no path is longer (`Engine.mem_postorder`).
-/

namespace ReactiveView

/-! ## Counting tenants -/

namespace Arena

variable {α : Type} {a : Arena α}

/-- A tenant is counted, and not any more after it was removed. -/
theorem size_remove (h : a.Valid) {id : NodeId} {v : α} (hv : a.get? id = some v) :
    (a.remove id).2.size + 1 = a.size := by
  have hslot := get?_eq_some.1 hv
  have hpos : 0 < a.size := by
    rw [h.size_eq, List.countP_pos_iff]
    exact ⟨_, Array.mem_toList_iff.2 (Array.mem_of_getElem? hslot), rfl⟩
  rcases remove_cases hv with ⟨-, heq⟩ | ⟨-, heq⟩
  · rw [heq]
    dsimp only
    omega
  · rw [heq]
    dsimp only
    omega

/-- There are at least as many tenants as different identities of tenants. -/
theorem length_le_size (ids : List NodeId) : ∀ {a : Arena α}, a.Valid → ids.Nodup →
    (∀ id ∈ ids, ∃ v, a.get? id = some v) → ids.length ≤ a.size := by
  induction ids with
  | nil => exact fun _ _ _ => Nat.zero_le _
  | cons id ids ih =>
    intro a h hnodup hlive
    obtain ⟨hid, hnodup⟩ := List.nodup_cons.1 hnodup
    obtain ⟨v, hv⟩ := hlive id List.mem_cons_self
    have hsize := size_remove h hv
    have hrest := ih (h.remove id) hnodup fun id' hid' => by
      obtain ⟨w, hw⟩ := hlive id' (List.mem_cons_of_mem id hid')
      have hne : id' ≠ id := by
        rintro rfl
        exact hid hid'
      exact ⟨w, by rw [get?_remove, if_neg hne, hw]⟩
    rw [List.length_cons]
    omega

end Arena

/-! ## Shapes -/

/-- A node without what evaluation and reports may change. -/
def RenderNode.shape (n : RenderNode) : RenderNode := { n.skeleton with flags := {} }

/-- Nodes with one skeleton have one shape. -/
theorem RenderNode.shape_of_skeleton {n n' : RenderNode} (h : n.skeleton = n'.skeleton) :
    n.shape = n'.shape := congrArg (fun n : RenderNode => { n with flags := {} }) h

namespace Engine

variable {e e' : Engine} {r a id x : NodeId}

/-- The forest of the nodes. -/
def shape (e : Engine) : Forest := fun id => (e.node? id).map RenderNode.shape

/-- A node is alive if its shape is. -/
theorem node?_of_shape {n : RenderNode} (h : e.shape id = some n) :
    ∃ m, e.node? id = some m ∧ m.shape = n := Option.map_eq_some_iff.1 h

/-- The shape of a node. -/
theorem shape_of_node? {n : RenderNode} (h : e.node? id = some n) : e.shape id = some n.shape := by
  rw [shape, h, Option.map_some]

/-- The live identities. -/
theorem contains_iff_shape : e.contains id = true ↔ ∃ n, e.shape id = some n := by
  unfold contains Arena.contains
  rw [Option.isSome_iff_exists]
  constructor
  · rintro ⟨n, hn⟩
    exact ⟨n.shape, shape_of_node? hn⟩
  · rintro ⟨n, hn⟩
    obtain ⟨m, hm, -⟩ := node?_of_shape hn
    exact ⟨m, hm⟩

/-- The identities that are not live. -/
theorem node?_eq_none : e.node? id = none ↔ e.shape id = none := Option.map_eq_none_iff.symm

/-- Engines with the same nodes have the same shape. -/
theorem shape_congr (h : e'.nodes = e.nodes) : e'.shape = e.shape := by
  unfold shape node?
  rw [h]

/-- A change of a node changes its shape. -/
theorem shape_modifyNode {f g : RenderNode → RenderNode}
    (hf : ∀ n, e.node? id = some n → (f n).shape = g n.shape) :
    (e.modifyNode id f).shape = e.shape.amend id g := by
  funext x
  unfold shape Forest.amend modifyNode node?
  rw [Arena.get?_modify]
  by_cases hx : x = id
  · rw [if_pos hx, if_pos hx, hx, Option.map_map, Option.map_map]
    cases hn : e.nodes.get? id with
    | none => rfl
    | some n => exact congrArg some (hf n hn)
  · rw [if_neg hx, if_neg hx]

/-- A change of a node that leaves its shape leaves the shape of the tree. -/
theorem shape_modifyNode_of_same {f : RenderNode → RenderNode}
    (hf : ∀ n, e.node? id = some n → (f n).shape = n.shape) :
    (e.modifyNode id f).shape = e.shape := by
  rw [shape_modifyNode (g := fun n => n) hf]
  funext x
  unfold Forest.amend
  split
  · exact Option.map_id'
  · rfl

/-- Adding a node grafts a leaf. -/
theorem shape_addNode (hvalid : e.nodes.Valid) (hroom : e.nodes.Roomy) (kind : RenderKind)
    (cursor : Cursor) (flags : NodeFlags) :
    let n : RenderNode :=
      { kind := kind.skeleton, parent := some cursor.parent, context := cursor.ctx,
        frame := cursor.frame }
    e.shape (e.addNode kind cursor flags).1 = none ∧
      (cursor.parent ≠ (e.addNode kind cursor flags).1 → (e.addNode kind cursor flags).2.shape =
        e.shape.graft (e.addNode kind cursor flags).1 n cursor.parent) := by
  let n : RenderNode :=
    { kind := kind, parent := some cursor.parent, context := cursor.ctx, flags := flags,
      frame := cursor.frame }
  have hid : (e.addNode kind cursor flags).1 = (e.nodes.insert n).1 := rfl
  have hnodes : (e.addNode kind cursor flags).2.nodes = (e.nodes.insert n).2.modify cursor.parent
      fun m => { m with children := m.children ++ [(e.nodes.insert n).1] } := by
    unfold addNode
    dsimp only
    split <;> rfl
  refine ⟨?_, fun hne => ?_⟩
  · rw [hid, shape, node?, Arena.get?_insert_new hvalid hroom, Option.map_none]
  · rw [hid] at hne ⊢
    funext x
    unfold shape Forest.graft node?
    rw [hnodes, Arena.get?_modify, Arena.get?_insert hvalid hroom,
      Arena.get?_insert hvalid hroom, if_neg hne]
    by_cases hx : x = (e.nodes.insert n).1
    · rw [if_pos hx, if_pos hx, if_neg fun h => hne (h.symm.trans hx)]
      rfl
    · rw [if_neg hx, if_neg hx]
      by_cases hp : x = cursor.parent
      · rw [if_pos hp, if_pos hp, hp, Option.map_map, Option.map_map]
        rfl
      · rw [if_neg hp, if_neg hp]

/-- The shape survives evaluation. -/
theorem shape_stable (V : Forest) : EvaluationStable fun e => e.shape = V where
  outside he hnodes _ _ _ := (shape_congr hnodes).trans he
  node hf he := (shape_modifyNode_of_same fun n hn => RenderNode.shape_of_skeleton (hf n hn)).trans he
  report {e id} he := by
    refine (shape_congr ?_).trans he
    unfold report
    split <;> rfl

/-- Dropping a node takes it away, and no other one. -/
theorem shape_dropNode (e : Engine) (id x : NodeId) :
    (e.dropNode id).shape x = if x = id then none else e.shape x := by
  have hpurge : (e.purge id).shape = e.shape := (shape_stable e.shape).purge id rfl
  have hremove : (fun x => ((((e.purge id).nodes.remove id).2.get? x)).map RenderNode.shape) =
      fun x => if x = id then none else e.shape x := by
    funext x
    rw [Arena.get?_remove, ← hpurge]
    split <;> rfl
  have hunbind (e : Engine) (n : RenderNode) : (e.unbindRef n id).shape = e.shape := by
    unfold unbindRef
    split
    · rfl
    · refine (shape_stable e.shape).modifyContext (fun data => ?_) rfl
      split <;> rfl
  refine congrFun (Eq.trans ?_ hremove) x
  unfold dropNode
  dsimp only
  split
  · rfl
  · rename_i n _
    split
    · exact (shape_congr rfl).trans (hunbind _ n)
    · exact hunbind _ n

end Engine

/-! ## Paths -/

namespace Forest

variable {V : Forest} {r p c y a x : NodeId} {k : Nat}

/-- A live node is so many steps above another one. -/
inductive Steps (V : Forest) (a : NodeId) : Nat → NodeId → Prop
  /-- No step. -/
  | zero {n : RenderNode} (hn : V a = some n) : Steps V a 0 a
  /-- A step from a parent. -/
  | succ {k : Nat} {p x : NodeId} (h : Steps V a k p) (hp : V.Parent p x) : Steps V a (k + 1) x

/-- An ancestor is some steps above. -/
theorem Tree.steps (h : V.Tree r) (ha : V.Above a x) : ∃ k, V.Steps a (k + 1) x := by
  induction ha with
  | single hp =>
    obtain ⟨np, hnp, -⟩ := h.parent_live hp
    exact ⟨0, .succ (.zero hnp) hp⟩
  | tail _ hp ih =>
    obtain ⟨k, hk⟩ := ih
    exact ⟨k + 1, .succ hk hp⟩

/-- What is some steps above is an ancestor. -/
theorem Steps.above (h : V.Steps a k x) : x = a ∨ V.Above a x := by
  induction h with
  | zero hn => exact .inl rfl
  | succ _ hp ih =>
    rcases ih with rfl | ha
    · exact .inr (.single hp)
    · exact .inr (.tail ha hp)

/-- The first step. -/
theorem Steps.head (h : V.Steps a (k + 1) x) :
    ∃ c, V.Parent a c ∧ V.Steps c k x := by
  induction k generalizing x with
  | zero =>
    obtain _ | ⟨h, hp⟩ := h
    obtain _ | _ := h
    obtain ⟨n, hn, hparent⟩ := hp
    exact ⟨x, ⟨n, hn, hparent⟩, .zero hn⟩
  | succ k ih =>
    obtain _ | ⟨h, hp⟩ := h
    obtain ⟨c, hc, hsteps⟩ := ih h
    exact ⟨c, hc, .succ hsteps hp⟩

/-- The nodes on a path are live, different from each other, and between its ends. -/
theorem Steps.path (h : V.Steps a k x) (ht : V.Tree r) : ∃ path : List NodeId,
    path.Nodup ∧ path.length = k + 1 ∧
      ∀ z ∈ path, (∃ n, V z = some n) ∧ (z = a ∨ V.Above a z) ∧ (z = x ∨ V.Above z x) := by
  induction h with
  | zero hn =>
    refine ⟨[a], List.nodup_singleton a, rfl, fun z hz => ?_⟩
    rw [List.mem_singleton] at hz
    exact ⟨⟨_, hz ▸ hn⟩, .inl hz, .inl hz⟩
  | succ h hp ih =>
    rename_i k p x
    obtain ⟨path, hnodup, hlength, hpath⟩ := ih
    have habove (z : NodeId) (hz : z ∈ path) : V.Above z x := by
      rcases (hpath z hz).2.2 with rfl | hz
      · exact .single hp
      · exact .tail hz hp
    have hx : x ∉ path := fun hx => ht.above_irrefl (habove x hx)
    refine ⟨x :: path, List.nodup_cons.2 ⟨hx, hnodup⟩, by rw [List.length_cons, hlength], ?_⟩
    intro z hz
    rcases List.mem_cons.1 hz with rfl | hz
    · refine ⟨⟨_, hp.choose_spec.1⟩, .inr ?_, .inl rfl⟩
      rcases h.above with rfl | ha
      · exact .single hp
      · exact .tail ha hp
    · exact ⟨(hpath z hz).1, (hpath z hz).2.1, .inr (habove z hz)⟩

/-- What is under a node is a child with what is under it. -/
theorem Tree.exists_child (ht : V.Tree r) {n : RenderNode} (hn : V y = some n) :
    (∃ c ∈ n.children, x = c ∨ V.Above c x) ↔ V.Above y x := by
  constructor
  · rintro ⟨c, hc, rfl | hx⟩
    · exact .single ((ht.mem_children_iff hn).1 hc)
    · exact .trans (.single ((ht.mem_children_iff hn).1 hc)) hx
  · intro hx
    obtain ⟨c, hc, hx⟩ := Relation.TransGen.head'_iff.1 hx
    refine ⟨c, (ht.mem_children_iff hn).2 hc, ?_⟩
    rcases Relation.reflTransGen_iff_eq_or_transGen.1 hx with rfl | hx
    · exact .inl rfl
    · exact .inr hx

/-- The subtrees of siblings have no node in common. -/
theorem Tree.siblings_disjoint (ht : V.Tree r) {c' : NodeId} (hc : V.Parent y c)
    (hc' : V.Parent y c') (hx : x = c ∨ V.Above c x) (hx' : x = c' ∨ V.Above c' x) : c = c' := by
  -- the child of a node on the way to another one is found from the other one upwards
  have huniq {x : NodeId} (ha : V.Above c x) : ∀ {c'}, V.Parent y c' → x = c' ∨ V.Above c' x →
      c = c' := by
    induction ha with
    | single hp =>
      rintro c' hc' (rfl | hx')
      · obtain rfl := hp.unique hc'
        exact absurd (.single hc) ht.above_irrefl
      · rcases (above_iff_of_parent hp).1 hx' with rfl | hx'
        · rfl
        · rcases (above_iff_of_parent hc).1 hx' with rfl | hx'
          · exact absurd (.single hc') ht.above_irrefl
          · exact absurd (.single hc') (ht.above_asymm hx')
    | tail hcp hp ih =>
      rintro c' hc' (rfl | hx')
      · obtain rfl := hp.unique hc'
        exact absurd (.single hc) (ht.above_asymm hcp)
      · exact ih hc' (((above_iff_of_parent hp).1 hx').imp Eq.symm id)
  rcases hx with rfl | hx
  · rcases hx' with rfl | hx'
    · rfl
    · rcases (above_iff_of_parent hc).1 hx' with rfl | hx'
      · exact absurd (.single hc') ht.above_irrefl
      · exact absurd (.single hc') (ht.above_asymm hx')
  · exact huniq hx hc' hx'

end Forest

/-! ## Walks -/

namespace Engine

variable {e e' : Engine} {V : Forest} {r p c y a id x : NodeId} {k : Nat}

/-- A part of an engine is as in a forest. -/
def AgreesUnder (e : Engine) (V : Forest) (y : NodeId) : Prop :=
  ∀ x, x = y ∨ V.Above y x → e.shape x = V x

/-- What agrees under a node agrees under its children. -/
theorem AgreesUnder.child (h : e.AgreesUnder V y) (hc : V.Parent y c) : e.AgreesUnder V c := by
  rintro x (rfl | hx)
  · exact h x (.inr (.single hc))
  · exact h x (.inr (.trans (.single hc) hx))

/-- No path is longer than there are nodes. -/
theorem AgreesUnder.lt_size (h : e.AgreesUnder V a) (hvalid : e.nodes.Valid) (ht : V.Tree r)
    (hk : V.Steps a k x) : k < e.nodes.size := by
  obtain ⟨path, hnodup, hlength, hpath⟩ := hk.path ht
  have hle := Arena.length_le_size path hvalid hnodup fun z hz => by
    obtain ⟨⟨n, hn⟩, hz, -⟩ := hpath z hz
    obtain ⟨m, hm, -⟩ := node?_of_shape ((h z hz).trans hn)
    exact ⟨m, hm⟩
  omega

/-- A walk stays under the node from which it starts. -/
theorem above_of_mem_postorderIn (ht : V.Tree r) (depth : Nat) : ∀ {y}, e.AgreesUnder V y →
    x ∈ e.postorderIn depth y → x = y ∨ V.Above y x := by
  induction depth with
  | zero => exact fun _ hx => (List.not_mem_nil hx).elim
  | succ depth ih =>
    intro y h hx
    unfold postorderIn at hx
    cases hm : e.node? y with
    | none =>
      rw [hm] at hx
      exact (List.not_mem_nil hx).elim
    | some m =>
      simp only [hm, List.mem_append, List.mem_flatMap, List.mem_singleton] at hx
      obtain ⟨c, hc, hx⟩ | hx := hx
      · have hV := (h y (.inl rfl)).symm.trans (shape_of_node? hm)
        have hyc := ht.child y _ c hV hc
        rcases ih (h.child hyc) hx with rfl | hx
        · exact .inr (.single hyc)
        · exact .inr (.trans (.single hyc) hx)
      · exact .inl hx

/-- A walk that is deep enough reaches everything under the node from which it starts. -/
theorem mem_postorderIn_of_steps (ht : V.Tree r) (depth : Nat) : ∀ {y k}, e.AgreesUnder V y →
    V.Steps y k x → k < depth → x ∈ e.postorderIn depth y := by
  induction depth with
  | zero => exact fun _ _ hlt => (Nat.not_lt_zero _ hlt).elim
  | succ depth ih =>
    intro y k h hk hlt
    obtain ⟨n, hn⟩ : ∃ n, V y = some n := by
      cases k with
      | zero =>
        obtain ⟨hn⟩ := hk
        exact ⟨_, hn⟩
      | succ k =>
        obtain ⟨c, hc, -⟩ := hk.head
        obtain ⟨np, hnp, -⟩ := ht.parent_live hc
        exact ⟨np, hnp⟩
    obtain ⟨m, hm, hshape⟩ := node?_of_shape ((h y (.inl rfl)).trans hn)
    unfold postorderIn
    simp only [hm, List.mem_append, List.mem_flatMap, List.mem_singleton]
    cases k with
    | zero =>
      obtain ⟨-⟩ := hk
      exact .inr rfl
    | succ k =>
      obtain ⟨c, hc, hsteps⟩ := hk.head
      refine .inl ⟨c, ?_, ih (h.child hc) hsteps (Nat.lt_of_succ_lt_succ hlt)⟩
      have hmem := (ht.mem_children_iff hn).2 hc
      rw [← hshape] at hmem
      exact hmem

/-- The walk through a subtree meets the node and everything under it. -/
theorem mem_postorder (hvalid : e.nodes.Valid) (ht : V.Tree r) (h : e.AgreesUnder V y)
    {n : RenderNode} (hn : V y = some n) : x ∈ e.postorder y ↔ x = y ∨ V.Above y x := by
  constructor
  · exact above_of_mem_postorderIn ht _ h
  · intro hx
    obtain ⟨k, hk⟩ : ∃ k, V.Steps y k x := by
      rcases hx with rfl | hx
      · exact ⟨0, .zero hn⟩
      · exact ⟨_, (ht.steps hx).choose_spec⟩
    exact mem_postorderIn_of_steps ht _ h hk (Nat.lt_succ_of_lt (h.lt_size hvalid ht hk))

/-- A walk upwards meets ancestors only. -/
theorem above_of_mem_ancestorsIn (length : Nat) : ∀ {x}, a ∈ e.ancestorsIn length x →
    e.shape.Above a x := by
  induction length with
  | zero => exact fun hmem => (List.not_mem_nil hmem).elim
  | succ length ih =>
    intro x hmem
    unfold ancestorsIn at hmem
    split at hmem
    · exact (List.not_mem_nil hmem).elim
    · rename_i p hp
      obtain ⟨m, hm, hp⟩ := Option.bind_eq_some_iff.1 hp
      have hparent : e.shape.Parent p x := ⟨m.shape, shape_of_node? hm, hp⟩
      rcases List.mem_cons.1 hmem with rfl | hmem
      · exact .single hparent
      · exact .tail (ih hmem) hparent

/-- A walk upwards meets the ancestors that are not further away than it is long. -/
theorem mem_ancestorsIn_of_steps (k : Nat) : ∀ {length x}, e.shape.Steps a (k + 1) x → k < length →
    a ∈ e.ancestorsIn length x := by
  induction k with
  | zero =>
    intro length x hk hlt
    obtain _ | ⟨h, m, hm, hp⟩ := hk
    obtain _ | _ := h
    obtain ⟨m', hm', rfl⟩ := node?_of_shape hm
    cases length with
    | zero => exact (Nat.not_lt_zero _ hlt).elim
    | succ length =>
      unfold ancestorsIn
      rw [hm', Option.bind_some, show m'.parent = some a from hp]
      exact List.mem_cons_self
  | succ k ih =>
    intro length x hk hlt
    obtain _ | ⟨h, m, hm, hp⟩ := hk
    rename_i p
    obtain ⟨m', hm', rfl⟩ := node?_of_shape hm
    cases length with
    | zero => exact (Nat.not_lt_zero _ hlt).elim
    | succ length =>
      unfold ancestorsIn
      rw [hm', Option.bind_some, show m'.parent = some p from hp]
      exact List.mem_cons_of_mem _ (ih h (Nat.lt_of_succ_lt_succ hlt))

/-- The ancestors that a walk upwards meets are those of the tree. -/
theorem mem_ancestors (hvalid : e.nodes.Valid) (ht : e.shape.Tree r) :
    a ∈ e.ancestors x ↔ e.shape.Above a x := by
  constructor
  · exact above_of_mem_ancestorsIn _
  · intro ha
    obtain ⟨k, hk⟩ := ht.steps ha
    have hlt := AgreesUnder.lt_size (fun _ _ => rfl) hvalid ht hk
    exact mem_ancestorsIn_of_steps k hk (Nat.lt_succ_of_lt (Nat.lt_of_succ_lt hlt))

/-! ## Removal -/

/-- Removing nodes in turn takes them away. -/
theorem shape_foldl_dropNode (ids : List NodeId) : ∀ e : Engine, ∀ x,
    (ids.foldl dropNode e).shape x = if x ∈ ids then none else e.shape x := by
  induction ids with
  | nil => exact fun _ _ => rfl
  | cons id ids ih =>
    intro e x
    rw [List.foldl_cons, ih, shape_dropNode]
    by_cases hx : x ∈ ids
    · rw [if_pos hx, if_pos (List.mem_cons_of_mem id hx)]
    · by_cases hid : x = id
      · rw [if_neg hx, if_pos hid, if_pos (hid ▸ List.mem_cons_self)]
      · rw [if_neg hx, if_neg hid, if_neg fun hmem => (List.mem_cons.1 hmem).elim hid hx]

open Classical in
/-- Removing a subtree takes the node away with everything under it. -/
theorem shape_dropSubtree (hvalid : e.nodes.Valid) (ht : V.Tree r) (h : e.AgreesUnder V y)
    {n : RenderNode} (hn : V y = some n) (x : NodeId) :
    (e.dropSubtree y).shape x = if x = y ∨ V.Above y x then none else e.shape x := by
  rw [dropSubtree, shape_foldl_dropNode]
  by_cases hx : x = y ∨ V.Above y x
  · rw [if_pos hx, if_pos ((mem_postorder hvalid ht h hn).2 hx)]
  · rw [if_neg hx, if_neg fun hmem => hx ((mem_postorder hvalid ht h hn).1 hmem)]

/-- Changing a node leaves what is under its children. -/
theorem agreesUnder_of_amend {e' : Engine} {p c : NodeId} {f : RenderNode → RenderNode}
    (ht : e.shape.Tree r) (hc : e.shape.Parent p c) (hshape : e'.shape = e.shape.amend p f) :
    e'.AgreesUnder e.shape c := by
  intro x hx
  rw [hshape, Forest.amend_of_ne]
  rintro rfl
  rcases hx with rfl | hx
  · exact ht.above_irrefl (.single hc)
  · exact ht.above_asymm hx (.single hc)

/-- Removing a node uproots it. -/
theorem shape_removeNode (hvalid : e.nodes.Valid) (ht : e.shape.Tree r)
    (hid : e.contains id = true) : (e.removeNode id).shape = e.shape.uproot id := by
  obtain ⟨n, hn⟩ := contains_iff_shape.1 hid
  obtain ⟨m, hm, rfl⟩ := node?_of_shape hn
  funext x
  unfold removeNode
  simp only [hm]
  cases hp : m.parent with
  | none =>
    -- nothing but the root has no parent, and everything else is under the root
    have hroot : id = r := by
      by_contra hne
      obtain ⟨p, np, hparent, -⟩ := ht.parent id _ hn hne
      exact Option.some_ne_none p (hparent.symm.trans hp)
    dsimp only
    rw [shape_dropSubtree hvalid ht (fun _ _ => rfl) hn]
    by_cases hx : x = id ∨ e.shape.Above id x
    · rw [if_pos hx, Forest.uproot, Forest.cut_of hx]
    · have hnone : e.shape x = none := by
        by_contra hlive
        obtain ⟨nx, hnx⟩ := Option.ne_none_iff_exists'.1 hlive
        exact hx (.inr (hroot ▸ ht.root_above hnx fun hxr => hx (.inl (hxr.trans hroot.symm))))
      rw [if_neg hx, Forest.uproot, Forest.cut_of_not hx, hnone, Option.map_none]
  | some p =>
    have hparent : e.shape.Parent p id := ⟨m.shape, hn, hp⟩
    have hfiltered : (e.modifyNode p fun n => { n with
        children := n.children.filter (· ≠ id) }).shape = e.shape.amend p fun n =>
          { n with children := n.children.filter (· ≠ id) } := shape_modifyNode fun _ _ => rfl
    -- the parent loses the child before the subtree goes
    have hagree := agreesUnder_of_amend ht hparent hfiltered
    dsimp only
    rw [shape_dropSubtree (valid_stable.closed.modifyChildren p _ hvalid) ht hagree hn]
    by_cases hx : x = id ∨ e.shape.Above id x
    · rw [if_pos hx, Forest.uproot, Forest.cut_of hx]
    · rw [if_neg hx, hfiltered]
      by_cases hxp : x = p
      · obtain ⟨np, hnp, -⟩ := ht.parent_live hparent
        rw [hxp, Forest.amend_self, hnp, Option.map_some, Forest.uproot_parent ht hparent hnp]
      · rw [Forest.amend_of_ne _ hxp]
        cases hnx : e.shape x with
        | none => rw [Forest.uproot, Forest.cut_of_not hx, hnx, Option.map_none]
        | some nx =>
          refine (Forest.cut_eq_of_disjoint ht hnx hx fun c hc hd => ?_).symm
          rcases hd with rfl | hd
          · exact hxp (hc.unique hparent)
          · exact hx (((Forest.above_iff_of_parent hc).1 hd).imp Eq.symm fun h => h)

/-- Removing a node that is gone changes nothing. -/
theorem removeNode_of_dead (hid : e.contains id = false) : e.removeNode id = e := by
  have hnone : e.node? id = none := by
    unfold contains Arena.contains at hid
    exact Option.isNone_iff_eq_none.1 (Option.isSome_eq_false_iff.1 hid)
  unfold removeNode
  rw [hnone]

open Classical in
/-- Removing the subtrees of some children takes them away with everything under them. -/
theorem shape_foldl_dropSubtree (ht : V.Tree r) (cs : List NodeId) : ∀ {e : Engine},
    e.nodes.Valid → cs.Nodup → (∀ c ∈ cs, V.Parent y c ∧ e.AgreesUnder V c) → ∀ x,
      (cs.foldl dropSubtree e).shape x =
        if ∃ c ∈ cs, x = c ∨ V.Above c x then none else e.shape x := by
  induction cs with
  | nil =>
    intro e _ _ _ x
    rw [if_neg fun ⟨c, hc, _⟩ => List.not_mem_nil hc]
    rfl
  | cons c cs ih =>
    intro e hvalid hnodup hcs x
    obtain ⟨hc, hnodup⟩ := List.nodup_cons.1 hnodup
    obtain ⟨hyc, hagree⟩ := hcs c List.mem_cons_self
    have hdropped := shape_dropSubtree hvalid ht hagree hyc.choose_spec.1
    have hrest := ih (valid_stable.closed.dropSubtree c hvalid) hnodup (fun c' hc' => ?_) x
    · rw [List.foldl_cons, hrest, hdropped]
      by_cases hx : x = c ∨ V.Above c x
      · rw [if_pos hx, ite_self, if_pos ⟨c, List.mem_cons_self, hx⟩]
      · rw [if_neg hx]
        refine if_congr ?_ rfl rfl
        simp only [List.mem_cons, exists_eq_or_imp, hx, false_or]
    · obtain ⟨hyc', hagree'⟩ := hcs c' (List.mem_cons_of_mem c hc')
      refine ⟨hyc', fun x hx => ?_⟩
      rw [hdropped, if_neg, hagree' x hx]
      intro hx'
      obtain rfl := ht.siblings_disjoint hyc' hyc hx hx'
      exact hc hc'

/-- Removing what is under a node prunes it. -/
theorem shape_clearChildren (hvalid : e.nodes.Valid) (ht : e.shape.Tree r) :
    (e.clearChildren y).shape = e.shape.prune y := by
  have hcleared : (e.modifyNode y fun n => { n with children := [] }).shape =
      e.shape.amend y fun n => { n with children := [] } := shape_modifyNode fun _ _ => rfl
  have hother {x : NodeId} (hx : ¬e.shape.Above y x) (hxy : x ≠ y) :
      e.shape x = e.shape.prune y x := by
    cases hn : e.shape x with
    | none => rw [Forest.prune, Forest.cut_of_not hx, hn, Option.map_none]
    | some n =>
      refine (Forest.cut_eq_of_disjoint ht hn hx fun c hc hd => ?_).symm
      exact ((Forest.above_iff_of_parent hc).1 hd).elim (fun h => hxy h.symm) hx
  funext x
  unfold clearChildren
  cases hm : e.node? y with
  | none =>
    -- a node that is gone has nothing under it
    have hdead : e.shape y = none := node?_eq_none.1 hm
    have hx : ¬e.shape.Above y x := fun hx => by
      obtain ⟨n, hn⟩ := ht.above_live hx
      rw [hdead] at hn
      cases hn
    change (e.modifyNode y fun n => { n with children := [] }).shape x = _
    rw [hcleared]
    by_cases hxy : x = y
    · rw [hxy, Forest.amend_self, hdead, Forest.prune, Forest.cut_of_not ht.above_irrefl, hdead]
      rfl
    · rw [Forest.amend_of_ne _ hxy, hother hx hxy]
  | some m =>
    have hn := shape_of_node? hm
    have hcs (c : NodeId) (hc : c ∈ m.children) : e.shape.Parent y c ∧
        (e.modifyNode y fun n => { n with children := [] }).AgreesUnder e.shape c := by
      have hyc : e.shape.Parent y c := ht.child y _ c hn hc
      exact ⟨hyc, agreesUnder_of_amend ht hyc hcleared⟩
    have hnodup : m.children.Nodup := ht.nodup y m.shape hn
    have hcleared_valid : (e.modifyNode y fun n => { n with children := [] }).nodes.Valid :=
      valid_stable.closed.modifyChildren y (fun _ => []) hvalid
    have hdropped := shape_foldl_dropSubtree ht m.children hcleared_valid hnodup hcs x
    have hall : (∃ c ∈ m.children, x = c ∨ e.shape.Above c x) ↔ e.shape.Above y x :=
      ht.exists_child (n := m.shape) hn
    -- the node has no children left when their subtrees go
    simp only [Option.map_some, Option.getD_some]
    rw [hdropped, hcleared]
    by_cases hx : e.shape.Above y x
    · rw [if_pos (hall.2 hx), Forest.prune_eq_none hx]
    · rw [if_neg fun h => hx (hall.1 h)]
      by_cases hxy : x = y
      · rw [hxy, Forest.amend_self, hn, Option.map_some, Forest.prune_self ht hn]
      · rw [Forest.amend_of_ne _ hxy, hother hx hxy]

end Engine
end ReactiveView
