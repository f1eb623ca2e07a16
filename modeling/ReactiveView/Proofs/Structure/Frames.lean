import ReactiveView.Proofs.Structure.Forest

/-!
# What changes of a forest leave alone

Building under a node puts new nodes at the end of its children and changes nothing else
(`Forest.Extends`). Updating a node may change the node and everything under it, and nothing else
(`Forest.Confined`). Both are closed under what follows each other, and building under a node that is
itself new is building under its parent (`Extends.inside`).
-/

namespace ReactiveView.Forest

variable {V V' V₁ V₂ : Forest} {r p y a id x : NodeId} {n : RenderNode} {new new' : List NodeId}

/-! ## Changes below a node -/

/-- Only a node and what is under it has changed. -/
structure Confined (V V' : Forest) (y : NodeId) : Prop where
  /-- Everything else is as before. -/
  outside : ∀ x n, V x = some n → x ≠ y → ¬V.Above y x → V' x = some n
  /-- The node itself stays in its place. -/
  self : ∀ n, V y = some n → ∃ n', V' y = some n' ∧ n'.parent = n.parent
  /-- New nodes are under the node, and so are those that were under it and have stayed. -/
  under : ∀ x n', V' x = some n' → (∀ n, V x = some n → V.Above y x) → V'.Above y x

namespace Confined

/-- Nothing has changed. -/
theorem refl (V : Forest) (y : NodeId) : Confined V V y where
  outside _ _ hn _ _ := hn
  self n hn := ⟨n, hn, rfl⟩
  under _ n' hn' hx := hx n' hn'

/-- What is not under the node stays in its place. -/
theorem live (h : Confined V V' y) (hx : V x = some n) (hy : ¬V.Above y x) :
    ∃ n', V' x = some n' ∧ n'.parent = n.parent := by
  by_cases hxy : x = y
  · rw [hxy] at hx ⊢
    exact h.self n hx
  · exact ⟨n, h.outside x n hx hxy hy, rfl⟩

/-- What is not under the node has the parent of before. -/
theorem parent_iff (h : Confined V V' y) (hx : V x = some n) (hy : ¬V.Above y x) :
    V'.Parent p x ↔ V.Parent p x := by
  obtain ⟨n', hn', hparent⟩ := h.live hx hy
  constructor
  · rintro ⟨m, hm, hp⟩
    rw [hn', Option.some.injEq] at hm
    exact ⟨n, hx, by rw [← hparent, hm, hp]⟩
  · rintro ⟨m, hm, hp⟩
    rw [hx, Option.some.injEq] at hm
    exact ⟨n', hn', by rw [hparent, hm, hp]⟩

/-- What is not under the node has the ancestors of before. -/
theorem above_iff (h : Confined V V' y) (ht : V.Tree r) (hx : V x = some n)
    (hy : ¬V.Above y x) : V'.Above a x ↔ V.Above a x := by
  constructor
  · intro ha
    induction ha generalizing n with
    | single hp => exact .single ((h.parent_iff hx hy).1 hp)
    | tail _ hp ih =>
      have hp := (h.parent_iff hx hy).1 hp
      obtain ⟨np, hnp, -⟩ := ht.parent_live hp
      exact .tail (ih hnp fun hq => hy (.tail hq hp)) hp
  · intro ha
    induction ha generalizing n with
    | single hp => exact .single ((h.parent_iff hx hy).2 hp)
    | tail _ hp ih =>
      obtain ⟨np, hnp, -⟩ := ht.parent_live hp
      exact .tail (ih hnp fun hq => hy (.tail hq hp)) ((h.parent_iff hx hy).2 hp)

/-- One change after another. -/
theorem trans (h₁ : Confined V V₁ y) (h₂ : Confined V₁ V₂ y) (ht : V.Tree r) :
    Confined V V₂ y where
  outside x n hn hxy hy := by
    have hn₁ := h₁.outside x n hn hxy hy
    exact h₂.outside x n hn₁ hxy fun hy₁ => hy ((h₁.above_iff ht hn hy).1 hy₁)
  self n hn := by
    obtain ⟨n₁, hn₁, hp₁⟩ := h₁.self n hn
    obtain ⟨n₂, hn₂, hp₂⟩ := h₂.self n₁ hn₁
    exact ⟨n₂, hn₂, hp₂.trans hp₁⟩
  under x n₂ hn₂ hx := h₂.under x n₂ hn₂ fun n₁ hn₁ => h₁.under x n₁ hn₁ hx

/-- Where the children of a node are concerned, the node and what is around it is as before. -/
theorem of_child {c : NodeId} (h : Confined V V' c) (ht : V.Tree r) (hc : V.Parent y c) :
    Confined V V' y ∧ V' y = V y := by
  have hcy : ¬V.Above c y := fun ha => ht.above_asymm ha (.single hc)
  have hne : y ≠ c := by
    rintro rfl
    exact ht.above_irrefl (.single hc)
  obtain ⟨ny, hny, -⟩ := ht.parent_live hc
  have hy := h.outside y ny hny hne hcy
  have hyc : V'.Above y c :=
    (h.above_iff ht hc.choose_spec.1 ht.above_irrefl).2 (.single hc)
  refine ⟨⟨fun x n hn hxy hx => ?_, fun n hn => ?_, fun x n' hn' hx => ?_⟩, hy.trans hny.symm⟩
  · refine h.outside x n hn ?_ fun hcx => hx (.trans (.single hc) hcx)
    rintro rfl
    exact hx (.single hc)
  · rw [hny, Option.some.injEq] at hn
    exact ⟨ny, hy, by rw [hn]⟩
  · by_cases hcx : ∀ n, V x = some n → V.Above c x
    · exact .trans hyc (h.under x n' hn' hcx)
    · obtain ⟨n, hn, hcx⟩ : ∃ n, V x = some n ∧ ¬V.Above c x := by
        simpa only [Classical.not_forall, exists_prop] using hcx
      exact (h.above_iff ht hn hcx).2 (hx n hn)

end Confined

/-- A node that keeps its parent is changed. -/
theorem confined_amend {f : RenderNode → RenderNode}
    (hf : ∀ n, V y = some n → (f n).parent = n.parent) : Confined V (V.amend y f) y where
  outside x n hn hxy _ := by rw [amend_of_ne f hxy, hn]
  self n hn := ⟨f n, by rw [amend_self, hn, Option.map_some], hf n hn⟩
  under x n' hn' hx := by
    rw [above_amend hf]
    by_cases hxy : x = y
    · rw [hxy, amend_self] at hn'
      obtain ⟨n, hn, -⟩ := Option.map_eq_some_iff.1 hn'
      rw [hxy] at hx ⊢
      exact hx n hn
    · rw [amend_of_ne f hxy] at hn'
      exact hx n' hn'

/-! ## Building under a node -/

/-- A node has got further children, and everything else is as before or new and under it. -/
structure Extends (V V' : Forest) (p : NodeId) (new : List NodeId) : Prop where
  /-- What was there before. -/
  old : ∀ x n, V x = some n →
    V' x = some { n with children := n.children ++ if x = p then new else [] }
  /-- What is new. -/
  under : ∀ x n', V' x = some n' → V x = none → V'.Above p x

namespace Extends

/-- Nothing was built. -/
theorem refl (V : Forest) (p : NodeId) : Extends V V p [] where
  old x n hn := by
    rw [ite_self, List.append_nil]
    exact hn
  under x n' hn' hn := by
    rw [hn] at hn'
    cases hn'

/-- What was there has the parents of before. -/
theorem parent (h : Extends V V' p new) {q : NodeId} (hq : V.Parent q x) : V'.Parent q x := by
  obtain ⟨n, hn, hq⟩ := hq
  exact ⟨_, h.old x n hn, hq⟩

/-- What was there has the ancestors of before. -/
theorem above (h : Extends V V' p new) (ha : V.Above a x) : V'.Above a x :=
  ha.mono fun _ _ hq => h.parent hq

/-- Building changes nothing but what is under the node. -/
theorem confined (h : Extends V V' p new) : Confined V V' p where
  outside x n hn hxp _ := by
    have hn' := h.old x n hn
    rw [if_neg hxp, List.append_nil] at hn'
    exact hn'
  self n hn := ⟨_, h.old p n hn, rfl⟩
  under x n' hn' hx := by
    cases hn : V x with
    | none => exact h.under x n' hn' hn
    | some n => exact h.above (hx n hn)

/-- What was there has no ancestors but those of before. -/
theorem above_iff (h : Extends V V' p new) (ht : V.Tree r) (hn : V x = some n) :
    V'.Above a x ↔ V.Above a x := by
  refine ⟨fun ha => ?_, h.above⟩
  have hparent {q x : NodeId} {n : RenderNode} (hn : V x = some n) (hq : V'.Parent q x) :
      V.Parent q x := by
    obtain ⟨n', hn', hq⟩ := hq
    rw [h.old x n hn, Option.some.injEq] at hn'
    rw [← hn'] at hq
    exact ⟨n, hn, hq⟩
  induction ha generalizing n with
  | single hq => exact .single (hparent hn hq)
  | tail _ hq ih =>
    have hq := hparent hn hq
    obtain ⟨m, hm, -⟩ := ht.parent_live hq
    exact .tail (ih hm) hq

/-- If the node has got no further child, nothing was built. -/
theorem eq_of_nil (h : Extends V V' p []) (ht : V.Tree r) (ht' : V'.Tree r)
    (hp : ∃ np, V p = some np) : V' = V := by
  have hsame {x : NodeId} {n : RenderNode} (hn : V x = some n) : V' x = some n := by
    have hn' := h.old x n hn
    rwa [ite_self, List.append_nil] at hn'
  -- on the way down from the node, children of what was there were there
  have hchild {q x : NodeId} {nq : RenderNode} (hq : V q = some nq) (hx : V'.Parent q x) :
      ∃ n, V x = some n := by
    have hmem := (ht'.mem_children_iff (hsame hq)).2 hx
    exact ⟨_, (ht.child q nq x hq hmem).choose_spec.1⟩
  have hnew {x : NodeId} (ha : V'.Above p x) : ∃ n, V x = some n := by
    induction ha with
    | single hx => exact hchild hp.choose_spec hx
    | tail _ hx ih => exact hchild ih.choose_spec hx
  funext x
  cases hn : V x with
  | some n => exact hsame hn
  | none =>
    cases hn' : V' x with
    | none => rfl
    | some n' =>
      obtain ⟨n, hlive⟩ := hnew (h.under x n' hn' hn)
      rw [hn] at hlive
      cases hlive

/-- Building twice under one node. -/
theorem trans (h₁ : Extends V V₁ p new) (h₂ : Extends V₁ V₂ p new') :
    Extends V V₂ p (new ++ new') where
  old x n hn := by
    rw [h₂.old x _ (h₁.old x n hn)]
    by_cases hx : x = p
    · simp only [if_pos hx, List.append_assoc]
    · simp only [if_neg hx, List.append_nil]
  under x n₂ hn₂ hn := by
    cases hn₁ : V₁ x with
    | none => exact h₂.under x n₂ hn₂ hn₁
    | some n₁ => exact h₂.above (h₁.under x n₁ hn₁ hn)

/-- A new leaf. -/
theorem graft (hid : V id = none) (hparent : n.parent = some p) :
    Extends V (V.graft id n p) p [id] where
  old x m hm := to_graft hid hm
  under x m' hm' hm := by
    obtain ⟨rfl, rfl⟩ | ⟨-, m, hm', -⟩ := of_graft hm'
    · exact .single ⟨_, graft_self, hparent⟩
    · rw [hm] at hm'
      cases hm'

/-- Changes of what was built, and under it. -/
theorem inside {q : NodeId} (h₁ : Extends V V₁ p new) (h₂ : Confined V₁ V₂ q) (hq : V q = none)
    (ha : V₁.Above p q) (ht : V.Tree r) (ht₁ : V₁.Tree r) : Extends V V₂ p new where
  old x n hn := by
    refine h₂.outside x _ (h₁.old x n hn) ?_ fun hqx => ?_
    · rintro rfl
      rw [hq] at hn
      cases hn
    · obtain ⟨m, hm⟩ := ht.above_live ((h₁.above_iff ht hn).1 hqx)
      rw [hq] at hm
      cases hm
  under x n₂ hn₂ hn := by
    obtain ⟨nq, hnq⟩ := ha.live
    have hpq : V₂.Above p q := (h₂.above_iff ht₁ hnq ht₁.above_irrefl).2 ha
    by_cases hqx : ∀ n, V₁ x = some n → V₁.Above q x
    · exact .trans hpq (h₂.under x n₂ hn₂ hqx)
    · obtain ⟨n₁, hn₁, hqx⟩ : ∃ n, V₁ x = some n ∧ ¬V₁.Above q x := by
        simpa only [Classical.not_forall, exists_prop] using hqx
      exact (h₂.above_iff ht₁ hn₁ hqx).2 (h₁.under x n₁ hn₁ hn)

end Extends

/-! ## Taking subtrees away -/

/-- The forest without what is under a node. -/
noncomputable def prune (V : Forest) (y : NodeId) : Forest := V.cut (V.Above y)

/-- The forest without a node and what is under it. -/
noncomputable def uproot (V : Forest) (c : NodeId) : Forest := V.cut fun x => x = c ∨ V.Above c x

/-- What is under a node is closed downwards. -/
theorem closed_above (p x : NodeId) (hp : V.Parent p x) (h : V.Above y p) : V.Above y x :=
  .tail h hp

/-- So is a node with what is under it. -/
theorem closed_self (p x : NodeId) (hp : V.Parent p x) (h : p = y ∨ V.Above y p) :
    x = y ∨ V.Above y x := by
  rcases h with rfl | h
  · exact .inr (.single hp)
  · exact .inr (.tail h hp)

/-- Taking away what is under a node keeps trees. -/
theorem Tree.prune (h : V.Tree r) : (V.prune y).Tree r := h.cut closed_above

/-- Taking away a node with what is under it keeps trees. -/
theorem Tree.uproot {c : NodeId} (h : V.Tree r) : (V.uproot c).Tree r := h.cut closed_self

/-- A part that is taken away leaves nodes alone that have no children in it. -/
theorem cut_eq_of_disjoint {D : NodeId → Prop} (ht : V.Tree r) (hn : V x = some n) (hx : ¬D x)
    (hD : ∀ c, V.Parent x c → ¬D c) : V.cut D x = some n := by
  have hchildren (c : NodeId) (hc : c ∈ n.children) : ¬D c := hD c (ht.child x n c hn hc)
  rw [to_cut_filter (k := fun _ => true) hx hn fun c hc => iff_of_true rfl (hchildren c hc),
    List.filter_eq_self.2 fun _ _ => rfl]

/-- Changes by taking a part away are confined to a node if the part is under it. -/
theorem confined_cut {D : NodeId → Prop} (ht : V.Tree r)
    (hD : ∀ p x, V.Parent p x → D p → D x) (hy : ∀ x, D x → V.Above y x)
    (hchild : ∀ x c, V.Parent x c → x ≠ y → D c → D x) : Confined V (V.cut D) y where
  outside x n hn hxy hx :=
    cut_eq_of_disjoint ht hn (fun hd => hx (hy x hd)) fun c hc hd =>
      hx (hy x (hchild x c hc hxy hd))
  self n hn := ⟨_, to_cut (fun hd => ht.above_irrefl (hy y hd)) hn, rfl⟩
  under x n' hn' hx := by
    obtain ⟨hxD, n, hn, -⟩ := of_cut hn'
    exact (above_cut hD hxD).2 (hx n hn)

/-- Taking away what is under a node is confined to it. -/
theorem confined_prune (ht : V.Tree r) : Confined V (V.prune y) y :=
  confined_cut ht closed_above (fun _ h => h) fun _ _ hc hxy hd =>
    ((above_iff_of_parent hc).1 hd).resolve_left hxy.symm

/-- A node without what is under it has no children. -/
theorem prune_self (ht : V.Tree r) (hn : V y = some n) :
    V.prune y y = some { n with children := [] } := by
  have hchildren (c : NodeId) (hc : c ∈ n.children) : ¬¬V.Above y c := fun h =>
    h (.single (ht.child y n c hn hc))
  rw [prune, to_cut_filter (k := fun _ => false) ht.above_irrefl hn fun c hc =>
    iff_of_false Bool.false_ne_true (hchildren c hc),
    List.filter_eq_nil_iff.2 fun _ _ => Bool.false_ne_true]

/-- Nothing is left under the node. -/
theorem prune_eq_none (hx : V.Above y x) : V.prune y x = none := cut_of hx

/-- Taking away a child is confined to its parent. -/
theorem confined_uproot {c : NodeId} (ht : V.Tree r) (hc : V.Parent y c) :
    Confined V (V.uproot c) y := by
  refine confined_cut ht closed_self (fun x hx => ?_) fun x c' hc' hxy hd => ?_
  · rcases hx with rfl | hx
    · exact .single hc
    · exact .trans (.single hc) hx
  · rcases hd with rfl | hd
    · exact absurd (hc'.unique hc) hxy
    · rcases (above_iff_of_parent hc').1 hd with rfl | hd
      · exact .inl rfl
      · exact .inr hd

/-- The parent of a child that is taken away. -/
theorem uproot_parent {c : NodeId} (ht : V.Tree r) (hc : V.Parent y c) (hn : V y = some n) :
    V.uproot c y = some { n with children := n.children.filter (· ≠ c) } := by
  have hy : ¬(y = c ∨ V.Above c y) := by
    rintro (rfl | ha)
    · exact ht.above_irrefl (.single hc)
    · exact ht.above_asymm ha (.single hc)
  refine to_cut_filter hy hn fun c' hc' => ?_
  rw [decide_eq_true_eq]
  refine not_congr ⟨.inl, fun h => ?_⟩
  rcases h with rfl | h
  · rfl
  · rcases (above_iff_of_parent (ht.child y n c' hn hc')).1 h with rfl | h
    · exact absurd (.inl rfl) hy
    · exact absurd (.inr h) hy

/-- What was built is taken away again. -/
theorem Extends.uproot {c : NodeId} (h : Extends V V' p [c]) (ht : V.Tree r) (hc : V c = none) :
    Extends V (V'.uproot c) p [] where
  old x n hn := by
    have hold {x : NodeId} {n : RenderNode} (hn : V x = some n) : ¬(x = c ∨ V'.Above c x) := by
      rintro (rfl | ha)
      · rw [hc] at hn
        cases hn
      · obtain ⟨m, hm⟩ := ht.above_live ((h.above_iff ht hn).1 ha)
        rw [hc] at hm
        cases hm
    have hkept (c' : NodeId) (hc' : c' ∈ n.children) : ¬(c' = c ∨ V'.Above c c') :=
      hold (ht.child x n c' hn hc').choose_spec.1
    have hne (c' : NodeId) (hc' : c' ∈ n.children) : c' ≠ c := fun heq => hkept c' hc' (.inl heq)
    have hcut := to_cut_filter (k := (· ≠ c)) (D := fun x => x = c ∨ V'.Above c x)
      (hold hn) (h.old x n hn) fun c' hc' => by
      rw [decide_eq_true_eq]
      rcases List.mem_append.1 hc' with hc' | hc'
      · exact iff_of_true (hne c' hc') (hkept c' hc')
      · split at hc'
        · rw [List.mem_singleton] at hc'
          exact iff_of_false (fun h => h hc') fun h => h (.inl hc')
        · cases hc'
    rw [Forest.uproot, hcut]
    congr 2
    rw [List.filter_append, List.filter_eq_self.2 fun c' hc' => decide_eq_true (hne c' hc')]
    congr 1
    split
    · rw [List.filter_cons_of_neg (by simp), List.filter_nil]
    · rfl
  under x n' hn' hn := by
    obtain ⟨hx, n₁, hn₁, -⟩ := of_cut hn'
    exact (above_cut closed_self hx).2 (h.under x n₁ hn₁ hn)

end ReactiveView.Forest
