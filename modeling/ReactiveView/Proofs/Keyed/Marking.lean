import ReactiveView.Proofs.Accounting
import ReactiveView.Proofs.Structure.Shape
import ReactiveView.Render.Update

/-!
# Marking what was moved

A subtree that was moved as it is is reported by its outermost reportable nodes (`Engine.Topmost`):
in a tree these are the nodes that the walk of the engine finds (`Engine.mem_topReportable`). Marking
leaves the tree, so marking several subtrees in turn marks the outermost reportable nodes that each
of them had at first, and no other node (`Engine.marked_foldl_markRebind`).
-/

namespace ReactiveView

/-- A node that is reported as moved. -/
def RenderNode.rebound (n : RenderNode) : RenderNode :=
  { n with flags := { n.flags with rebind := true } }

namespace Engine

variable {e e₁ e' : Engine} {r id x y z : NodeId} {P Q : NodeId → Prop}

/-! ## Outermost reportable nodes -/

/-- A node is an outermost reportable node of a subtree. -/
structure Topmost (e : Engine) (x y : NodeId) : Prop where
  /-- It is in the subtree. -/
  under : y = x ∨ e.shape.Above x y
  /-- The consumer is told of it. -/
  reportable : e.isReportable y = true
  /-- The consumer is not told of what is above it in the subtree. -/
  outermost : ∀ z, z = x ∨ e.shape.Above x z → e.shape.Above z y → e.isReportable z = false

/-- The nodes that are found are outermost reportable nodes. -/
theorem topmost_of_mem (ht : e.shape.Tree r) (depth : Nat) : ∀ {x},
    y ∈ e.topReportableIn depth x → e.Topmost x y := by
  induction depth with
  | zero => exact fun hy => (List.not_mem_nil hy).elim
  | succ depth ih =>
    intro x hy
    unfold topReportableIn at hy
    cases hn : e.node? x with
    | none =>
      rw [hn] at hy
      exact (List.not_mem_nil hy).elim
    | some n =>
      rw [hn] at hy
      dsimp only at hy
      split at hy
      · rename_i hreportable
        obtain rfl := List.mem_singleton.1 hy
        refine ⟨.inl rfl, isReportable_iff.2 ⟨n, hn, hreportable⟩, ?_⟩
        rintro z (rfl | hz) ha
        · exact absurd ha ht.above_irrefl
        · exact absurd ha (ht.above_asymm hz)
      · rename_i hreportable
        obtain ⟨c, hc, hy⟩ := List.mem_flatMap.1 hy
        have hparent : e.shape.Parent x c := ht.child x n.shape c (shape_of_node? hn) hc
        have htop := ih hy
        refine ⟨.inr ?_, htop.reportable, ?_⟩
        · rcases htop.under with rfl | ha
          · exact .single hparent
          · exact .trans (.single hparent) ha
        · rintro z (rfl | hz) ha
          · refine Bool.eq_false_iff.2 fun h => hreportable ?_
            obtain ⟨m, hm, hflag⟩ := isReportable_iff.1 h
            obtain rfl := Option.some.inj (hm.symm.trans hn)
            exact hflag
          · -- what is above the node in the subtree is under the same child
            obtain ⟨c', hc', hz⟩ := (ht.exists_child (n := n.shape) (shape_of_node? hn)).2 hz
            have hparent' : e.shape.Parent x c' := ht.child x n.shape c' (shape_of_node? hn) hc'
            have hy' : e.shape.Above c' y := by
              rcases hz with rfl | hz
              · exact ha
              · exact .trans hz ha
            obtain rfl := ht.siblings_disjoint hparent hparent' htop.under (.inr hy')
            exact htop.outermost z hz ha

/-- A walk that is deep enough finds the outermost reportable nodes. -/
theorem mem_topReportableIn_of_steps (ht : e.shape.Tree r) (depth : Nat) : ∀ {x k}, e.Topmost x y →
    e.shape.Steps x k y → k < depth → y ∈ e.topReportableIn depth x := by
  induction depth with
  | zero => exact fun _ _ hlt => (Nat.not_lt_zero _ hlt).elim
  | succ depth ih =>
    intro x k htop hk hlt
    unfold topReportableIn
    cases k with
    | zero =>
      obtain _ | _ := hk
      obtain ⟨n, hn, hreportable⟩ := isReportable_iff.1 htop.reportable
      rw [hn]
      dsimp only
      rw [if_pos hreportable]
      exact List.mem_singleton_self y
    | succ k =>
      obtain ⟨c, hc, hsteps⟩ := hk.head
      obtain ⟨n, hn, hmem⟩ := ht.parent_live hc
      obtain ⟨m, hm, rfl⟩ := node?_of_shape hn
      have hunder : ∀ {z}, z = c ∨ e.shape.Above c z → e.shape.Above x z := by
        rintro z (rfl | hz)
        · exact .single hc
        · exact .trans (.single hc) hz
      have hxy : e.shape.Above x y := hunder hsteps.above
      have hquiet : ¬m.flags.reportable = true := fun h =>
        Bool.false_ne_true ((htop.outermost x (.inl rfl) hxy).symm.trans
          (isReportable_iff.2 ⟨m, hm, h⟩))
      rw [hm]
      dsimp only
      rw [if_neg hquiet]
      refine List.mem_flatMap.2 ⟨c, hmem, ih ⟨hsteps.above, htop.reportable, fun z hz ha => ?_⟩
        hsteps (Nat.lt_of_succ_lt_succ hlt)⟩
      exact htop.outermost z (.inr (hunder hz)) ha

/-- In a tree, the walk through a subtree finds its outermost reportable nodes. -/
theorem mem_topReportable (hvalid : e.nodes.Valid) (ht : e.shape.Tree r) :
    y ∈ e.topReportableIn e.chainBound x ↔ e.Topmost x y := by
  refine ⟨topmost_of_mem ht _, fun htop => ?_⟩
  obtain ⟨k, hk⟩ : ∃ k, e.shape.Steps x k y := by
    rcases htop.under with rfl | ha
    · obtain ⟨n, hn, -⟩ := isReportable_iff.1 htop.reportable
      exact ⟨0, .zero (shape_of_node? hn)⟩
    · exact ⟨_, (ht.steps ha).choose_spec⟩
  have hlt := AgreesUnder.lt_size (fun _ _ => rfl) hvalid ht hk
  exact mem_topReportableIn_of_steps ht _ htop hk (Nat.lt_succ_of_lt hlt)

/-! ## Marks -/

/-- Nodes were marked as moved and reported, and nothing else has changed. -/
structure Marked (P : NodeId → Prop) (e e' : Engine) : Prop where
  /-- The nodes that were marked. -/
  marked : ∀ y n, P y → e.node? y = some n → e'.node? y = some n.rebound
  /-- The other nodes. -/
  other : ∀ y, ¬P y → e'.node? y = e.node? y
  /-- Nodes that were there are there. -/
  contains : ∀ y, e'.contains y = e.contains y
  /-- The nodes that are reported as changed: what is reported as new is not reported again. -/
  updated : ∀ y, y ∈ e'.shot.updated.toList ↔
    y ∈ e.shot.updated.toList ∨ P y ∧ y ∉ e.shot.created.toList
  /-- The new nodes. -/
  created : e'.shot.created = e.shot.created
  /-- The nodes that are gone. -/
  deleted : e'.shot.deleted = e.shot.deleted

/-- No node was marked. -/
theorem Marked.refl (h : ∀ y, ¬P y) (e : Engine) : Marked P e e where
  marked y _ hy _ := absurd hy (h y)
  other _ _ := rfl
  contains _ := rfl
  updated y := ⟨.inl, fun hy => hy.elim id fun hy => absurd hy.1 (h y)⟩
  created := rfl
  deleted := rfl

/-- Nodes were marked after others. -/
theorem Marked.trans (h₁ : Marked P e e₁) (h₂ : Marked Q e₁ e') :
    Marked (fun y => P y ∨ Q y) e e' where
  marked y n hy hn := by
    by_cases hP : P y
    · have hn₁ := h₁.marked y n hP hn
      by_cases hQ : Q y
      · -- a node that is marked twice is as if it was marked once
        exact h₂.marked y n.rebound hQ hn₁
      · exact (h₂.other y hQ).trans hn₁
    · exact h₂.marked y n (hy.resolve_left hP) ((h₁.other y hP).trans hn)
  other y hy := (h₂.other y fun hQ => hy (.inr hQ)).trans (h₁.other y fun hP => hy (.inl hP))
  contains y := (h₂.contains y).trans (h₁.contains y)
  updated y := by
    rw [h₂.updated, h₁.updated, h₁.created, or_and_right, or_assoc]
  created := h₂.created.trans h₁.created
  deleted := h₂.deleted.trans h₁.deleted

/-- Which nodes are meant matters only for nodes that are there. -/
theorem Marked.congr (h : Marked P e e') (hPQ : ∀ y, P y ↔ Q y) : Marked Q e e' := by
  have heq : P = Q := funext fun y => propext (hPQ y)
  rwa [← heq]

/-- A node that is there stays as it is, but for the mark. -/
theorem Marked.node (h : Marked P e e') {n : RenderNode} (hn : e.node? y = some n) :
    e'.node? y = some n ∨ e'.node? y = some n.rebound := by
  by_cases hy : P y
  · exact .inr (h.marked y n hy hn)
  · exact .inl ((h.other y hy).trans hn)

/-- Marking leaves the tree. -/
theorem Marked.shape (h : Marked P e e') : e'.shape = e.shape := by
  funext y
  cases hn : e.node? y with
  | none =>
    have hdead : e'.node? y = none := by
      have hcontains := h.contains y
      unfold Engine.contains Arena.contains at hcontains
      rw [show e.nodes.get? y = none from hn] at hcontains
      exact Option.isNone_iff_eq_none.1 (Option.isSome_eq_false_iff.1 hcontains)
    rw [Engine.shape, Engine.shape, hdead, hn]
  | some n =>
    rcases h.node hn with hn' | hn'
    · rw [shape_of_node? hn, shape_of_node? hn']
    · rw [shape_of_node? hn, shape_of_node? hn']
      rfl

/-- Marking leaves it to nodes whether they are reportable. -/
theorem Marked.isReportable (h : Marked P e e') (y : NodeId) :
    e'.isReportable y = e.isReportable y := by
  cases hn : e.node? y with
  | none =>
    have hdead := node?_eq_none.2 ((congrFun h.shape y).trans (node?_eq_none.1 hn))
    rw [Engine.isReportable, Engine.isReportable, hdead, hn]
  | some n =>
    unfold Engine.isReportable
    rw [hn]
    rcases h.node hn with hn' | hn'
    · rw [hn']
    · rw [hn']
      rfl

/-- The outermost reportable nodes depend on the tree and on what is reportable. -/
theorem Topmost.congr (h : e.Topmost x y) (habove : ∀ a z, e'.shape.Above a z ↔ e.shape.Above a z)
    (hreportable : ∀ z, e'.isReportable z = e.isReportable z) : e'.Topmost x y where
  under := h.under.imp_right (habove x y).2
  reportable := (hreportable y).trans h.reportable
  outermost z hz ha := by
    rw [hreportable]
    exact h.outermost z (hz.imp_right (habove x z).1) ((habove z y).1 ha)

/-- Marking a node changes its flag. -/
theorem node?_flagRebind (e : Engine) (id y : NodeId) : (e.flagRebind id).node? y =
    if y = id then (e.node? id).map RenderNode.rebound else e.node? y :=
  node?_modifyNode e id y _

/-- Marking a node that is not reported as gone. -/
theorem marked_flagRebind (hid : id ∉ e.shot.deleted.toList) :
    Marked (fun y => y = id) e (e.flagRebind id) where
  marked y n hy hn := by
    rw [node?_flagRebind, if_pos hy, ← hy, hn, Option.map_some]
  other y hy := by rw [node?_flagRebind, if_neg hy]
  contains y := Arena.contains_modify id y _
  updated y := by
    change y ∈ (e.shot.update id).updated.toList ↔ _
    refine ⟨fun hy => ?_, ?_⟩
    · obtain hy | ⟨rfl, hnew, -⟩ := Shot.of_mem_updated_update hy
      · exact .inl hy
      · exact .inr ⟨rfl, hnew⟩
    unfold Shot.update
    split
    · rename_i hknown
      rintro (hy | ⟨rfl, hnew⟩)
      · exact hy
      · simp only [OrderedSet.contains, Bool.or_eq_true, List.contains_iff_mem] at hknown
        exact absurd hid (not_not_intro (hknown.resolve_left hnew))
    · rintro (hy | ⟨rfl, -⟩)
      · exact OrderedSet.mem_insert.2 (.inl hy)
      · exact OrderedSet.mem_insert.2 (.inr rfl)
  created := Shot.created_update e.shot id
  deleted := Shot.deleted_update e.shot id

/-- Marking nodes that are not reported as gone. -/
theorem marked_foldl_flagRebind (ids : List NodeId) : ∀ {e : Engine},
    (∀ id ∈ ids, id ∉ e.shot.deleted.toList) →
      Marked (· ∈ ids) e (ids.foldl flagRebind e) := by
  induction ids with
  | nil => exact fun {e} _ => .refl (fun _ => List.not_mem_nil) e
  | cons id ids ih =>
    intro e hids
    have hfirst := marked_flagRebind (hids id List.mem_cons_self)
    have hrest := ih (e := e.flagRebind id) fun id' hid' => by
      rw [hfirst.deleted]
      exact hids id' (List.mem_cons_of_mem id hid')
    exact (hfirst.trans hrest).congr fun y => List.mem_cons.symm

/-- Marking a node leaves the outermost reportable nodes of every subtree. -/
theorem topReportableIn_flagRebind (id : NodeId) (depth : Nat) : ∀ x,
    (e.flagRebind id).topReportableIn depth x = e.topReportableIn depth x := by
  induction depth with
  | zero => exact fun _ => rfl
  | succ depth ih =>
    intro x
    have hrest (n : RenderNode) : n.children.flatMap ((e.flagRebind id).topReportableIn depth) =
        n.children.flatMap (e.topReportableIn depth) := congrArg n.children.flatMap (funext ih)
    unfold topReportableIn
    rw [node?_flagRebind]
    by_cases hx : x = id
    · rw [if_pos hx, hx]
      cases e.node? id with
      | none => rfl
      | some n =>
        dsimp only [Option.map_some, RenderNode.rebound]
        rw [hrest]
    · rw [if_neg hx]
      cases e.node? x with
      | none => rfl
      | some n =>
        dsimp only
        rw [hrest]

/-- Marking subtrees in turn marks the nodes that stand for them at first. -/
theorem foldl_markRebind_eq (moved : List NodeId) : ∀ e : Engine, moved.foldl markRebind e =
    (moved.flatMap (e.topReportableIn e.chainBound)).foldl flagRebind e := by
  induction moved with
  | nil => exact fun _ => rfl
  | cons x moved ih =>
    intro e
    have hsame (ids : List NodeId) : (ids.foldl flagRebind e).chainBound = e.chainBound ∧
        ∀ depth x, (ids.foldl flagRebind e).topReportableIn depth x = e.topReportableIn depth x := by
      refine List.foldlRecOn (motive := fun e' : Engine => e'.chainBound = e.chainBound ∧
        ∀ depth x, e'.topReportableIn depth x = e.topReportableIn depth x) ids _
          ⟨rfl, fun _ _ => rfl⟩ fun e' h id _ => ⟨?_, fun depth x => ?_⟩
      · rw [← h.1]
        exact congrArg (· + 1) (Arena.size_modify id _)
      · rw [topReportableIn_flagRebind, h.2]
    obtain ⟨hbound, htop⟩ := hsame (e.topReportableIn e.chainBound x)
    have hwalk : (e.markRebind x).topReportableIn (e.markRebind x).chainBound =
        e.topReportableIn e.chainBound := by
      funext z
      change ((e.topReportableIn e.chainBound x).foldl flagRebind e).topReportableIn _ z = _
      rw [htop]
      exact congrArg (e.topReportableIn · z) hbound
    rw [List.foldl_cons, ih, hwalk, List.flatMap_cons, List.foldl_append]
    rfl

/-- Marking subtrees in turn marks their outermost reportable nodes. -/
theorem marked_foldl_markRebind (hvalid : e.nodes.Valid) (ht : e.shape.Tree r)
    (hgone : ∀ x ∈ e.shot.deleted.toList, e.nodes.Spent x) (moved : List NodeId) :
    Marked (fun y => ∃ x ∈ moved, e.Topmost x y) e (moved.foldl markRebind e) := by
  have hmem (y : NodeId) : y ∈ moved.flatMap (e.topReportableIn e.chainBound) ↔
      ∃ x ∈ moved, e.Topmost x y := by
    simp only [List.mem_flatMap, mem_topReportable hvalid ht]
  rw [foldl_markRebind_eq]
  refine (marked_foldl_flagRebind _ fun y hy hdeleted => ?_).congr hmem
  obtain ⟨x, -, htop⟩ := (hmem y).1 hy
  obtain ⟨n, hn, -⟩ := isReportable_iff.1 htop.reportable
  exact Option.some_ne_none n (hn.symm.trans (hgone y hdeleted).get?)

end Engine
end ReactiveView
