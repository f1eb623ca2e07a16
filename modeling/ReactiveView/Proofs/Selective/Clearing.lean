import ReactiveView.Proofs.Selective.Looping

/-!
# Taking nodes out of a laid-out tree

While work on a node goes on, everything under it may change, and the frames that were made for it or
for what is under it (`Engine.Pursues`). What is seen from the node stays the same all the time, and
what it has read stays recorded.

What is under the node may be taken away, all of it (`Works.clear`) or one child after another
(`Works.remove`). Everything else in the tree stays laid out.
-/

namespace ReactiveView

/-- The label of a node that was known says what it is under. -/
theorem Plan.Extends.under {g g' : Plan} {e : Engine} (h : g.Extends e g') {c x : NodeId}
    (hx : e.Known x) : g'.Under c x ↔ g.Under c x := by
  unfold Plan.Under
  rw [h.label hx]

/-- A frame was made for what is under a node. -/
def Plan.Inside (g : Plan) (e : Engine) (c : NodeId) (f : FrameId) : Prop :=
  e.contains (g.home f) = true ∧ g.Under c (g.home f)

namespace Engine

variable {e e' e₁ e₂ : Engine} {g g' g₁ g₂ : Plan} {root id c p x : NodeId} {f : FrameId} {b : Body}
  {Start : Outlook → Prop} {Busy Busy' Stale Stale' : NodeId → Prop} {n n' : RenderNode} {step : Step}
  {names : List String}

/-! ## What is under a node -/

namespace Laid

/-- The ancestors of a node are those of the tree. -/
theorem above_iff (h : e.Laid b Start root g Busy Stale) (hx : e.contains x = true) :
    p ∈ (g.label x).path ↔ e.shape.Above p x := by
  refine h.induct (P := fun x => p ∈ (g.label x).path ↔ e.shape.Above p x) ?_ ?_ hx
  · rw [h.top]
    exact ⟨fun hp => absurd hp List.not_mem_nil, fun hp => absurd hp h.tree.not_above_root⟩
  · intro x n q nq hn _ hq _ _ ih
    rw [h.path hn hq, List.mem_cons, ih,
      Forest.above_iff_of_parent (p := q) ⟨n.shape, shape_of_node? hn, hq⟩]

/-- Frames around a node that were made for what is under another one. -/
theorem mem_path_of_inside (h : e.Laid b Start root g Busy Stale) (hx : e.contains x = true)
    (hf : e.frames.Chain (g.label x).frame f) (hc : g.Inside e c f) : c ∈ (g.label x).path := by
  have hmem := h.home_mem_path hx hf
  rcases hc.2 with heq | hc
  · exact heq ▸ hmem
  · obtain ⟨-, before, hbefore⟩ := h.path_suffix hx hmem
    rw [hbefore]
    exact List.mem_append_right before (List.mem_cons_of_mem _ hc)

/-- What is under a node has it for an ancestor if it is not the node itself. -/
theorem under_iff (h : e.Laid b Start root g Busy Stale) (hx : e.contains x = true) :
    g.Under c x ↔ x = c ∨ e.shape.Above c x := by
  unfold Plan.Under
  rw [h.above_iff hx]

/-- A child is under its parent. -/
theorem under_parent (h : e.Laid b Start root g Busy Stale) (hn : e.node? x = some n)
    (hp : n.parent = some p) : g.Under p x := by
  refine .inr ?_
  rw [h.path hn hp]
  exact List.mem_cons_self

/-- A frame of before that was made for what is under a node later was so before. -/
theorem inside_of_later (h : e.Laid b Start root g Busy Stale) {M R : NodeId → Prop}
    {F : FrameId → Prop} (he : e.Evolves M R F e₁) (hg : g.Extends e g₁) {fr : Frame}
    (hfr : e.frames.get? f = some fr) (hinside : g₁.Inside e₁ c f) : g.Inside e c f := by
  unfold Plan.Inside at hinside
  rw [hg.home hfr, hg.under (h.homes hfr)] at hinside
  exact ⟨he.contains hinside.1 (h.homes hfr), hinside.2⟩

/-- A node that is there is not under its children. -/
theorem not_under_child (h : e.Laid b Start root g Busy Stale) (hn : e.node? id = some n)
    (hc : c ∈ n.children) : ¬g.Under c id := by
  obtain ⟨-, nc, hnc, hp⟩ := h.exists_child hn hc
  rintro (rfl | hmem)
  · refine h.not_mem_path (contains_iff.2 ⟨nc, hnc⟩) ?_
    rw [h.path hnc hp]
    exact List.mem_cons_self
  · have hlt := h.length_path_lt (contains_iff.2 ⟨n, hn⟩) hmem
    rw [h.path hnc hp, List.length_cons] at hlt
    omega

/-- No child is under another one. -/
theorem apart_children (h : e.Laid b Start root g Busy Stale) (hn : e.node? id = some n) :
    n.children.Pairwise fun c c' => ¬g.Under c c' ∧ ¬g.Under c' c := by
  have hpath (c : NodeId) (hc : c ∈ n.children) : (g.label c).path = id :: (g.label id).path ∧
      c ∉ (g.label c).path := by
    obtain ⟨-, nc, hnc, hp⟩ := h.exists_child hn hc
    exact ⟨h.path hnc hp, h.not_mem_path (contains_iff.2 ⟨nc, hnc⟩)⟩
  have hnot {c c' : NodeId} (hc : c ∈ n.children) (hc' : c' ∈ n.children) (hne : c' ≠ c) :
      ¬g.Under c c' := by
    rintro (heq | hmem)
    · exact hne heq
    · rw [(hpath c' hc').1, ← (hpath c hc).1] at hmem
      exact (hpath c hc).2 hmem
  refine (h.tree.nodup id _ (shape_of_node? hn)).imp_of_mem fun {c c'} hc hc' hne => ?_
  exact ⟨hnot hc hc' hne.symm, hnot hc' hc hne⟩

end Laid

/-! ## Work under a node -/

/-- What is under a node may have changed, and frames that were made for it or for what is under it. -/
structure Pursues (e : Engine) (g : Plan) (id : NodeId) (e' : Engine) (g' : Plan) : Prop where
  /-- Everything else persists, and so do the records of what the node has read. -/
  evolves : e.Evolves (g.Under id) (fun x => g.Under id x ∧ x ≠ id) (g.Inside e id) e'
  /-- The plan is one of before. -/
  plan : g.Extends e g'

namespace Pursues

/-- Nothing has changed. -/
theorem refl (hvalid : e.nodes.Valid) (g : Plan) (id : NodeId) : e.Pursues g id e g :=
  ⟨.refl hvalid, .refl g e⟩

/-- Only the node was changed. -/
theorem of_own (he : e.Evolves (· = id) (fun _ => False) (fun _ => False) e') (hg : g.Extends e g') :
    e.Pursues g id e' g' :=
  ⟨he.mono (fun _ hx => .inl hx) (fun _ hx => hx.elim) fun _ hf => hf.elim, hg⟩

/-- One change after another. -/
theorem trans (h₁ : e.Pursues g id e₁ g₁) (hlaid : e.Laid b Start root g Busy Stale)
    (h₂ : e₁.Pursues g₁ id e₂ g₂) : e.Pursues g id e₂ g₂ where
  evolves := by
    refine h₁.evolves.after h₂.evolves (fun x hx h => ?_) (fun x hx h => ?_) fun f fr hfr h => ?_
    · exact h.elim (fun h => h) (h₁.plan.under (.inl hx)).1
    · exact h.elim (fun h => h) fun h => ⟨(h₁.plan.under (.inl hx)).1 h.1, h.2⟩
    · exact h.elim (fun h => h) (hlaid.inside_of_later h₁.evolves h₁.plan hfr)
  plan := h₁.plan.trans h₁.evolves h₂.plan

/-- Frames that were made for the node are not around it. -/
theorem away (h : e.Works b Start root g Busy Stale id n step)
    (hf : e.frames.Chain (g.label id).frame f) : ¬g.Inside e id f := fun hinside =>
  h.laid.not_mem_path h.live (h.laid.mem_path_of_inside h.live hf hinside)

/-- What is seen from the node stays. -/
theorem outlook (hp : e.Pursues g id e' g') (h : e.Works b Start root g Busy Stale id n step)
    (h' : e'.Laid b Start root g' Busy' Stale') :
    e'.outlook root (g.label id).frame = e.outlook root (g.label id).frame :=
  hp.evolves.outlook h.laid.ordered h'.ordered h.laid.live_root h'.live_root (h.laid.lt_frame h.live)
    fun _ hf => away h hf

/-- Work on the node goes on. -/
theorem works (hp : e.Pursues g id e' g') (h : e.Works b Start root g Busy Stale id n step)
    (h' : e'.Laid b Start root g' Busy' Stale') (hbusy : Busy' id) (hn' : e'.node? id = some n') :
    e'.Works b Start root g' Busy' Stale' id n' step where
  laid := h'
  busy := hbusy
  node := hn'
  other := h.other
  step_eq := by rw [hp.plan.label (.inl h.live), h.step_eq]
  arrives := by
    rw [hp.plan.label (.inl h.live), hp.outlook h h']
    exact h.arrives

/-- What the node covers it covers still. -/
theorem covers (hp : e.Pursues g id e' g') (h : e.Works b Start root g Busy Stale id n step)
    (h' : e'.Works b Start root g' Busy' Stale' id n' step)
    (hcovers : e.Covers root (g.label id).frame id names) :
    e'.Covers root (g.label id).frame id names :=
  hp.evolves.covers h.laid.ordered h'.laid.ordered h'.laid.live_root h.live h'.live
    (fun hx => hx.2 rfl) (h.laid.lt_frame h.live) (fun _ hf => away h hf) hcovers

end Pursues

/-! ## Removal -/

namespace Works

/-- A part of what is under the node is taken away. -/
theorem cut (h : e.Works b Start root g Busy Stale id n step) {D : NodeId → Prop}
    (halters : e.Alters (· = id) (fun _ => False) e') (hshape : e'.shape = e.shape.cut D)
    (hclosed : ∀ p x, e.shape.Parent p x → D p → D x)
    (hD : ∀ x, D x → x ≠ id ∧ g.Under id x) :
    (∃ n', e'.Works b Start root g Busy Stale id n' step) ∧ e.Pursues g id e' g ∧
      ∀ x, e'.contains x = true ↔ e.contains x = true ∧ ¬D x := by
  have hlive (x : NodeId) : e'.contains x = true ↔ e.contains x = true ∧ ¬D x := by
    rw [contains_iff_shape, contains_iff_shape, hshape]
    constructor
    · rintro ⟨m, hm⟩
      obtain ⟨hx, m', hm', -⟩ := Forest.of_cut hm
      exact ⟨⟨m', hm'⟩, hx⟩
    · rintro ⟨⟨m, hm⟩, hx⟩
      exact ⟨_, Forest.to_cut hx hm⟩
  have hself : ¬D id := fun hid => (hD id hid).1 rfl
  have hroot : ¬D root := fun hd => by
    rcases (hD root hd).2 with heq | hmem
    · exact h.other heq.symm
    · rw [h.laid.top] at hmem
      exact List.not_mem_nil hmem
  have hevolves : e.Evolves (fun x => x = id ∨ D x) (fun _ => False) (fun _ => False) e' :=
    .of_alters h.laid.valid (halters.mono (fun _ hx => .inl hx) fun _ hx => hx) fun x hx hkept =>
      (hlive x).2 ⟨hx, fun hd => hkept (.inr hd)⟩
  have htree : e'.shape.Tree root := hshape ▸ h.laid.tree.cut hclosed
  -- whatever was taken away counts as busy first
  have hlaid : e'.Laid b Start root g (fun x => Busy x ∨ D x) Stale := by
    refine h.laid.evolve hevolves (.refl g e) htree ?_ ((hlive root).2 ⟨h.laid.live_root, hroot⟩)
      (fun _ _ => no_new_frame halters.frames) (fun x m hm hx => ?_)
      (fun x hx => ?_) (fun _ hx => .inl hx) (fun _ hx => hx)
      (fun _ hx => hx.elim) (fun _ hf => hf.elim)
    · rw [halters.frames]
      exact h.laid.ordered
    · exact absurd (.inl ((hlive x).1 (contains_iff.2 ⟨m, hm⟩)).1) hx
    · rcases hx with rfl | hd
      · exact .inl h.busy
      · exact .inr hd
  -- but it is gone, so that there is nothing to settle
  have hlaid' : e'.Laid b Start root g Busy Stale := by
    refine hlaid.close fun x m hm hx hwhy => ?_
    have hkept := ((hlive x).1 (contains_iff.2 ⟨m, hm⟩)).2
    rcases hwhy with (hbusy | hd) | ⟨hstale, hnot⟩
    · exact absurd hbusy hx
    · exact absurd hd hkept
    · exact absurd hstale hnot
  have hpursues : e.Pursues g id e' g := by
    refine ⟨hevolves.mono (fun x hx => ?_) (fun _ hx => hx.elim) fun _ hf => hf.elim, .refl g e⟩
    exact hx.elim .inl fun hd => (hD x hd).2
  obtain ⟨n', hn'⟩ := contains_iff.1 ((hlive id).2 ⟨h.live, hself⟩)
  exact ⟨⟨n', hpursues.works h hlaid' h.busy hn'⟩, hpursues, hlive⟩

/-- The node is what it was, apart from its children, if these were replaced and nothing else happened
to it. -/
theorem of_replaced (h : e.Works b Start root g Busy Stale id n step)
    {f : List NodeId → List NodeId} (hworks : e'.Works b Start root g' Busy' Stale' id n' step)
    (hrest : (e.modifyNode id fun n => { n with children := f n.children }).Alters (fun _ => False)
      (fun _ => False) e') : n'.children = f n.children ∧ n'.kind = n.kind := by
  have hreplaced : (e.modifyNode id fun n => { n with children := f n.children }).node? id =
      some { n with children := f n.children } := by
    rw [node?_modifyNode, if_pos rfl, h.node]
    rfl
  obtain ⟨m, hm, -, hsame⟩ := hrest.node hworks.node
  obtain rfl := Option.some.inj (hreplaced.symm.trans hm)
  have hsame := hsame fun h => h
  exact ⟨congrArg (·.children) hsame,
    RenderKind.eq_of_unread (congrArg (·.kind) hsame) h.context?_eq⟩

/-- What is under the node is taken away. -/
theorem clear (h : e.Works b Start root g Busy Stale id n step) :
    ∃ n', (e.clearChildren id).Works b Start root g Busy Stale id n' step ∧ n'.children = [] ∧
      n'.kind = n.kind ∧ e.Pursues g id (e.clearChildren id) g ∧
        ∀ x, (e.clearChildren id).contains x = true → g.Under id x → x = id := by
  have hpart (x : NodeId) (hx : e.shape.Above id x) : x ≠ id ∧ g.Under id x := by
    refine ⟨fun heq => h.laid.tree.above_irrefl (heq ▸ hx), .inr ?_⟩
    exact (h.laid.above_iff (contains_iff_shape.2 hx.live)).2 hx
  obtain ⟨⟨n', hworks⟩, hpursues, hlive⟩ := h.cut (.clearChildren rfl)
    (shape_clearChildren h.laid.valid h.laid.tree) Forest.closed_above hpart
  obtain ⟨hchildren, hkind⟩ := h.of_replaced (f := fun _ => []) hworks
    (.foldl (fun _ _ _ => .dropSubtree _) _)
  refine ⟨n', hworks, hchildren, hkind, hpursues, fun x hx hunder => ?_⟩
  obtain ⟨hx, hkept⟩ := (hlive x).1 hx
  exact ((h.laid.under_iff hx).1 hunder).resolve_right hkept

/-- A child is taken away with everything under it. -/
theorem remove (h : e.Works b Start root g Busy Stale id n step) (hc : c ∈ n.children) :
    ∃ n', (e.removeNode c).Works b Start root g Busy Stale id n' step ∧
      n'.children = n.children.filter (· ≠ c) ∧ n'.kind = n.kind ∧
        e.Pursues g id (e.removeNode c) g := by
  obtain ⟨-, nc, hnc, hp⟩ := h.laid.exists_child h.node hc
  have hlive : e.contains c = true := contains_iff.2 ⟨nc, hnc⟩
  have hunder := h.laid.under_parent hnc hp
  have hpart (x : NodeId) (hx : x = c ∨ e.shape.Above c x) : x ≠ id ∧ g.Under id x := by
    have hx' : e.contains x = true := hx.elim (fun heq => heq ▸ hlive) fun ha =>
      contains_iff_shape.2 ha.live
    have hcx := (h.laid.under_iff hx').2 hx
    refine ⟨fun heq => h.laid.not_under_child h.node hc (heq ▸ hcx), h.laid.under_trans hx' hunder hcx⟩
  have halters : e.Alters (· = id) (fun _ => False) (e.removeNode c) := by
    refine .removeNode fun m q hm hq => ?_
    obtain rfl := Option.some.inj (hnc.symm.trans hm)
    exact Option.some.inj (hq.symm.trans hp)
  obtain ⟨⟨n', hworks⟩, hpursues, -⟩ := h.cut halters (shape_removeNode h.laid.valid h.laid.tree hlive)
    Forest.closed_self hpart
  -- the parent forgets the child before it goes
  have hremove : e.removeNode c =
      (e.modifyNode id fun n => { n with children := n.children.filter (· ≠ c) }).dropSubtree c := by
    unfold Engine.removeNode
    rw [hnc]
    dsimp only
    rw [hp]
  obtain ⟨hchildren, hkind⟩ := h.of_replaced (f := fun cs => cs.filter (· ≠ c)) hworks
    (hremove ▸ .dropSubtree c)
  exact ⟨n', hworks, hchildren, hkind, hpursues⟩

/-- Children are taken away in turn. -/
theorem removeAll (cs : List NodeId) : ∀ {e : Engine} {n : RenderNode},
    e.Works b Start root g Busy Stale id n step → (∀ c ∈ cs, c ∈ n.children) → cs.Nodup →
      ∃ n', (cs.foldl removeNode e).Works b Start root g Busy Stale id n' step ∧
        n'.children = n.children.filter (· ∉ cs) ∧ n'.kind = n.kind ∧
          e.Pursues g id (cs.foldl removeNode e) g := by
  induction cs with
  | nil =>
    intro e n h _ _
    refine ⟨n, h, ?_, rfl, .refl h.laid.valid g id⟩
    exact (List.filter_eq_self.2 fun c _ => decide_eq_true List.not_mem_nil).symm
  | cons c cs ih =>
    intro e n h hcs hnodup
    obtain ⟨hc, hnodup⟩ := List.nodup_cons.1 hnodup
    obtain ⟨n₁, hworks₁, hchildren₁, hkind₁, hpursues₁⟩ := h.remove (hcs c List.mem_cons_self)
    have hcs₁ (x : NodeId) (hx : x ∈ cs) : x ∈ n₁.children := by
      rw [hchildren₁]
      refine List.mem_filter.2 ⟨hcs x (List.mem_cons_of_mem c hx), decide_eq_true fun heq => ?_⟩
      exact hc (heq ▸ hx)
    obtain ⟨n₂, hworks₂, hchildren₂, hkind₂, hpursues₂⟩ := ih hworks₁ hcs₁ hnodup
    refine ⟨n₂, hworks₂, ?_, hkind₂.trans hkind₁, hpursues₁.trans h.laid hpursues₂⟩
    rw [hchildren₂, hchildren₁, List.filter_filter]
    refine List.filter_congr fun x _ => ?_
    simp only [List.mem_cons, not_or, ne_eq, Bool.decide_and, Bool.and_comm]

end Works

end Engine
end ReactiveView
