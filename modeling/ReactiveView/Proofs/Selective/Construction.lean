import ReactiveView.Proofs.Selective.Persistence

/-!
# Building a laid-out tree

A step that is built where it has arrived adds one node, which stands for the step and shows what a
look finds, and a body adds a row of such nodes (`Reentry.Lays`). Everything else persists: the
parent gets further children, and that is all (`Engine.Adds`). While its content is built, a node is
busy; it is settled as soon as its children are there.

Each step is built in the same way: the node is created, what it shows is evaluated at its place, and
its children are built from what was found.
-/

namespace ReactiveView

namespace Engine

variable {e e' e₁ e₂ : Engine} {g g' g₁ g₂ : Plan} {root id p : NodeId} {ids ids' : List NodeId}
  {frame : Option FrameId} {b : Body} {Start : Outlook → Prop} {Busy Stale : NodeId → Prop}

/-! ## Further children -/

/-- A node got further children; everything else persists. -/
structure Adds (e : Engine) (g : Plan) (p : NodeId) (ids : List NodeId) (e' : Engine) (g' : Plan) :
    Prop where
  /-- What persists. -/
  evolves : e.Evolves (· = p) (fun _ => False) (fun _ => False) e'
  /-- The plan is one of before. -/
  plan : g.Extends e g'
  /-- The children. -/
  children : ∀ ⦃n⦄, e.node? p = some n → ∃ n', e'.node? p = some n' ∧
    n'.unread = { n with children := n.children ++ ids }.unread

namespace Adds

/-- Nothing was built. -/
theorem refl (hvalid : e.nodes.Valid) (g : Plan) (p : NodeId) : e.Adds g p [] e g where
  evolves := .refl hvalid
  plan := .refl g e
  children n hn := ⟨n, hn, by rw [List.append_nil]⟩

/-- Building twice under one node. -/
theorem trans (h₁ : e.Adds g p ids e₁ g₁) (h₂ : e₁.Adds g₁ p ids' e₂ g₂) :
    e.Adds g p (ids ++ ids') e₂ g₂ where
  evolves := h₁.evolves.trans h₂.evolves
  plan := h₁.plan.trans h₁.evolves h₂.plan
  children n hn := by
    obtain ⟨n₁, hn₁, hsame₁⟩ := h₁.children hn
    obtain ⟨n₂, hn₂, hsame₂⟩ := h₂.children hn₁
    have hkids : n₁.children = n.children ++ ids := congrArg (·.children) hsame₁
    refine ⟨n₂, hn₂, hsame₂.trans ?_⟩
    rw [hkids, List.append_assoc]
    exact congrArg (fun n' : RenderNode => { n' with children := n.children ++ (ids ++ ids') }) hsame₁

/-- Building under a node and then under nodes that are new. -/
theorem inside {M R : NodeId → Prop} {F : FrameId → Prop} (h₁ : e.Adds g p ids e₁ g₁)
    (h₂ : e₁.Evolves M R F e₂) (hg : g₁.Extends e₁ g₂) (hp : e.contains p = true)
    (hM : ∀ x, M x → ¬e.Known x) (hR : ∀ x, R x → ¬e.Known x)
    (hF : ∀ f, F f → e.frames.get? f = none) : e.Adds g p ids e₂ g₂ where
  evolves := by
    refine h₁.evolves.after h₂ (fun x hx h => h.elim id fun h => absurd (.inl hx) (hM x h))
      (fun x hx h => h.elim id fun h => absurd (.inl hx) (hR x h))
      fun f fr hfr h => h.elim id fun h => ?_
    rw [hF f h] at hfr
    cases hfr
  plan := h₁.plan.trans h₁.evolves hg
  children n hn := by
    obtain ⟨n₁, hn₁, hsame₁⟩ := h₁.children hn
    obtain ⟨n₂, hn₂, hsame₂⟩ := h₂.kept hn₁ fun h => hM p h (.inl hp)
    exact ⟨n₂, hn₂, hsame₂.trans hsame₁⟩

end Adds

/-! ## New nodes -/

section

variable {kind : RenderKind} {c : Cursor} {flags : NodeFlags}

/-- The arena after a node was added. -/
theorem nodes_addNode (e : Engine) (kind : RenderKind) (c : Cursor) (flags : NodeFlags) :
    (e.addNode kind c flags).2.nodes =
      (e.nodes.insert { kind := kind, parent := some c.parent, context := c.ctx, flags := flags,
                        frame := c.frame }).2.modify c.parent
        fun m => { m with children := m.children ++ [(e.addNode kind c flags).1] } := by
  unfold addNode
  dsimp only
  split <;> rfl

/-- There was more room before a node was added. -/
theorem roomy_of_addNode (hroom : (e.addNode kind c flags).2.nodes.Roomy) : e.nodes.Roomy := by
  rw [nodes_addNode] at hroom
  exact ((Arena.roomy_modify _ _).1 hroom).of_insert

/-- A new node was not known. -/
theorem not_known_addNode (hvalid : e.nodes.Valid) (hroom : e.nodes.Roomy) (kind : RenderKind)
    (c : Cursor) (flags : NodeFlags) : ¬e.Known (e.addNode kind c flags).1 := by
  rintro (hlive | hspent)
  · obtain ⟨m, hm⟩ := contains_iff_shape.1 hlive
    rw [(shape_addNode hvalid hroom kind c flags).1] at hm
    cases hm
  · exact Arena.not_spent_insert hvalid hroom _ hspent

/-- The nodes after one was added. -/
theorem node?_addNode (hvalid : e.nodes.Valid) (hroom : e.nodes.Roomy) (kind : RenderKind)
    (flags : NodeFlags) (hp : e.contains c.parent = true) (x : NodeId) :
    (e.addNode kind c flags).2.node? x =
      if x = (e.addNode kind c flags).1 then
        some { kind := kind, parent := some c.parent, context := c.ctx, flags := flags,
               frame := c.frame }
      else if x = c.parent then
        (e.node? x).map fun m => { m with children := m.children ++ [(e.addNode kind c flags).1] }
      else e.node? x := by
  let n : RenderNode :=
    { kind := kind, parent := some c.parent, context := c.ctx, flags := flags, frame := c.frame }
  -- the parent was there, so it is not the node that has come
  have hne : c.parent ≠ (e.nodes.insert n).1 := fun heq =>
    not_known_addNode hvalid hroom kind c flags (heq ▸ .inl hp)
  change (e.addNode kind c flags).2.nodes.get? x = if x = (e.nodes.insert n).1 then _ else _
  rw [nodes_addNode, Arena.get?_modify, Arena.get?_insert hvalid hroom, Arena.get?_insert hvalid hroom,
    if_neg hne]
  by_cases hx : x = (e.nodes.insert n).1
  · rw [if_pos hx, if_neg fun hxp => hne (hxp.symm.trans hx), if_pos hx]
  · rw [if_neg hx, if_neg hx]
    by_cases hxp : x = c.parent
    · rw [if_pos hxp, if_pos hxp, hxp]
      rfl
    · rw [if_neg hxp, if_neg hxp]
      rfl

/-- A new node is a further child. -/
theorem adds_addNode (hvalid : e.nodes.Valid) (hroom : e.nodes.Roomy) (kind : RenderKind)
    (flags : NodeFlags) (hp : e.contains c.parent = true) (hg : g.Extends e g') :
    e.Adds g c.parent [(e.addNode kind c flags).1] (e.addNode kind c flags).2 g' := by
  have hnew := not_known_addNode hvalid hroom kind c flags
  have hnode := node?_addNode hvalid hroom kind flags hp
  have hrest : (e.addNode kind c flags).2.frames = e.frames ∧
      (e.addNode kind c flags).2.setup = e.setup := by
    unfold addNode
    dsimp only
    split
    · exact ⟨rfl, rfl⟩
    · exact ⟨rfl, rfl⟩
  -- the new node was not known, so whatever is said of known nodes is said of others
  have hold {x : NodeId} (hx : e.Known x) : x ≠ (e.addNode kind c flags).1 := fun heq =>
    hnew (heq ▸ hx)
  refine ⟨⟨?kept, ?old, ?reads, ?frames, hrest.2, ?known, ?valid⟩, hg, ?children⟩
  case kept =>
    intro x n hn hx
    exact ⟨n, by rw [hnode, if_neg (hold (known_of_node? hn)), if_neg hx, hn], rfl⟩
  case old =>
    intro x n' hn' hx
    rw [hnode, if_neg (hold hx)] at hn'
    split at hn'
    · obtain ⟨n, hn, rfl⟩ := Option.map_eq_some_iff.1 hn'
      exact ⟨n, hn, rfl⟩
    · exact ⟨n', hn', rfl⟩
  case reads =>
    rintro k key x - - - - ⟨index, hindex, hmem⟩
    refine ⟨index, ?_, hmem⟩
    unfold index? at hindex ⊢
    obtain ⟨n, hn, hkind⟩ := Option.bind_eq_some_iff.1 hindex
    rw [hnode, if_neg (hold (known_of_node? hn)), hn]
    split
    · exact hkind
    · exact hkind
  case frames =>
    intro f fr hfr
    exact ⟨fr, by rw [hrest.1]; exact hfr, rfl, fun _ => rfl⟩
  case known =>
    intro x hx
    unfold Known Engine.contains
    rw [nodes_addNode, Arena.contains_modify]
    refine hx.imp (fun hlive => ?_) fun hspent => (hspent.insert hvalid _).modify _ _
    obtain ⟨n, hn⟩ := Option.isSome_iff_exists.1 hlive
    exact Option.isSome_iff_exists.2 ⟨n, Arena.get?_insert_of_some hvalid hn _⟩
  case valid =>
    rw [nodes_addNode]
    exact (hvalid.insert _).modify _ _
  case children =>
    intro n hn
    exact ⟨_, by rw [hnode, if_neg (hold (known_of_node? hn)), if_pos rfl, hn]; rfl, rfl⟩

end

/-! ## Cursors -/

/-- Steps may be built at a cursor: its node is being worked on, its frame is that of the node or was
made for it, and the steps have arrived there. -/
structure Admits (e : Engine) (b : Body) (Start : Outlook → Prop) (root : NodeId) (g : Plan)
    (Busy Stale : NodeId → Prop) (c : Cursor) (steps : List Step) : Prop where
  /-- The tree is laid out. -/
  laid : e.Laid b Start root g Busy Stale
  /-- The context is the only one. -/
  ctx : c.ctx = root
  /-- The node is there. -/
  live : e.contains c.parent = true
  /-- The node is being worked on. -/
  busy : Busy c.parent
  /-- The frame. -/
  linked : g.Linked e c.parent c.frame
  /-- The steps. -/
  arrives : ∀ s ∈ steps, b.Arrives Start s (e.outlook root c.frame)

/-- Steps were built at a cursor. -/
structure Built (e : Engine) (b : Body) (Start : Outlook → Prop) (root : NodeId) (g : Plan)
    (Busy Stale : NodeId → Prop) (c : Cursor) (steps : List Step) (e' : Engine) (g' : Plan)
    (ids : List NodeId) : Prop where
  /-- The tree is laid out. -/
  laid : e'.Laid b Start root g' Busy Stale
  /-- The nodes that were built are further children. -/
  adds : e.Adds g c.parent ids e' g'
  /-- They are labelled by the steps. -/
  row : g'.Row c.parent c.frame steps ids

variable {c : Cursor} {s : Step} {steps : List Step}

/-- The frames that are linked to a node are in the store. -/
theorem Laid.lt_linked (h : e.Laid b Start root g Busy Stale) (hp : e.contains p = true)
    (hlinked : g.Linked e p frame) : ∀ f, frame = some f → f < e.frames.frames.size := by
  intro f hf
  rcases hlinked with hsame | ⟨f', fr, hf', hfr, -, -⟩
  · exact h.lt_frame hp f (hsame ▸ hf)
  · obtain rfl := Option.some.inj (hf.symm.trans hf')
    exact FrameStore.lt_of_get? hfr

/-- What is seen in frames that are not bound again stays. -/
theorem Laid.outlook_evolves {M R : NodeId → Prop} {Busy' Stale' : NodeId → Prop}
    (h : e.Laid b Start root g Busy Stale) (h' : e'.Laid b Start root g' Busy' Stale')
    (he : e.Evolves M R (fun _ => False) e') (hp : e.contains p = true)
    (hlinked : g.Linked e p frame) : e'.outlook root frame = e.outlook root frame :=
  he.outlook h.ordered h'.ordered h.live_root h'.live_root (h.lt_linked hp hlinked) fun _ _ h => h

/-- When a node gets further children, all nodes stay. -/
theorem Adds.contains (h : e.Adds g p ids e' g') {x : NodeId} (hx : e.contains x = true) :
    e'.contains x = true := by
  obtain ⟨n, hn⟩ := contains_iff.1 hx
  by_cases hxp : x = p
  · subst hxp
    obtain ⟨n', hn', -⟩ := h.children hn
    exact contains_iff.2 ⟨n', hn'⟩
  · obtain ⟨n', hn', -⟩ := h.evolves.kept hn hxp
    exact contains_iff.2 ⟨n', hn'⟩

/-- Steps that were built, and those that follow. -/
theorem Built.append {steps' : List Step} (h₁ : e.Built b Start root g Busy Stale c steps e₁ g₁ ids)
    (hp : e.contains c.parent = true)
    (h₂ : e₁.Built b Start root g₁ Busy Stale c steps' e₂ g₂ ids') :
    e.Built b Start root g Busy Stale c (steps ++ steps') e₂ g₂ (ids ++ ids') where
  laid := h₂.laid
  adds := h₁.adds.trans h₂.adds
  row := by
    obtain ⟨n, hn⟩ := contains_iff.1 hp
    obtain ⟨n₁, hn₁, hsame⟩ := h₁.adds.children hn
    have hchildren : n₁.children = n.children ++ ids := congrArg (·.children) hsame
    -- what was built first was there when the rest was built, so its labels stay
    have hids : ∀ x ∈ ids, g₂.label x = g₁.label x := fun x hx => by
      have hmem : x ∈ n₁.children := hchildren ▸ List.mem_append_right n.children hx
      obtain ⟨-, m, hm, -⟩ := h₁.laid.exists_child hn₁ hmem
      exact h₂.adds.plan.label (known_of_node? hm)
    have hrow := h₁.row.persist (h₂.adds.plan.label (.inl (contains_iff.2 ⟨n₁, hn₁⟩))) hids
    unfold Plan.Row at hrow ⊢
    rw [List.map_append, List.map_append, hrow, h₂.row]

/-- The steps that follow may be built next. -/
theorem Admits.next (h : e.Admits b Start root g Busy Stale c (s :: steps))
    (h' : e.Built b Start root g Busy Stale c [s] e' g' ids) :
    e'.Admits b Start root g' Busy Stale c steps where
  laid := h'.laid
  ctx := h.ctx
  live := h'.adds.contains h.live
  busy := h.busy
  linked := h.linked.persist h'.adds.evolves h'.adds.plan (.inl h.live)
  arrives s hs := by
    -- building binds no frame again, so the steps have arrived where they had
    rw [h.laid.outlook_evolves h'.laid h'.adds.evolves h.live h.linked]
    exact h.arrives s (List.mem_cons_of_mem _ hs)

/-! ## Nodes that are being built -/

/-- A node was created for a step and is being built. -/
structure Opens (e : Engine) (b : Body) (Start : Outlook → Prop) (root : NodeId) (g : Plan)
    (Busy Stale : NodeId → Prop) (c : Cursor) (step : Step) (id : NodeId) (e' : Engine) (g' : Plan) :
    Prop where
  /-- The tree is laid out, but for the node. -/
  laid : e'.Laid b Start root g' (fun x => Busy x ∨ x = id) Stale
  /-- The node is a further child. -/
  adds : e.Adds g c.parent [id] e' g'
  /-- It is new. -/
  fresh : ¬e.Known id
  /-- Its label. -/
  label : g'.label id = g.below c.parent c.frame step
  /-- It is there. -/
  live : e'.contains id = true

/-- The label of a new node. -/
theorem Adds.below (h : e.Adds g p ids e' g') (hp : e.contains p = true) (step : Step) :
    g'.below p frame step = g.below p frame step := by
  unfold Plan.below
  rw [h.plan.label (.inl hp)]

/-- No operation is stopped. -/
theorem Laid.poll (h : e.Laid b Start root g Busy Stale) {r : Except EngineError Unit}
    (hgives : Act.poll.Gives e r e') : r = .ok () ∧ e' = e := by
  have hpoll : e.poll = (false, e) := by
    unfold Engine.poll Cancel.poll
    rw [h.cancel]
    dsimp only
    rw [← h.cancel]
  have hgives := Act.gives_step_bind.1 hgives
  rw [hpoll] at hgives
  exact Act.gives_pure.1 hgives

/-- The nodes are still a tree when one was added at a cursor. -/
theorem Admits.tree_addNode (h : e.Admits b Start root g Busy Stale c steps)
    (hroom : e.nodes.Roomy) {kind : RenderKind} (hkind : kind.context? = none) (flags : NodeFlags) :
    (e.addNode kind c flags).2.shape.Tree root := by
  have hnew := not_known_addNode h.laid.valid hroom kind c flags
  have hroot : (e.addNode kind c flags).1 ≠ root := fun heq => hnew (heq ▸ .inl h.laid.live_root)
  have hparent : c.parent ≠ (e.addNode kind c flags).1 := fun heq => hnew (heq ▸ .inl h.live)
  obtain ⟨hnone, hshape⟩ := shape_addNode h.laid.valid hroom kind c flags
  obtain ⟨np, hnp⟩ := contains_iff_shape.1 h.live
  obtain ⟨nr, hnr⟩ := contains_iff_shape.1 h.laid.live_root
  have hcontext : kind.skeleton.context? = none := by
    rw [RenderKind.context?_skeleton, hkind]
    rfl
  rw [hshape hparent]
  refine h.laid.tree.graft hnone hroot ⟨np, hnp⟩ rfl rfl (fun x hx => ?_) fun data owner hdata => ?_
  · -- the only component instance to which the node refers is the root
    unfold RenderNode.contexts at hx
    rw [hcontext] at hx
    obtain rfl : x = root := by simpa [h.ctx] using hx
    refine ⟨?_, nr, hnr, (h.laid.tree.root nr hnr).2.1⟩
    by_cases hp : c.parent = x
    · exact .inl hp.symm
    · exact .inr (h.laid.tree.root_above hnp hp)
  · rw [hcontext] at hdata
    cases hdata

/-- A node that was created at a cursor is where its label says. -/
theorem Admits.placed (h : e.Admits b Start root g Busy Stale c steps)
    (hadds : e.Adds g c.parent [id] e' g') (hlabel : g'.label id = g.below c.parent c.frame s)
    {n : RenderNode} (hparent : n.parent = some c.parent) (hcontext : n.context = c.ctx)
    (hframe : n.frame = c.frame) (hkind : n.kind.context? = none) : g'.Placed e' root id n := by
  have hold : g'.label c.parent = g.label c.parent := hadds.plan.label (.inl h.live)
  refine ⟨hcontext.trans h.ctx, ?_, ?_, fun q hq => ?_, fun q hq => ?_⟩
  · unfold RenderNode.isContext
    rw [hkind]
    rfl
  · rw [hlabel]
    exact hframe
  · obtain rfl := Option.some.inj (hparent.symm.trans hq)
    rw [hlabel, hold]
    rfl
  · obtain rfl := Option.some.inj (hparent.symm.trans hq)
    rw [hlabel]
    exact h.linked.persist hadds.evolves hadds.plan (.inl h.live)

/-- A node that was added for a step is being built. -/
theorem Admits.opens_addNode (h : e.Admits b Start root g Busy Stale c (s :: steps))
    (hroom : e.nodes.Roomy) {kind : RenderKind} {flags : NodeFlags} (hkind : kind.context? = none)
    (hadd : e.addNode kind c flags = (id, e')) :
    e.Opens b Start root g Busy Stale c s id e' (g.labelled id (g.below c.parent c.frame s)) ∧
      e'.node? id = some { kind := kind, parent := some c.parent, context := root, flags := flags,
                           frame := c.frame } := by
  have hvalid := h.laid.valid
  have hnew := not_known_addNode hvalid hroom kind c flags
  have hnode := node?_addNode hvalid hroom kind flags h.live
  have htree := h.tree_addNode hroom hkind flags
  have hadds := adds_addNode hvalid hroom kind flags h.live
    (Plan.extends_labelled (g := g) hnew (g.below c.parent c.frame s))
  have hframes : (e.addNode kind c flags).2.frames = e.frames := by
    unfold addNode
    dsimp only
    split <;> rfl
  rw [hadd] at hnew hnode hadds htree hframes
  dsimp only at hnew hnode hadds htree hframes
  have hlabel : (g.labelled id (g.below c.parent c.frame s)).label id = g.below c.parent c.frame s :=
    Function.update_self _ _ _
  have hself := (hnode id).trans (if_pos rfl)
  refine ⟨⟨?_, hadds, hnew, hlabel, contains_iff.2 ⟨_, hself⟩⟩, h.ctx ▸ hself⟩
  refine h.laid.evolve hadds.evolves hadds.plan htree ?_ (hadds.contains h.laid.live_root)
    (fun _ _ => no_new_frame hframes) (fun x n hn hx => ?_) (fun x hx => .inl (hx ▸ h.busy))
    (fun x hx => .inl hx) (fun x hx => hx) (fun x hx => hx.elim) (fun f hf => hf.elim)
  · rw [hframes]
    exact h.laid.ordered
  · -- only the new node was not known
    have hxid : x = id := by
      by_contra hne
      rw [hnode, if_neg hne] at hn
      split at hn
      · obtain ⟨m, hm, -⟩ := Option.map_eq_some_iff.1 hn
        exact hx (known_of_node? hm)
      · exact hx (known_of_node? hn)
    subst hxid
    obtain rfl := Option.some.inj (hn.symm.trans hself)
    exact ⟨.inr rfl, h.placed hadds hlabel rfl rfl rfl hkind⟩

/-- A node is created at a cursor. -/
theorem Admits.alloc (h : e.Admits b Start root g Busy Stale c (s :: steps)) {kind : RenderKind}
    {flags : NodeFlags} (hkind : kind.context? = none) {r : Except EngineError NodeId}
    (hgives : (Render.alloc kind c flags).Gives e r e') (hroom : e'.nodes.Roomy) : ∃ id g',
    r = .ok id ∧ e.Opens b Start root g Busy Stale c s id e' g' ∧
      e'.node? id = some { kind := kind, parent := some c.parent, context := root, flags := flags,
                           frame := c.frame } := by
  obtain ⟨u, e₁, hpoll, hadd⟩ := Act.gives_bind_of_ok hgives fun r₁ hr =>
    ⟨(), (h.laid.poll hr).1⟩
  obtain ⟨-, rfl⟩ := h.laid.poll hpoll
  obtain ⟨rfl, rfl⟩ := Act.gives_step.1 hadd
  exact ⟨_, _, rfl, h.opens_addNode (roomy_of_addNode hroom) hkind rfl⟩

/-! ## New frames -/

/-- A frame was added for a node. -/
structure Framed (e : Engine) (b : Body) (Start : Outlook → Prop) (root : NodeId) (g : Plan)
    (Busy Stale : NodeId → Prop) (id : NodeId) (frame : Frame) (f : FrameId) (e' : Engine)
    (g' : Plan) : Prop where
  /-- The tree is laid out. -/
  laid : e'.Laid b Start root g' Busy Stale
  /-- Nothing was built. -/
  adds : e.Adds g id [] e' g'
  /-- The frame is new. -/
  fresh : e.frames.get? f = none
  /-- The frame. -/
  added : e'.frames.get? f = some frame
  /-- The node for which it was made. -/
  home : g'.home f = id

/-- A frame is added inside that of a node. -/
theorem Laid.addFrame (h : e.Laid b Start root g Busy Stale) (hid : e.contains id = true)
    (bindings : List (String × Value)) :
    e.Framed b Start root g Busy Stale id ⟨(g.label id).frame, .ofList bindings⟩
      (e.addFrame (g.label id).frame bindings).1 (e.addFrame (g.label id).frame bindings).2
      (g.homed (e.addFrame (g.label id).frame bindings).1 id) := by
  have hget (f : FrameId) : (e.addFrame (g.label id).frame bindings).2.frames.get? f =
      if f = e.frames.frames.size then some ⟨(g.label id).frame, .ofList bindings⟩
      else e.frames.get? f := FrameStore.get?_add _ _ _ f
  have hfresh : e.frames.get? (e.addFrame (g.label id).frame bindings).1 = none :=
    Array.getElem?_eq_none (Nat.le_refl _)
  have hplan := Plan.extends_homed (g := g) hfresh id
  have hevolves : e.Evolves (· = id) (fun _ => False) (fun _ => False)
      (e.addFrame (g.label id).frame bindings).2 := by
    refine .of_frames h.valid rfl rfl fun f fr hfr => ⟨fr, ?_, rfl, fun _ => rfl⟩
    rw [hget, if_neg (Nat.ne_of_lt (FrameStore.lt_of_get? hfr)), hfr]
  refine ⟨?_, ⟨hevolves, hplan, fun n hn => ⟨n, hn, by rw [List.append_nil]⟩⟩, hfresh,
    (hget _).trans (if_pos rfl), Function.update_self _ _ _⟩
  refine h.evolve (.of_frames (M := fun _ => False) (R := fun _ => False) (F := fun _ => False) h.valid
    rfl rfl hevolves.frames) hplan h.tree (h.ordered.add _ (h.lt_frame hid)) h.live_root
    (fun f fr hfr hnone => ?_) (fun x n hn hx => absurd (known_of_node? hn) hx)
    (fun _ hx => hx.elim) (fun _ hx => hx) (fun _ hx => hx) (fun _ hx => hx.elim)
    (fun _ hf => hf.elim)
  -- the only frame that is new was made for the node
  have hf : f = e.frames.frames.size := by
    by_contra hne
    rw [hget, if_neg hne, hnone] at hfr
    cases hfr
  rw [hf]
  exact .inl ((congrArg e.contains (Function.update_self _ _ _)).trans hid)

/-- What is seen from a frame that binds one name. -/
theorem outlook_binds (hs : e.frames.Ordered) {f : FrameId} {name : String} {v : Value}
    (h : e.frames.Binds f frame name v) :
    e.outlook root (some f) = (e.outlook root frame).bind name v := by
  -- `forloop` counts as bound nowhere
  have hvars : e.vars root (some f) = (e.vars root frame).bind name v := by
    funext x
    unfold Engine.vars Vars.bind
    dsimp only
    by_cases hx : x = "forloop"
    · rw [if_pos hx, if_pos hx, if_neg fun h => h.2 hx]
    · rw [if_neg hx, if_neg hx, h.lookup? hs hx]
      by_cases hname : x = name
      · rw [if_pos hname, if_pos ⟨hname, hx⟩]
        rfl
      · rw [if_neg hname, if_neg fun h => hname h.1]
  unfold Engine.outlook Outlook.bind
  rw [hvars]

/-! ## Work on a node -/

/-- Evaluation, and changes of nodes that are being worked on, keep the layout. -/
theorem Laid.revises {M R : NodeId → Prop} (h : e.Laid b Start root g Busy Stale)
    (he : e.Revises M R e') (hM : ∀ x, M x → Busy x) (hR : ∀ x, R x → Busy x) :
    e'.Laid b Start root g Busy Stale := by
  refine h.evolve (.of_revises h.valid he) (.refl g e) (he.shape ▸ h.tree) ?_
    (he.contains_iff.2 h.live_root) (fun _ _ => no_new_frame he.frames) (fun x n hn hx => ?_) hM
    (fun _ hx => hx) (fun _ hx => hx) (fun x hx => .inl (hR x hx)) (F := fun _ => False)
    (fun _ hf => hf.elim)
  · rw [he.frames]
    exact h.ordered
  · exact absurd (.inl (he.contains_iff.1 (contains_iff.2 ⟨n, hn⟩))) hx

/-- A node is being worked on: it has a step, which has arrived at its place. -/
structure Works (e : Engine) (b : Body) (Start : Outlook → Prop) (root : NodeId) (g : Plan)
    (Busy Stale : NodeId → Prop) (id : NodeId) (n : RenderNode) (step : Step) : Prop where
  /-- The tree is laid out. -/
  laid : e.Laid b Start root g Busy Stale
  /-- The node is not taken to be settled. -/
  busy : Busy id
  /-- The node. -/
  node : e.node? id = some n
  /-- It is not the root. -/
  other : id ≠ root
  /-- Its step. -/
  step_eq : (g.label id).step = step
  /-- The step has arrived. -/
  arrives : b.Arrives Start step (e.outlook root (g.label id).frame)

namespace Works

variable {id : NodeId} {n n' : RenderNode} {step : Step}

/-- The node is where its label says. -/
theorem placed (h : e.Works b Start root g Busy Stale id n step) : g.Placed e root id n :=
  h.laid.placed h.node h.other

/-- The node is there. -/
theorem live (h : e.Works b Start root g Busy Stale id n step) : e.contains id = true :=
  contains_iff.2 ⟨n, h.node⟩

/-- The node is no component instance. -/
theorem context?_eq (h : e.Works b Start root g Busy Stale id n step) : n.kind.context? = none := by
  have := h.placed.other
  unfold RenderNode.isContext at this
  exact Option.isNone_iff_eq_none.1 (Option.isSome_eq_false_iff.1 this)

/-- What is seen from the node stays as long as no frame is bound again. -/
theorem outlook (h : e.Works b Start root g Busy Stale id n step) {M R : NodeId → Prop}
    {Busy' Stale' : NodeId → Prop} (h' : e'.Laid b Start root g' Busy' Stale')
    (he : e.Evolves M R (fun _ => False) e') :
    e'.outlook root (g.label id).frame = e.outlook root (g.label id).frame :=
  h.laid.outlook_evolves h' he h.live (.inl rfl)

/-- Work goes on. -/
theorem evolve (h : e.Works b Start root g Busy Stale id n step) {M R : NodeId → Prop}
    {Busy' Stale' : NodeId → Prop} (h' : e'.Laid b Start root g' Busy' Stale') (hbusy : Busy' id)
    (he : e.Evolves M R (fun _ => False) e') (hg : g.Extends e g') (hn' : e'.node? id = some n') :
    e'.Works b Start root g' Busy' Stale' id n' step where
  laid := h'
  busy := hbusy
  node := hn'
  other := h.other
  step_eq := by rw [hg.label (.inl h.live), h.step_eq]
  arrives := by
    rw [hg.label (.inl h.live), h.outlook h' he]
    exact h.arrives

/-- Whatever is in the place of the node is no component instance. -/
theorem context?_of_place (h : e.Works b Start root g Busy Stale id n step)
    (hplace : n'.place = n.place) : n'.kind.context? = none := by
  have hinstance := congrArg (·.instance?) hplace
  unfold RenderNode.place at hinstance
  rw [h.context?_eq] at hinstance
  exact Option.map_eq_none_iff.1 hinstance

/-- A change of the node in its place alters no other node. -/
theorem alters_modifyNode (h : e.Works b Start root g Busy Stale id n step)
    {f : RenderNode → RenderNode} (hplace : (f n).place = n.place) :
    e.Alters (· = id) (fun _ => False) (e.modifyNode id f) := by
  refine .modifyNode_of_index (fun m hm => ?_) fun m hm => ?_
  · obtain rfl := Option.some.inj (h.node.symm.trans hm)
    exact ⟨hplace, fun hne => absurd rfl hne⟩
  · -- the node holds no records of readers, before or after
    obtain rfl := Option.some.inj (h.node.symm.trans hm)
    unfold RenderKind.index?
    rw [h.context?_of_place hplace, h.context?_eq]

/-- A change of the node in its place keeps the tree, even if its children are put in another
order. -/
theorem tree_modifyNode (h : e.Works b Start root g Busy Stale id n step)
    {f : RenderNode → RenderNode} (hplace : (f n).place = n.place)
    (hchildren : (f n).children.Perm n.children) : (e.modifyNode id f).shape.Tree root := by
  have hshape : (e.modifyNode id f).shape = e.shape.amend id fun _ => (f n).shape :=
    shape_modifyNode fun m hm => by rw [Option.some.inj (h.node.symm.trans hm)]
  rw [hshape]
  refine h.laid.tree.amend fun m hm => ?_
  obtain rfl := Option.some.inj ((shape_of_node? h.node).symm.trans hm)
  refine ⟨congrArg (·.parent) hplace, congrArg (·.context) hplace, ?_, hchildren⟩
  change (f n).kind.skeleton.context? = n.kind.skeleton.context?
  rw [RenderKind.context?_skeleton, RenderKind.context?_skeleton, h.context?_of_place hplace,
    h.context?_eq]

/-- The node is changed. -/
theorem modifyNode (h : e.Works b Start root g Busy Stale id n step) {f : RenderNode → RenderNode}
    (hplace : (f n).place = n.place) (hchildren : (f n).children.Perm n.children) :
    (e.modifyNode id f).Works b Start root g Busy Stale id (f n) step ∧
      e.Evolves (· = id) (fun _ => False) (fun _ => False) (e.modifyNode id f) := by
  have hnode : (e.modifyNode id f).node? id = some (f n) := by
    rw [node?_modifyNode, if_pos rfl, h.node]
    rfl
  have hlive {x : NodeId} (hx : e.contains x = true) : (e.modifyNode id f).contains x = true :=
    (Arena.contains_modify id x f).trans hx
  have hevolves := Evolves.of_alters (F := fun _ => False) h.laid.valid (h.alters_modifyNode hplace)
    fun _ hx _ => hlive hx
  have hlaid : (e.modifyNode id f).Laid b Start root g Busy Stale := by
    refine h.laid.evolve hevolves (.refl g e) (h.tree_modifyNode hplace hchildren) h.laid.ordered
      (hlive h.laid.live_root) (fun _ _ => no_new_frame rfl) (fun x m hm hx => ?_)
      (fun x hx => hx ▸ h.busy) (fun _ hx => hx) (fun _ hx => hx) (fun _ hx => hx.elim)
      (fun _ hf => hf.elim)
    -- no node has come
    have hlive := contains_iff.2 ⟨m, hm⟩
    exact absurd (.inl ((Arena.contains_modify id x f).symm.trans hlive)) hx
  exact ⟨h.evolve hlaid h.busy hevolves (.refl g e) hnode, hevolves⟩

end Works

end Engine
end ReactiveView
