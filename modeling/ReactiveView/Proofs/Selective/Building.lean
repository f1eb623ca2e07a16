import ReactiveView.Proofs.Selective.Construction

/-!
# Building what has arrived

Each step of a selective template is built in the same way: a node is created and is busy from then
on (`Engine.Opens`), what it shows is evaluated, its children are built, and then it is settled
(`Engine.Finishes`). What the node shows decides which steps its children are built from, and these
have arrived by that.

The lemmas say of every build operation that it succeeds, and what was built (`Act.Yields`); that the
slots of the arena suffice is known only in the end (`Arena.Roomy`). A body is built by operations that
are entered anew, about which the same is assumed (`Reentry.Lays`).
-/

namespace ReactiveView

/-! ## Operations that succeed -/

/-- No change of an engine makes its slots suffice. -/
theorem Engine.roomy_stable : OperationStable fun e => ¬e.nodes.Roomy where
  outside he hnodes _ _ _ := by rwa [hnodes]
  enter he := he
  change id f _ he h := he ((Arena.roomy_modify id f).1 h)
  update _ he := he
  insert _ he h := he h.of_insert
  remove _ he h := he ((Arena.roomy_remove _).1 h)

section

variable {α β : Type} {x : Act α} {f : α → Act β} {e : Engine} {Q : α → Engine → Prop}
  {R : β → Engine → Prop}

/-- An operation that has an outcome succeeds, and its result and the engine are as is said, provided
that the slots suffice. -/
def Act.Yields (x : Act α) (e : Engine) (Q : α → Engine → Prop) : Prop :=
  ∀ ⦃r e'⦄, x.Gives e r e' → e'.nodes.Roomy → ∃ a, r = .ok a ∧ Q a e'

/-- If the slots suffice in the end, they did before. -/
theorem Act.Keeps.roomy (hx : x.Keeps fun e => ¬e.nodes.Roomy) {r : Except EngineError α} {e' : Engine}
    (h : x.Gives e r e') (hroom : e'.nodes.Roomy) : e.nodes.Roomy :=
  Classical.byContradiction fun he => hx h he hroom

/-- What an operation does may be told for engines alone whose slots suffice. -/
theorem Act.yields_of_roomy (hx : x.Keeps fun e => ¬e.nodes.Roomy)
    (h : e.nodes.Roomy → x.Yields e Q) : x.Yields e Q :=
  fun _ _ hgives hroom => h (hx.roomy hgives hroom) hgives hroom

/-- Evaluation makes no room. -/
theorem Act.Evaluates.wild {re : Reentry} (hx : x.Evaluates re) (hre : re.Operates) :
    x.Keeps fun e => ¬e.nodes.Roomy :=
  hx _ Engine.roomy_stable.evaluation (hre.enters Engine.roomy_stable.closed)

namespace Act

/-- A result. -/
theorem yields_pure {a : α} (h : Q a e) : Act.Yields (pure a) e Q := fun _ _ hgives _ => by
  obtain ⟨rfl, rfl⟩ := gives_pure.1 hgives
  exact ⟨a, rfl, h⟩

/-- Less may be said. -/
theorem Yields.imp {Q' : α → Engine → Prop} (h : x.Yields e Q) (hQ : ∀ a e', Q a e' → Q' a e') :
    x.Yields e Q' := fun _ _ hgives hroom => by
  obtain ⟨a, ha, hq⟩ := h hgives hroom
  exact ⟨a, ha, hQ a _ hq⟩

/-- One operation after another. -/
theorem yields_bind (hx : x.Yields e Q) (hwild : ∀ a, (f a).Keeps fun e => ¬e.nodes.Roomy)
    (hf : ∀ a e₁, Q a e₁ → (f a).Yields e₁ R) : Act.Yields (x >>= f) e R := by
  intro r e' hgives hroom
  rcases gives_bind.1 hgives with ⟨a, e₁, h₁, h₂⟩ | ⟨err, h₁, -⟩
  · obtain ⟨a', ha, hq⟩ := hx h₁ ((hwild a).roomy h₂ hroom)
    obtain rfl := Except.ok.inj ha
    exact hf a e₁ hq h₂ hroom
  · obtain ⟨a, ha, -⟩ := hx h₁ hroom
    cases ha

/-- One operation after another that succeeds in any case. -/
theorem yields_bind_of (hx : ∀ ⦃r e₁⦄, x.Gives e r e₁ → ∃ a, r = .ok a ∧ Q a e₁)
    (hf : ∀ a e₁, Q a e₁ → (f a).Yields e₁ R) : Act.Yields (x >>= f) e R := by
  intro r e' hgives hroom
  rcases gives_bind.1 hgives with ⟨a, e₁, h₁, h₂⟩ | ⟨err, h₁, -⟩
  · obtain ⟨a', ha, hq⟩ := hx h₁
    obtain rfl := Except.ok.inj ha
    exact hf a e₁ hq h₂ hroom
  · obtain ⟨a, ha, -⟩ := hx h₁
    cases ha

/-- A result that is not used. -/
theorem yields_discard {P : Engine → Prop} (hx : x.Yields e fun _ e' => P e') :
    Act.Yields (discard x) e fun _ e' => P e' := fun _ _ hgives hroom => by
  rcases gives_discard.1 hgives with ⟨a, h, rfl⟩ | ⟨err, h, -⟩
  · obtain ⟨-, -, hp⟩ := hx h hroom
    exact ⟨⟨⟩, rfl, hp⟩
  · obtain ⟨a, ha, -⟩ := hx h hroom
    cases ha

/-- Something is known of a result that is not used. -/
theorem yields_discard_exists (hx : x.Yields e Q) :
    Act.Yields (discard x) e fun _ e' => ∃ a, Q a e' :=
  yields_discard (hx.imp fun a _ hq => ⟨a, hq⟩)

/-- A result that is changed. -/
theorem yields_map {g : α → β} (hx : x.Yields e fun a e' => R (g a) e') :
    Act.Yields (g <$> x) e R := fun _ _ hgives hroom => by
  rcases gives_map.1 hgives with ⟨a, h, rfl⟩ | ⟨err, h, -⟩
  · obtain ⟨a', ha, hr⟩ := hx h hroom
    obtain rfl := Except.ok.inj ha
    exact ⟨g a, rfl, hr⟩
  · obtain ⟨a, ha, -⟩ := hx h hroom
    cases ha

/-- A change. -/
theorem yields_change {g : Engine → Engine} {P : Engine → Prop} (h : P (g e)) :
    (change g).Yields e fun _ e' => P e' := fun _ _ hgives _ => by
  obtain ⟨rfl, rfl⟩ := gives_change.1 hgives
  exact ⟨(), rfl, h⟩

/-- After a change with a result comes what follows it. -/
theorem yields_step_bind {g : Engine → α × Engine} :
    Act.Yields (step g >>= f) e R ↔ (f (g e).1).Yields (g e).2 R := Iff.rfl

/-- After a look at the engine comes what follows it. -/
theorem yields_read_bind {g : Engine → α} :
    Act.Yields (read g >>= f) e R ↔ (f (g e)).Yields e R := Iff.rfl

/-- After a change comes what follows it. -/
theorem yields_change_bind {g : Engine → Engine} {f : Unit → Act β} :
    Act.Yields (change g >>= f) e R ↔ (f ()).Yields (g e) R := Iff.rfl

end Act

end

/-- Bodies are built wherever they have arrived. -/
structure Reentry.Lays (re : Reentry) (b : Body) (Start : Outlook → Prop) (root : NodeId) : Prop where
  /-- The operations break no invariant. -/
  operates : re.Operates
  /-- A body is built. -/
  build : ∀ ⦃e : Engine⦄ ⦃g Busy Stale body c⦄,
    e.Admits b Start root g Busy Stale c body.steps → (re.build body c).Yields e fun _ e' =>
      ∃ g' ids, e.Built b Start root g Busy Stale c body.steps e' g' ids

namespace Engine

variable {e e' e₁ e₂ : Engine} {g g' g₁ g₂ : Plan} {root id : NodeId} {ids : List NodeId}
  {b : Body} {Start : Outlook → Prop} {Busy Busy' Stale Stale' : NodeId → Prop}
  {n n' n₁ n₂ : RenderNode} {step : Step} {c : Cursor} {steps : List Step}

/-! ## Work that is done -/

/-- Work on a node is done: the node stands for its step, shows what a look finds from where it is,
and covers what that reads. -/
structure Finishes (e : Engine) (b : Body) (Start : Outlook → Prop) (root : NodeId) (g : Plan)
    (Busy Stale : NodeId → Prop) (id : NodeId) (step : Step) (e' : Engine) (g' : Plan) : Prop where
  /-- Other nodes persist. -/
  evolves : e.Evolves (· = id) (fun _ => False) (fun _ => False) e'
  /-- The plan is one of before. -/
  plan : g.Extends e g'
  /-- The node. -/
  stands : ∃ n sight, e'.Works b Start root g' Busy Stale id n step ∧
    g'.Stands (b.Arises Start) e' (e'.outlook root (g'.label id).frame) id n step sight ∧
      sight = step.look.result (e'.outlook root (g'.label id).frame)
  /-- What was read is recorded. -/
  covers : e'.Covers root (g'.label id).frame id
    (step.look.reads (e'.outlook root (g'.label id).frame))

/-- What a node covers it covers still after work on it. -/
theorem Works.covers (h : e.Works b Start root g Busy Stale id n step) {M : NodeId → Prop}
    (h' : e'.Works b Start root g' Busy' Stale' id n' step)
    (he : e.Evolves M (fun _ => False) (fun _ => False) e') {names : List String}
    (hcovers : e.Covers root (g.label id).frame id names) :
    e'.Covers root (g.label id).frame id names :=
  he.covers h.laid.ordered h'.laid.ordered h'.laid.live_root h.live h'.live (fun h => h)
    (h.laid.lt_frame h.live) (fun _ _ h => h) hcovers

/-- A node that stands for its step is done. -/
theorem Works.finishes (h : e.Works b Start root g Busy Stale id n step)
    (hstands : g.Stands (b.Arises Start) e (e.outlook root (g.label id).frame) id n step
      (step.look.result (e.outlook root (g.label id).frame)))
    (hcovers : e.Covers root (g.label id).frame id
      (step.look.reads (e.outlook root (g.label id).frame))) :
    e.Finishes b Start root g Busy Stale id step e g :=
  ⟨.refl h.laid.valid, .refl g e, ⟨n, _, h, hstands, rfl⟩, hcovers⟩

namespace Finishes

/-- Work that went before. -/
theorem after (h : e₁.Finishes b Start root g₁ Busy Stale id step e₂ g₂)
    (he : e.Evolves (· = id) (fun _ => False) (fun _ => False) e₁) (hg : g.Extends e g₁) :
    e.Finishes b Start root g Busy Stale id step e₂ g₂ :=
  ⟨he.trans h.evolves, hg.trans he h.plan, h.stands, h.covers⟩

/-- The node is settled, and stale no more. -/
theorem laid (h : e.Finishes b Start root g Busy Stale id step e' g')
    (hBusy : ∀ x, Busy x → Busy' x ∨ x = id) :
    e'.Laid b Start root g' Busy' fun x => Stale x ∧ x ≠ id := by
  obtain ⟨n, sight, hworks, hstands, hsight⟩ := h.stands
  refine hworks.laid.close fun x m hm hx hwhy => ?_
  -- the node is the only one that was busy and is not, or stale and is not
  have hxid : x = id := by
    by_contra hne
    rcases hwhy with hbusy | ⟨hstale, hnot⟩
    · exact (hBusy x hbusy).elim hx hne
    · exact hnot ⟨hstale, hne⟩
  subst hxid
  obtain rfl := Option.some.inj (hworks.node.symm.trans hm)
  unfold Settled
  dsimp only
  rw [hworks.step_eq]
  exact ⟨sight, hstands, fun _ => ⟨hsight, h.covers⟩⟩

end Finishes

/-- More nodes may be stale. -/
theorem Laid.staler (h : e.Laid b Start root g Busy Stale)
    (hStale : ∀ x, e.contains x = true → Stale x → Stale' x) :
    e.Laid b Start root g Busy Stale' := by
  refine h.close fun x n hn hx hwhy => ?_
  rcases hwhy with hbusy | ⟨hstale, hnot⟩
  · exact absurd hbusy hx
  · exact absurd (hStale x (contains_iff.2 ⟨n, hn⟩) hstale) hnot

namespace Opens

/-- Work on a new node goes on. -/
theorem evolve (h : e.Opens b Start root g Busy Stale c step id e₁ g₁)
    (hp : e.contains c.parent = true)
    (he : e₁.Evolves (· = id) (fun _ => False) (fun _ => False) e₂) (hg : g₁.Extends e₁ g₂)
    (hworks : e₂.Works b Start root g₂ (fun x => Busy x ∨ x = id) Stale id n step) :
    e.Opens b Start root g Busy Stale c step id e₂ g₂ where
  laid := hworks.laid
  adds := h.adds.inside he hg hp (fun _ hx => hx ▸ h.fresh) (fun _ hx => hx.elim) fun _ hf => hf.elim
  fresh := h.fresh
  label := (hg.label (.inl h.live)).trans h.label
  live := hworks.live

/-- A new node that is done has been built. -/
theorem built (h : e.Opens b Start root g Busy Stale c step id e₁ g₁)
    (hp : e.contains c.parent = true)
    (hdone : e₁.Finishes b Start root g₁ (fun x => Busy x ∨ x = id) Stale id step e₂ g₂) :
    e.Built b Start root g Busy Stale c [step] e₂ g₂ [id] := by
  obtain ⟨n, -, hworks, -⟩ := hdone.stands
  have h₂ := h.evolve hp hdone.evolves hdone.plan hworks
  refine ⟨(hdone.laid fun _ hx => hx).staler fun _ _ hx => hx.1, h₂.adds, ?_⟩
  unfold Plan.Row
  rw [List.map_singleton, List.map_singleton, h₂.label, h₂.adds.below hp]

end Opens

/-- A node is created. -/
theorem Admits.alloc_yields (h : e.Admits b Start root g Busy Stale c (step :: steps))
    {kind : RenderKind} (flags : NodeFlags) (hkind : kind.context? = none) :
    (Render.alloc kind c flags).Yields e fun id e' => ∃ g' n,
      e.Opens b Start root g Busy Stale c step id e' g' ∧
        e'.Works b Start root g' (fun x => Busy x ∨ x = id) Stale id n step ∧ n.kind = kind ∧
          n.children = [] := by
  intro r e' hgives hroom
  obtain ⟨id, g', rfl, hopens, hnode⟩ := h.alloc hkind hgives hroom
  refine ⟨id, rfl, g', _, hopens, ⟨hopens.laid, .inr rfl, hnode, ?_, ?_, ?_⟩, rfl, rfl⟩
  · exact fun heq => hopens.fresh (heq ▸ .inl h.laid.live_root)
  · rw [hopens.label]
    rfl
  · have hout := h.laid.outlook_evolves hopens.laid hopens.adds.evolves h.live h.linked
    rw [hopens.label]
    unfold Plan.below
    dsimp only
    rw [hout]
    exact h.arrives step List.mem_cons_self

/-! ## Evaluation for a node -/

namespace Works

/-- What only evaluates, or changes the node alone, leaves the work on it to go on. -/
theorem revises (h : e.Works b Start root g Busy Stale id n step)
    (he : e.Revises (· = id) (fun _ => False) e') :
    e.Evolves (· = id) (fun _ => False) (fun _ => False) e' ∧
      ∃ n', e'.Works b Start root g Busy Stale id n' step ∧ n'.children = n.children := by
  have hevolves := Evolves.of_revises (F := fun _ => False) h.laid.valid he
  obtain ⟨n', hn', -, hchildren, -⟩ := he.kept h.node
  exact ⟨hevolves, n', h.evolve (h.laid.revises he (fun x hx => hx ▸ h.busy) fun _ hx => hx.elim)
    h.busy hevolves (.refl g e) hn', hchildren⟩

/-- What only evaluates leaves the node. -/
theorem evaluates (h : e.Works b Start root g Busy Stale id n step) (he : e.Evaluates e') :
    e.Evolves (· = id) (fun _ => False) (fun _ => False) e' ∧
      ∃ n', e'.Works b Start root g Busy Stale id n' step ∧ n'.children = n.children ∧
        n'.kind = n.kind := by
  obtain ⟨hevolves, n', hworks, hchildren⟩ := h.revises (he.mono (fun _ hx => hx.elim) fun _ hx => hx)
  obtain ⟨m, hm, hkind⟩ := he.kind h.node rfl (fun h => h) h.context?_eq
  obtain rfl := Option.some.inj (hworks.node.symm.trans hm)
  exact ⟨hevolves, _, hworks, hchildren, hkind⟩

/-- What the node is is changed. -/
theorem modifyKind (h : e.Works b Start root g Busy Stale id n step) {f : RenderKind → RenderKind}
    (hf : (f n.kind).context? = none) :
    (e.modifyKind id f).Works b Start root g Busy Stale id { n with kind := f n.kind } step ∧
      e.Evolves (· = id) (fun _ => False) (fun _ => False) (e.modifyKind id f) := by
  refine h.modifyNode ?_ (.refl _)
  unfold RenderNode.place
  dsimp only
  rw [hf, h.context?_eq]

/-- Steps that have arrived inside of the node may be built there. -/
theorem admits (h : e.Works b Start root g Busy Stale id n step) {frame : Option FrameId}
    (hlinked : g.Linked e id frame) (ns : Namespace)
    (harrives : ∀ s ∈ steps, b.Arrives Start s (e.outlook root frame)) :
    e.Admits b Start root g Busy Stale ⟨id, root, frame, ns⟩ steps :=
  ⟨h.laid, rfl, h.live, h.busy, hlinked, harrives⟩

/-- When the node got further children, work on it goes on. -/
theorem adds (h : e.Works b Start root g Busy Stale id n step)
    (hlaid : e'.Laid b Start root g' Busy Stale) (hadds : e.Adds g id ids e' g') :
    ∃ n', e'.Works b Start root g' Busy Stale id n' step ∧ n'.children = n.children ++ ids ∧
      n'.kind = n.kind := by
  obtain ⟨n', hn', hsame⟩ := hadds.children h.node
  refine ⟨n', h.evolve hlaid h.busy hadds.evolves hadds.plan hn', congrArg (·.children) hsame, ?_⟩
  exact RenderKind.eq_of_unread (congrArg (·.kind) hsame) h.context?_eq

/-- What is seen from the frame of the node. -/
theorem outlook_frame (h : e.Works b Start root g Busy Stale id n step) :
    e.outlook root n.frame = e.outlook root (g.label id).frame := by rw [h.placed.frame]

end Works

/-- Work on a node goes on, and the node is what it was, apart from its children. -/
structure Resumes (e : Engine) (b : Body) (Start : Outlook → Prop) (root : NodeId) (g : Plan)
    (Busy Stale : NodeId → Prop) (id : NodeId) (n : RenderNode) (step : Step) (e' : Engine) (g' : Plan)
    (n' : RenderNode) : Prop where
  /-- Other nodes persist. -/
  evolves : e.Evolves (· = id) (fun _ => False) (fun _ => False) e'
  /-- The plan is one of before. -/
  plan : g.Extends e g'
  /-- The work. -/
  works : e'.Works b Start root g' Busy Stale id n' step
  /-- The node. -/
  kind : n'.kind = n.kind

namespace Resumes

/-- Nothing has been done. -/
theorem refl (h : e.Works b Start root g Busy Stale id n step) :
    e.Resumes b Start root g Busy Stale id n step e g n := ⟨.refl h.laid.valid, .refl g e, h, rfl⟩

/-- Work that goes on twice. -/
theorem trans (h₁ : e.Resumes b Start root g Busy Stale id n step e₁ g₁ n₁)
    (h₂ : e₁.Resumes b Start root g₁ Busy Stale id n₁ step e₂ g₂ n₂) :
    e.Resumes b Start root g Busy Stale id n step e₂ g₂ n₂ :=
  ⟨h₁.evolves.trans h₂.evolves, h₁.plan.trans h₁.evolves h₂.plan, h₂.works, h₂.kind.trans h₁.kind⟩

/-- The label of the node stays. -/
theorem label (h : e.Resumes b Start root g Busy Stale id n step e' g' n')
    (hlive : e.contains id = true) : g'.label id = g.label id := h.plan.label (.inl hlive)

/-- So does what is seen from it. -/
theorem outlook (h : e.Resumes b Start root g Busy Stale id n step e' g' n')
    (hworks : e.Works b Start root g Busy Stale id n step) :
    e'.outlook root (g.label id).frame = e.outlook root (g.label id).frame :=
  hworks.outlook h.works.laid h.evolves

/-- The same, from where the node is in the end. -/
theorem sees (h : e.Resumes b Start root g Busy Stale id n step e' g' n')
    (hworks : e.Works b Start root g Busy Stale id n step) :
    e'.outlook root (g'.label id).frame = e.outlook root (g.label id).frame := by
  rw [h.label hworks.live, h.outlook hworks]

/-- What the node covers it covers still. -/
theorem covers (h : e.Resumes b Start root g Busy Stale id n step e' g' n')
    (hworks : e.Works b Start root g Busy Stale id n step) {names : List String}
    (hcovers : e.Covers root (g.label id).frame id names) :
    e'.Covers root (g'.label id).frame id names := by
  rw [h.label hworks.live]
  exact hworks.covers h.works h.evolves hcovers

/-- The node is done when it is done in the end. -/
theorem finishes (h : e.Resumes b Start root g Busy Stale id n step e₁ g₁ n₁)
    (hdone : e₁.Finishes b Start root g₁ Busy Stale id step e₂ g₂) :
    e.Finishes b Start root g Busy Stale id step e₂ g₂ := hdone.after h.evolves h.plan

end Resumes

/-- What is built below a node are further children of it. -/
theorem Works.builds (h : e.Works b Start root g Busy Stale id n step) {c : Cursor}
    (hc : c.parent = id) (hbuilt : e.Built b Start root g Busy Stale c steps e' g' ids) :
    ∃ n', e.Resumes b Start root g Busy Stale id n step e' g' n' ∧ n'.children = n.children ++ ids := by
  subst hc
  obtain ⟨n', hworks, hchildren, hkind⟩ := h.adds hbuilt.laid hbuilt.adds
  exact ⟨n', ⟨hbuilt.adds.evolves, hbuilt.adds.plan, hworks, hkind⟩, hchildren⟩

/-- A frame is added for a node. -/
theorem Works.framed (h : e.Works b Start root g Busy Stale id n step)
    {bindings : List (String × Value)} {f : FrameId}
    (hadd : e.addFrame (g.label id).frame bindings = (f, e')) :
    ∃ g' n', e.Framed b Start root g Busy Stale id ⟨(g.label id).frame, .ofList bindings⟩ f e' g' ∧
      e.Resumes b Start root g Busy Stale id n step e' g' n' ∧ n'.children = n.children := by
  have hframed := h.laid.addFrame h.live bindings
  rw [hadd] at hframed
  obtain ⟨n', hworks, hchildren, hkind⟩ := h.adds hframed.laid hframed.adds
  rw [List.append_nil] at hchildren
  exact ⟨_, n', hframed, ⟨hframed.adds.evolves, hframed.adds.plan, hworks, hkind⟩, hchildren⟩

/-- Steps were built below a node inside a new frame, which binds a name. -/
structure Housed (e : Engine) (b : Body) (Start : Outlook → Prop) (root : NodeId) (g : Plan)
    (Busy Stale : NodeId → Prop) (id : NodeId) (n : RenderNode) (step : Step) (name : String)
    (v : Value) (steps : List Step) (f : FrameId) (e' : Engine) (g' : Plan) (n' : RenderNode)
    (ids : List NodeId) : Prop extends e.Resumes b Start root g Busy Stale id n step e' g' n' where
  /-- What was built are further children. -/
  children : n'.children = n.children ++ ids
  /-- The frame is new. -/
  fresh : e.frames.get? f = none
  /-- It was made for the node. -/
  home : g'.home f = id
  /-- It binds the name. -/
  binds : e'.frames.Binds f (g'.label id).frame name v
  /-- What was built is labelled by the steps. -/
  row : g'.Row id (some f) steps ids

/-- Something was evaluated for a node: the node is as it was, and covers what was read. -/
structure Learns (e : Engine) (b : Body) (Start : Outlook → Prop) (root : NodeId) (g : Plan)
    (Busy Stale : NodeId → Prop) (id : NodeId) (n : RenderNode) (step : Step) (names : List String)
    (e' : Engine) : Prop where
  /-- Nothing else changed. -/
  evolves : e.Evolves (· = id) (fun _ => False) (fun _ => False) e'
  /-- The node is as it was. -/
  node : ∃ n', e'.Works b Start root g Busy Stale id n' step ∧ n'.children = n.children ∧
    n'.kind = n.kind
  /-- It sees what it saw. -/
  outlook : e'.outlook root (g.label id).frame = e.outlook root (g.label id).frame
  /-- What was read is recorded. -/
  covers : e'.Covers root (g.label id).frame id names

/-- What only evaluates for a node. -/
theorem Works.learns (h : e.Works b Start root g Busy Stale id n step) (he : e.Evaluates e')
    {names : List String} (hcovers : e'.Covers root n.frame id names) :
    e.Learns b Start root g Busy Stale id n step names e' := by
  obtain ⟨hevolves, n', hworks, hnode⟩ := h.evaluates he
  rw [h.placed.frame] at hcovers
  exact ⟨hevolves, ⟨n', hworks, hnode⟩, h.outlook hworks.laid hevolves, hcovers⟩

/-- No function is defined. -/
theorem Laid.ownFunction (h : e.Laid b Start root g Busy Stale) (name : String) :
    e.ownFunction root name = none := by
  unfold Engine.ownFunction
  rw [h.grounded.scopeOwner, Option.filter_eq_none_iff]
  intro v hv hcallable
  rw [h.plain name v hv] at hcallable
  cases hcallable

end Engine

namespace Render

open Engine

variable {re : Reentry} {e e' : Engine} {g : Plan} {root id : NodeId} {b : Body}
  {Start : Outlook → Prop} {Busy Stale : NodeId → Prop} {n : RenderNode} {c : Cursor}
  {steps : List Step} (hb : b.Suits Start)
include hb

/-- Refreshing a text node finishes it. -/
theorem refreshText_finishes {ex : DynamicExpr} {text : String}
    (h : e.Works b Start root g Busy Stale id n (.text (.dynamic ex)))
    (hkind : n.kind = .text ⟨text, some ex⟩) (hchildren : n.children = []) ⦃r : Except EngineError Bool⦄
    ⦃e' : Engine⦄ (hgives : (refreshText re id).Gives e r e') : ∃ changed, r = .ok changed ∧
      e.Finishes b Start root g Busy Stale id (.text (.dynamic ex)) e' g := by
  obtain ⟨hselective, ho⟩ := hb.arrives h.arrives
  have hex : ex.selective = true := by
    cases hselective with
    | text source_ok => exact source_ok
  obtain ⟨⟨changed, hr⟩, hrevises, hcovers, n', hn', hkind'⟩ := refreshText_gives h.node hkind
    h.placed.context hex ho h.laid.grounded h.outlook_frame hgives
  obtain ⟨hevolves, m, hworks, hkids⟩ := h.revises hrevises
  obtain rfl := Option.some.inj (hn'.symm.trans hworks.node)
  have hout := h.outlook hworks.laid hevolves
  refine ⟨changed, hr, .after (hworks.finishes ?_ ?_) hevolves (.refl g e)⟩
  · rw [hout]
    exact .text hkind' (fun _ hs => by cases hs) (hkids.trans hchildren)
  · rw [h.placed.frame] at hcovers
    rw [hout]
    exact hcovers

/-- A text is built. -/
theorem buildText_yields {source : TextSource} (hre : re.Operates)
    (h : e.Admits b Start root g Busy Stale c (.text source :: steps)) :
    (buildText re source c).Yields e fun _ e' =>
      ∃ g' ids, e.Built b Start root g Busy Stale c [.text source] e' g' ids := by
  cases source with
  | literal s =>
    have ho := (hb.arrives (h.arrives _ List.mem_cons_self)).2
    -- a literal is translated before its node is created
    have hshown := ho.localizeText (e := e) rfl s
    refine Act.yields_step_bind.2 ?_
    rw [hshown]
    refine Act.yields_discard ((h.alloc_yields _ rfl).imp fun id e₂ hnew => ?_)
    obtain ⟨g₂, n, hopens, hworks, hkind, hchildren⟩ := hnew
    refine ⟨g₂, [id], hopens.built h.live (hworks.finishes ?_ fun _ hx => absurd hx List.not_mem_nil)⟩
    have hout := h.laid.outlook_evolves hopens.laid hopens.adds.evolves h.live h.linked
    rw [hopens.label]
    unfold Plan.below
    dsimp only
    rw [hout]
    exact .text hkind (fun _ hs => by cases hs; rfl) hchildren
  | dynamic ex =>
    refine Act.yields_bind (h.alloc_yields _ rfl)
      (fun id => Act.keeps_discard ((evaluates_refreshText id).wild hre)) fun id e₁ hnew => ?_
    obtain ⟨g₁, n, hopens, hworks, hkind, hchildren⟩ := hnew
    refine Act.yields_discard fun r e₂ hgives _ => ?_
    obtain ⟨changed, hr, hdone⟩ := refreshText_finishes hb hworks hkind hchildren hgives
    exact ⟨changed, hr, g₁, [id], hopens.built h.live hdone⟩

/-! ## Elements -/

section

variable {tag : String} {actions : List AttrAction} {content : Content} {data : ElementData}

omit hb in
/-- An element that shows what a look finds is done when its children are there. -/
theorem finishes_element (h : e.Works b Start root g Busy Stale id n (.element tag actions content))
    (hkind : n.kind = .element data) (htag : data.tag = tag) (hactions : data.actions = actions)
    (hoverlay : data.overlay = {}) (hexpr : data.textExpr = content.expr?)
    (hstate : data.state = (Look.element { text := content.fixed (e.outlook root (g.label id).frame) }
      actions content.expr?).result (e.outlook root (g.label id).frame))
    (hcovers : e.Covers root (g.label id).frame id
      ((Look.element { text := content.fixed (e.outlook root (g.label id).frame) } actions
        content.expr?).reads (e.outlook root (g.label id).frame)))
    (hrow : g.Row id (g.label id).frame content.steps n.children) :
    e.Finishes b Start root g Busy Stale id (.element tag actions content) e g := by
  refine h.finishes ?_ hcovers
  have hstands : g.Stands (b.Arises Start) e (e.outlook root (g.label id).frame) id n
      (.element tag actions content) (.state data.state) := by
    refine .element hkind htag hactions hoverlay ?_ hexpr (fun hnone => ?_) hrow
    · rw [hstate, Look.extraClasses_element]
    · rw [hstate, hnone, Look.text_element]
  rw [hstate] at hstands
  exact hstands

/-- Refreshing an element shows what a look finds. -/
theorem refreshElement_works
    (h : e.Works b Start root g Busy Stale id n (.element tag actions content))
    (hkind : n.kind = .element data) (hactions : data.actions = actions) (hoverlay : data.overlay = {})
    (hexpr : data.textExpr.all (·.selective) = true) {initial : ElementState}
    (hinitial : initialState data = initial) ⦃r : Except EngineError Bool⦄ ⦃e' : Engine⦄
    (hgives : (refreshElement re id).Gives e r e') : ∃ changed, r = .ok changed ∧
      e.Evolves (· = id) (fun _ => False) (fun _ => False) e' ∧ ∃ n',
        e'.Works b Start root g Busy Stale id n' (.element tag actions content) ∧
          n'.children = n.children ∧
          n'.kind = .element { data with
            state := (Look.element initial actions data.textExpr).result
              (e'.outlook root (g.label id).frame) } ∧
          e'.Covers root (g.label id).frame id ((Look.element initial actions data.textExpr).reads
            (e'.outlook root (g.label id).frame)) := by
  subst hactions
  obtain ⟨hselective, ho⟩ := hb.arrives h.arrives
  obtain ⟨⟨changed, hr⟩, hrevises, hcovers, n', hn', hkind'⟩ := refreshElement_gives h.node hkind
    h.placed.context hoverlay hselective.parts.1 hexpr rfl ho h.laid.grounded h.outlook_frame hgives
  obtain ⟨hevolves, m, hworks, hkids⟩ := h.revises hrevises
  obtain rfl := Option.some.inj (hn'.symm.trans hworks.node)
  rw [hinitial] at hcovers hkind'
  rw [h.placed.frame] at hcovers
  rw [h.outlook hworks.laid hevolves]
  exact ⟨changed, hr, hevolves, n', hworks, hkids, hkind', hcovers⟩

omit hb in
/-- Selective attributes name nothing and bind nothing. -/
theorem prepareElement_selective (id : NodeId) (c : Cursor)
    (h : ∀ a ∈ actions, a.selective = true) : prepareElement re id c actions = pure [] := by
  induction actions with
  | nil => rfl
  | cons a actions ih =>
    have ih := ih fun a ha => h a (List.mem_cons_of_mem _ ha)
    have ha := h a List.mem_cons_self
    cases a with
    | ref | cref | scope | onInit | onRender | bindValue | reactive | setFalse | consume => cases ha
    | _ => exact ih

omit hb in
/-- As no function is defined, no hook is called. -/
theorem callOwnHook_yields (h : e.Laid b Start root g Busy Stale) (this : Option NodeId)
    (name : String) (args : List Value) :
    (callOwnHook re root this name args).Yields e fun _ e' => e' = e := by
  refine Act.yields_read_bind.2 ?_
  rw [h.ownFunction]
  exact Act.yields_pure rfl

/-- An element is created, and shows what its attributes say. -/
theorem beginElement_yields (hre : re.Operates)
    (h : e.Admits b Start root g Busy Stale c (.element tag actions content :: steps)) :
    (beginElement re tag actions c).Yields e fun p e' => ∃ g' n,
      e.Opens b Start root g Busy Stale c (.element tag actions content) p.1 e' g' ∧
        e'.Works b Start root g' (fun x => Busy x ∨ x = p.1) Stale p.1 n
          (.element tag actions content) ∧
        p.2 = { c with parent := p.1, ns := .below c.ns tag } ∧ n.children = [] ∧
        n.kind = .element
          { tag := tag, ns := .below c.ns tag, bind := actions.findSome? (·.bound?), actions := actions
            state := (Look.element {} actions none).result
              (e'.outlook root (g'.label p.1).frame) } ∧
        e'.Covers root (g'.label p.1).frame p.1 ((Look.element {} actions none).reads
          (e'.outlook root (g'.label p.1).frame)) := by
  have hactions := (hb.arrives (h.arrives _ List.mem_cons_self)).1.parts.1
  -- without hooks and functions, creating an element is refreshing it
  have hhooks : actions.filterMap (·.initHook?) = [] :=
    List.filterMap_eq_nil_iff.2 fun a ha => (AttrAction.quiet_of_selective (hactions a ha)).1
  refine Act.yields_bind (h.alloc_yields _ rfl) (fun id => ?_) fun id e₁ hnew => ?_
  · have hen := hre.enters Engine.roomy_stable.closed
    have htracking := Engine.roomy_stable.evaluation.tracking
    exact Act.keeps_bind (prepareElement_keeps htracking hen id c actions) fun _ =>
      Act.keeps_bind ((evaluates_refreshElement id).wild hre) fun _ =>
      Act.keeps_bind (runHooks_keeps htracking hen _ _ _) fun _ =>
      Act.keeps_bind (processNode_keeps htracking hen _ _) fun _ =>
      Act.keeps_bind (enterFrame_keeps htracking _ _) fun _ => Act.keeps_pure _
  · obtain ⟨g₁, n, hopens, hworks, hkind, hchildren⟩ := hnew
    rw [prepareElement_selective id c hactions, pure_bind, hhooks]
    refine Act.yields_bind_of (refreshElement_works hb hworks hkind rfl rfl rfl rfl)
      fun _ e₂ hrefreshed => ?_
    obtain ⟨hevolves, n₂, hworks₂, hchildren₂, hkind₂, hcovers⟩ := hrefreshed
    rw [h.ctx]
    have hruns : runHooks re root id [] = pure () := rfl
    have henters (c : Cursor) : enterFrame c [] = pure c := rfl
    simp only [hruns, henters, pure_bind]
    refine Act.yields_bind (callOwnHook_yields hworks₂.laid _ _ _) (fun _ => Act.keeps_pure _)
      fun _ e₃ he₃ => ?_
    subst he₃
    exact Act.yields_pure ⟨g₁, n₂, hopens.evolve h.live hevolves (.refl _ _) hworks₂, hworks₂, rfl,
      hchildren₂.trans hchildren, hkind₂, hcovers⟩

/-- An element is given a text of its own. -/
theorem setElementText_finishes {source : TextSource}
    (h : e.Works b Start root g Busy Stale id n (.element tag actions (.text source)))
    (hkind : n.kind = .element data) (htag : data.tag = tag) (hactions : data.actions = actions)
    (hoverlay : data.overlay = {}) (hexpr : data.textExpr = none)
    (hstate : data.state =
      (Look.element {} actions none).result (e.outlook root (g.label id).frame))
    (hcovers : e.Covers root (g.label id).frame id
      ((Look.element {} actions none).reads (e.outlook root (g.label id).frame)))
    (hchildren : n.children = []) ⦃r : Except EngineError Unit⦄ ⦃e' : Engine⦄
    (hgives : (setElementText re id source).Gives e r e') : ∃ u, r = .ok u ∧
      e.Finishes b Start root g Busy Stale id (.element tag actions (.text source)) e' g := by
  obtain ⟨hselective, ho⟩ := hb.arrives h.arrives
  have hrow {m : RenderNode} (hm : m.children = n.children) :
      g.Row id (g.label id).frame (Content.text source).steps m.children := by
    rw [hm, hchildren]
    rfl
  cases source with
  | literal s =>
    have hgives := Act.gives_step_bind.1 hgives
    rw [ho.localizeText rfl] at hgives
    obtain ⟨rfl, he'⟩ := Act.gives_change.1 hgives
    let text := some ((e.outlook root (g.label id).frame).shown s)
    obtain rfl : e' = e.modifyKind id (·.modifyElement fun data =>
      { data with state := { data.state with text := text } }) := he'
    obtain ⟨hworks, hevolves⟩ := h.modifyKind (f := (·.modifyElement fun data =>
      { data with state := { data.state with text := text } })) (by rw [hkind]; rfl)
    have hkind' : n.kind.modifyElement (fun data => { data with state :=
        { data.state with text := text } }) = .element { data with state :=
        { data.state with text := text } } := by
      rw [hkind]
      rfl
    -- the attributes say nothing of the text, so it does not matter when it is put in
    obtain ⟨hresult, hreads⟩ :=
      Look.element_with_text actions text (e.outlook root (g.label id).frame)
    refine ⟨(), rfl, .after (finishes_element hworks hkind' htag hactions hoverlay hexpr ?_ ?_
      (hrow rfl)) hevolves (.refl g e)⟩
    · rw [h.outlook hworks.laid hevolves]
      exact (congrArg (fun state : ElementState => { state with text := text }) hstate).trans
        hresult.symm
    · rw [h.outlook hworks.laid hevolves]
      exact h.covers hworks hevolves (hreads.symm ▸ hcovers)
  | dynamic ex =>
    have hgives := Act.gives_change_bind.1 hgives
    obtain ⟨hworks, hevolves⟩ := h.modifyKind (f := (·.modifyElement fun data =>
      { data with textExpr := some ex })) (by rw [hkind]; rfl)
    have hkind' : n.kind.modifyElement (fun data => { data with textExpr := some ex }) =
        .element { data with textExpr := some ex } := by
      rw [hkind]
      rfl
    -- an element is refreshed from nothing once its text is an expression
    have hinitial : initialState { data with textExpr := some ex } = {} := by
      unfold initialState
      dsimp only
      rw [hstate, Look.extraClasses_element]
      rfl
    refine (Act.gives_discard.1 hgives).elim (fun ⟨changed, hgives, hr⟩ => ?_) fun ⟨err, hgives, _⟩ => ?_
    · obtain ⟨-, -, hevolves', n', hworks', hkids, hkind'', hcovers'⟩ :=
        refreshElement_works hb hworks hkind' hactions hoverlay hselective.parts.2 hinitial hgives
      exact ⟨(), hr, .after (finishes_element hworks' hkind'' htag hactions hoverlay rfl rfl hcovers'
        (hrow hkids)) (hevolves.trans hevolves') (.refl g e)⟩
    · obtain ⟨changed, hr, -⟩ :=
        refreshElement_works hb hworks hkind' hactions hoverlay hselective.parts.2 hinitial hgives
      cases hr

omit hb in
/-- Nothing is called when an element has been built. -/
theorem finishElement_yields (hn : e.node? id = some n) (hkind : n.kind = .element data)
    (hactions : ∀ a ∈ data.actions, a.selective = true) :
    (finishElement re id).Yields e fun _ e' => e' = e := by
  have hhooks : data.actions.filterMap (·.renderHook?) = [] :=
    List.filterMap_eq_nil_iff.2 fun a ha => (AttrAction.quiet_of_selective (hactions a ha)).2.1
  refine Act.yields_read_bind.2 ?_
  rw [hn]
  dsimp only
  rw [hkind]
  dsimp only
  rw [hhooks]
  exact Act.yields_pure rfl

omit hb in
/-- What stands inside an element is built. -/
theorem buildContent_finishes (hre : re.Lays b Start root) {body : Body}
    (h : e.Works b Start root g Busy Stale id n (.element tag actions (.body body)))
    (hkind : n.kind = .element data) (htag : data.tag = tag) (hactions : data.actions = actions)
    (hoverlay : data.overlay = {}) (hexpr : data.textExpr = none)
    (hstate : data.state =
      (Look.element {} actions none).result (e.outlook root (g.label id).frame))
    (hcovers : e.Covers root (g.label id).frame id
      ((Look.element {} actions none).reads (e.outlook root (g.label id).frame)))
    (hchildren : n.children = []) (ns : Namespace) :
    (re.build body ⟨id, root, (g.label id).frame, ns⟩).Yields e fun _ e' =>
      ∃ g', e.Finishes b Start root g Busy Stale id (.element tag actions (.body body)) e' g' := by
  refine (hre.build (h.admits (.inl rfl) ns fun s hs => .element h.arrives hs)).imp
    fun _ e' hbuilt => ?_
  obtain ⟨g', ids, hbuilt⟩ := hbuilt
  obtain ⟨n', hresumes, hchildren'⟩ := h.builds rfl hbuilt
  refine ⟨g', hresumes.finishes (finishes_element hresumes.works (hresumes.kind.trans hkind) htag
    hactions hoverlay hexpr ?_ ?_ ?_)⟩
  · rw [hresumes.sees h]
    exact hstate
  · rw [hresumes.sees h]
    exact hresumes.covers h hcovers
  · rw [hchildren', hchildren, List.nil_append, hresumes.label h.live]
    exact hbuilt.row

/-- An element is built. -/
theorem buildElement_yields (hre : re.Lays b Start root)
    (h : e.Admits b Start root g Busy Stale c (.element tag actions content :: steps)) :
    (buildElement re tag actions content c).Yields e fun _ e' =>
      ∃ g' ids, e.Built b Start root g Busy Stale c [.element tag actions content] e' g' ids := by
  have hactions := (hb.arrives (h.arrives _ List.mem_cons_self)).1.parts.1
  have hrender : actions.any (·.isNotRender) = false :=
    List.any_eq_false.2 fun a ha => by rw [(AttrAction.quiet_of_selective (hactions a ha)).2.2]; nofun
  unfold buildElement
  rw [hrender]
  have hends : ∀ id, (finishElement re id).Keeps fun e => ¬e.nodes.Roomy := fun id =>
    finishElement_keeps Engine.roomy_stable.evaluation.tracking
      (hre.operates.enters Engine.roomy_stable.closed) id
  refine Act.yields_bind (beginElement_yields hb hre.operates h) (fun p => ?_) fun p e₁ hbegun => ?_
  · cases content with
    | text source =>
      exact Act.keeps_bind ((evaluates_setElementText _ source).wild hre.operates) fun _ => hends _
    | body body =>
      exact Act.keeps_bind ((hre.operates _ Engine.roomy_stable.closed).build body _) fun _ => hends _
  · obtain ⟨id, inner⟩ := p
    obtain ⟨g₁, n, hopens, hworks, hinner, hchildren, hkind, hcovers⟩ := hbegun
    dsimp only at hopens hworks hinner hkind hcovers ⊢
    -- once its content is there, nothing else happens to the element
    have hclose {x : Act Unit} (hx : x.Yields e₁ fun _ e' => ∃ g',
        e₁.Finishes b Start root g₁ (fun x => Busy x ∨ x = id) Stale id
          (.element tag actions content) e' g') :
        Act.Yields (x >>= fun _ => finishElement re id) e₁ fun _ e' =>
          ∃ g' ids, e.Built b Start root g Busy Stale c [.element tag actions content] e' g' ids := by
      refine Act.yields_bind hx (fun _ => hends id) fun _ e₂ hdone => ?_
      obtain ⟨g₂, hdone⟩ := hdone
      obtain ⟨m, _, hworks₂, hstands, -⟩ := hdone.stands
      have hbuilt := hopens.built h.live hdone
      cases hstands with
      | element hkind₂ htag₂ hactions₂ =>
        refine (finishElement_yields hworks₂.node hkind₂ fun a ha => ?_).imp fun _ e₃ he₃ => ?_
        · rw [hactions₂] at ha
          exact hactions a ha
        · subst he₃
          exact ⟨g₂, [id], hbuilt⟩
    cases content with
    | text source =>
      refine hclose fun r e' hgives _ => ?_
      obtain ⟨u, hr, hdone⟩ := setElementText_finishes hb hworks hkind rfl rfl rfl rfl rfl hcovers
        hchildren hgives
      exact ⟨u, hr, g₁, hdone⟩
    | body body =>
      have hframe : (g₁.label id).frame = c.frame := by
        rw [hopens.label]
        rfl
      rw [hinner, h.ctx, ← hframe]
      exact hclose (buildContent_finishes hre hworks hkind rfl rfl rfl rfl rfl hcovers hchildren _)

end

/-! ## Conditions -/

section

variable {branches : List Branch} {reactive : Bool} {data : ConditionData}

/-- A branch is selected. -/
theorem selectBranch_learns (h : e.Works b Start root g Busy Stale id n (.choice branches reactive))
    (hkind : n.kind = .condition data) (hbranches : data.branches = branches)
    (hreactive : data.reactive = reactive) ⦃r : Except EngineError (Option Nat)⦄ ⦃e' : Engine⦄
    (hgives : (selectBranch re id).Gives e r e') : ∃ selected, r = .ok selected ∧
      selected = (Look.branch 0 branches).result (e'.outlook root (g.label id).frame) ∧
        e.Learns b Start root g Busy Stale id n (.choice branches reactive)
          ((Look.branch 0 branches).reads (e'.outlook root (g.label id).frame)) e' := by
  subst hbranches hreactive
  obtain ⟨hselective, ho⟩ := hb.arrives h.arrives
  have hbranches : ∀ b ∈ data.branches, b.selective data.reactive = true := by
    cases hselective with
    | choice branches_ok _ => exact branches_ok
  obtain ⟨rfl, hevaluates, hcovers⟩ := selectBranch_gives h.node hkind h.placed.context hbranches ho
    h.laid.grounded h.outlook_frame hgives
  have hlearns := h.learns hevaluates hcovers
  rw [hlearns.outlook]
  exact ⟨_, rfl, rfl, hlearns⟩

omit hb in
/-- A condition that shows the selected branch is done. -/
theorem finishes_choice (h : e.Works b Start root g Busy Stale id n (.choice branches reactive))
    (hkind : n.kind = .condition data) (hbranches : data.branches = branches)
    (hreactive : data.reactive = reactive)
    (hselected : data.selected = (Look.branch 0 branches).result (e.outlook root (g.label id).frame))
    (hcovers : e.Covers root (g.label id).frame id
      ((Look.branch 0 branches).reads (e.outlook root (g.label id).frame)))
    (hrow : g.Row id (g.label id).frame (Branch.steps branches data.selected) n.children) :
    e.Finishes b Start root g Busy Stale id (.choice branches reactive) e g := by
  have hstands : g.Stands (b.Arises Start) e (e.outlook root (g.label id).frame) id n
      (.choice branches reactive) (.branch data.selected) := .choice hkind hbranches hreactive hrow
  rw [hselected] at hstands
  exact h.finishes hstands hcovers

omit hb in
/-- The selected branch is built. -/
theorem buildBranch_finishes (hre : re.Lays b Start root)
    (h : e.Works b Start root g Busy Stale id n (.choice branches reactive))
    (hkind : n.kind = .condition data) (hbranches : data.branches = branches)
    (hreactive : data.reactive = reactive) (hchildren : n.children = []) {selected : Option Nat}
    (hselected : selected = (Look.branch 0 branches).result (e.outlook root (g.label id).frame))
    (hcovers : e.Covers root (g.label id).frame id
      ((Look.branch 0 branches).reads (e.outlook root (g.label id).frame))) :
    (buildBranch re id selected).Yields e fun _ e' => ∃ g',
      e.Finishes b Start root g Busy Stale id (.choice branches reactive) e' g' := by
  refine Act.yields_read_bind.2 ?_
  rw [h.node]
  dsimp only
  rw [hkind]
  refine Act.yields_change_bind.2 ?_
  obtain ⟨hworks, hevolves⟩ := h.modifyKind
    (f := fun _ => .condition { data with selected := selected }) rfl
  generalize e.modifyKind id (fun _ => .condition { data with selected := selected }) = e₁
    at hworks hevolves ⊢
  -- the branch is stored before it is built
  obtain ⟨n₁, hn₁⟩ : ∃ n₁ : RenderNode,
    { n with kind := .condition { data with selected := selected } } = n₁ := ⟨_, rfl⟩
  rw [hn₁] at hworks
  have hkind₁ := (congrArg (·.kind) hn₁).symm
  have hchildren₁ : n₁.children = [] := (congrArg (·.children) hn₁).symm.trans hchildren
  have hout := h.outlook hworks.laid hevolves
  have hcovers := h.covers hworks hevolves hcovers
  rw [← hout] at hselected hcovers
  -- whatever is built inside, the condition shows the branch that was selected
  have hdone {e₂ : Engine} {g₂ : Plan} {m : RenderNode}
      (hresumes : e₁.Resumes b Start root g Busy Stale id n₁ (.choice branches reactive) e₂ g₂ m)
      (hrow : g₂.Row id (g₂.label id).frame (Branch.steps branches selected) m.children) :
      e.Finishes b Start root g Busy Stale id (.choice branches reactive) e₂ g₂ := by
    refine .after (hresumes.finishes (finishes_choice hresumes.works (hresumes.kind.trans hkind₁)
      hbranches hreactive ?_ ?_ hrow)) hevolves (.refl g e)
    · rw [hresumes.sees hworks]
      exact hselected
    · rw [hresumes.sees hworks]
      exact hresumes.covers hworks hcovers
  cases hfound : selected.bind (data.branches[·]?) with
  | none =>
    refine Act.yields_pure ⟨g, hdone (.refl hworks) ?_⟩
    rw [← hbranches]
    unfold Plan.Row Branch.steps
    rw [hfound, hchildren₁]
    rfl
  | some branch =>
    refine Act.yields_read_bind.2 ?_
    -- the steps of the branch arrive because it is the one that a look finds
    have hsteps : Branch.steps branches selected = branch.body.steps := by
      unfold Branch.steps
      rw [← hbranches, hfound]
      rfl
    rw [h.placed.context, h.placed.frame]
    refine (hre.build (hworks.admits (.inl rfl) _ fun s hs => ?_)).imp fun _ e₂ hbuilt => ?_
    · refine .branch hworks.arrives ?_
      rw [← hselected, hsteps]
      exact hs
    · obtain ⟨g₂, ids, hbuilt⟩ := hbuilt
      obtain ⟨m, hresumes, hchildren₂⟩ := hworks.builds rfl hbuilt
      refine ⟨g₂, hdone hresumes ?_⟩
      rw [hchildren₂, hchildren₁, List.nil_append, hsteps, hresumes.label hworks.live]
      exact hbuilt.row

/-- A condition is built. -/
theorem buildChoice_yields (hre : re.Lays b Start root)
    (h : e.Admits b Start root g Busy Stale c (.choice branches reactive :: steps)) :
    (buildChoice re branches reactive c).Yields e fun _ e' =>
      ∃ g' ids, e.Built b Start root g Busy Stale c [.choice branches reactive] e' g' ids := by
  refine Act.yields_bind (h.alloc_yields _ rfl) (fun id => ?_) fun id e₁ hnew => ?_
  · exact Act.keeps_bind (selectBranch_keeps Engine.roomy_stable.evaluation.tracking
      (hre.operates.enters Engine.roomy_stable.closed) trivial) fun _ =>
        buildBranch_keeps Engine.roomy_stable.closed hre.operates _ _
  · obtain ⟨g₁, n, hopens, hworks, hkind, hchildren⟩ := hnew
    refine Act.yields_bind_of (selectBranch_learns hb hworks hkind rfl rfl)
      fun selected e₂ hlearns => ?_
    obtain ⟨hselected, hlearns⟩ := hlearns
    obtain ⟨n₂, hworks₂, hchildren₂, hkind₂⟩ := hlearns.node
    refine (buildBranch_finishes hre hworks₂ (hkind₂.trans hkind) rfl rfl
      (hchildren₂.trans hchildren) hselected hlearns.covers).imp fun _ e₃ hdone => ?_
    obtain ⟨g₃, hdone⟩ := hdone
    exact ⟨g₃, [id], hopens.built h.live (hdone.after hlearns.evolves (.refl _ _))⟩

end

/-! ## Bodies inside new frames -/

omit hb in
/-- A body is built inside a new frame of a node. The frame may also bind the place in a loop. -/
theorem build_houses (hre : re.Lays b Start root) {step : Step} {name : String} {v : Value}
    {body : Body} {bindings : List (String × Value)} {f : FrameId}
    (h : e.Works b Start root g Busy Stale id n step)
    (hadd : e.addFrame (g.label id).frame ((name, v) :: bindings) = (f, e'))
    (hbindings : ∀ p ∈ bindings, p.1 = "forloop")
    (harrives : ∀ s ∈ body.steps,
      b.Arrives Start s ((e.outlook root (g.label id).frame).bind name v)) (ns : Namespace) :
    (re.build body ⟨id, root, some f, ns⟩).Yields e' fun _ e'' => ∃ g' n' ids,
      e.Housed b Start root g Busy Stale id n step name v body.steps f e'' g' n' ids := by
  obtain ⟨g₁, n₁, hframed, hresumes, hchildren⟩ := h.framed hadd
  have hlabel := hresumes.label h.live
  have hbinds : e'.frames.Binds f (g.label id).frame name v :=
    FrameStore.binds_ofList hframed.added hbindings
  -- the body is built at the node, but in the new frame
  have hlinked : g₁.Linked e' id (some f) :=
    .inr ⟨f, _, rfl, hframed.added, hframed.home, by rw [hlabel]⟩
  refine (hre.build (hresumes.works.admits hlinked ns fun s hs => ?_)).imp fun _ e₂ hbuilt => ?_
  · rw [outlook_binds hframed.laid.ordered hbinds, hresumes.outlook h]
    exact harrives s hs
  · obtain ⟨g₂, ids, hbuilt⟩ := hbuilt
    obtain ⟨n₂, hbuilds, hchildren₂⟩ := hresumes.works.builds rfl hbuilt
    have hresumes₂ := hresumes.trans hbuilds
    refine ⟨g₂, n₂, ids, hresumes₂, hchildren₂.trans (by rw [hchildren]), hframed.fresh,
      (hbuilt.adds.plan.home hframed.added).trans hframed.home, ?_, hbuilt.row⟩
    rw [hresumes₂.label h.live]
    -- building the body has bound no frame again
    refine hbinds.congr fun fr hfr => ?_
    obtain ⟨fr', hfr', -, hsame⟩ := hbuilt.adds.evolves.frames hfr
    rw [hfr', hsame fun h => h]

/-! ## Sets -/

section

variable {name : String} {value : DynamicExpr} {body : Body} {data : SetData}

/-- The value of a set is found. -/
theorem setValue_learns (h : e.Works b Start root g Busy Stale id n (.set name value body))
    (hkind : n.kind = .set data) (hvalue : data.value = value) ⦃r : Except EngineError Value⦄
    ⦃e' : Engine⦄ (hgives : (setValue re id).Gives e r e') : ∃ v, r = .ok v ∧
      v = (Look.value value).result (e'.outlook root (g.label id).frame) ∧
        e.Learns b Start root g Busy Stale id n (.set name value body)
          ((Look.value value).reads (e'.outlook root (g.label id).frame)) e' := by
  subst hvalue
  obtain ⟨hselective, ho⟩ := hb.arrives h.arrives
  have hvalue : data.value.selective = true := by
    cases hselective with
    | set value_ok _ => exact value_ok
  obtain ⟨rfl, hevaluates, hcovers⟩ := setValue_gives h.node hkind h.placed.context hvalue ho
    h.laid.grounded h.outlook_frame hgives
  have hlearns := h.learns hevaluates hcovers
  rw [hlearns.outlook]
  exact ⟨_, rfl, rfl, hlearns⟩

omit hb in
/-- What a name is bound for is built. -/
theorem fillSet_finishes (hre : re.Lays b Start root)
    (h : e.Works b Start root g Busy Stale id n (.set name value body)) (hkind : n.kind = .set data)
    (hname : data.name = name) (hvalue : data.value = value) (hbody : data.body = body)
    (hchildren : n.children = []) {v : Value}
    (hv : v = (Look.value value).result (e.outlook root (g.label id).frame))
    (hcovers : e.Covers root (g.label id).frame id
      ((Look.value value).reads (e.outlook root (g.label id).frame))) :
    (fillSet re id v).Yields e fun _ e' => ∃ g',
      e.Finishes b Start root g Busy Stale id (.set name value body) e' g' := by
  refine Act.yields_read_bind.2 ?_
  rw [h.node]
  dsimp only
  rw [hkind]
  refine Act.yields_change_bind.2 (Act.yields_step_bind.2 (Act.yields_read_bind.2 ?_))
  obtain ⟨hworks₁, hevolves₁⟩ := h.modifyKind
    (f := fun _ => .set { data with current := v }) rfl
  generalize e.modifyKind id (fun _ => .set { data with current := v }) = e₁ at hworks₁ hevolves₁ ⊢
  rw [h.placed.context, h.placed.frame, hname]
  obtain ⟨f, e₂, hadd⟩ : ∃ f e₂, e₁.addFrame (g.label id).frame [(name, v)] = (f, e₂) := ⟨_, _, rfl⟩
  rw [hadd]
  dsimp only
  have hout₁ := h.outlook hworks₁.laid hevolves₁
  refine (build_houses hre hworks₁ hadd (fun _ hp => absurd hp List.not_mem_nil) (fun s hs => ?_) _).imp
    fun _ e₃ hhoused => ?_
  · rw [hout₁, hv]
    exact .bound h.arrives (hbody ▸ hs)
  · obtain ⟨g₃, n₃, ids, hhoused⟩ := hhoused
    -- what the set sees is the same before and after, and so is the value that a look finds
    have hsees := (hhoused.sees hworks₁).trans hout₁
    refine ⟨g₃, .after (hhoused.finishes (hhoused.works.finishes ?_ ?_)) hevolves₁ (.refl g e)⟩
    · rw [hsees]
      have hstands : g₃.Stands (b.Arises Start) e₃ (e.outlook root (g.label id).frame) id n₃
          (.set name value body) (.value v) := by
        refine .set hhoused.kind hname hvalue hbody ?_ hhoused.home hhoused.binds ?_
        · rw [hv]
          exact .value h.arrives
        · rw [hhoused.children, hchildren, List.nil_append, ← hbody]
          exact hhoused.row
      rw [hv] at hstands
      exact hstands
    · rw [hsees]
      exact hhoused.covers hworks₁ (h.covers hworks₁ hevolves₁ hcovers)

/-- A set is built. -/
theorem buildSet_yields (hre : re.Lays b Start root)
    (h : e.Admits b Start root g Busy Stale c (.set name value body :: steps)) :
    (buildSet re name value body c).Yields e fun _ e' =>
      ∃ g' ids, e.Built b Start root g Busy Stale c [.set name value body] e' g' ids := by
  refine Act.yields_bind (h.alloc_yields _ rfl) (fun id => ?_) fun id e₁ hnew => ?_
  · exact Act.keeps_bind (setValue_keeps Engine.roomy_stable.evaluation.tracking
      (hre.operates.enters Engine.roomy_stable.closed) trivial) fun _ =>
        fillSet_keeps Engine.roomy_stable.closed hre.operates _ _
  · obtain ⟨g₁, n, hopens, hworks, hkind, hchildren⟩ := hnew
    refine Act.yields_bind_of (setValue_learns hb hworks hkind rfl) fun v e₂ hlearns => ?_
    obtain ⟨hv, hlearns⟩ := hlearns
    obtain ⟨n₂, hworks₂, hchildren₂, hkind₂⟩ := hlearns.node
    refine (fillSet_finishes hre hworks₂ (hkind₂.trans hkind) rfl rfl rfl
      (hchildren₂.trans hchildren) hv hlearns.covers).imp fun _ e₃ hdone => ?_
    obtain ⟨g₃, hdone⟩ := hdone
    exact ⟨g₃, [id], hopens.built h.live (hdone.after hlearns.evolves (.refl _ _))⟩

end

end Render
end ReactiveView
