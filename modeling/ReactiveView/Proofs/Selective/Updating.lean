import ReactiveView.Proofs.Selective.Clearing

/-!
# Updating a laid-out tree

A node is due for an update if no work is going on under it and its step has arrived where it is
(`Engine.Due`). An update lets it show what a look finds, and everything under it if that is asked
for; nothing else changes (`Engine.Updated`). What it shows decides what is done about its children:
they stay, or they are built anew, or they are updated in turn, each of them being due by what the
node shows (`Plan.Stands.arrives`).
-/

namespace ReactiveView

/-! ## What arrives at the children -/

namespace Plan

variable {g : Plan} {e : Engine} {root x c p : NodeId} {b : Body} {Start : Outlook → Prop}
  {o : Outlook} {n : RenderNode} {step : Step} {steps : List Step} {sight : Sight}
  {frame : Option FrameId} {ids : List NodeId}

/-- A node of a row is labelled by one of its steps. -/
theorem Row.exists_step (h : g.Row p frame steps ids) (hc : c ∈ ids) :
    ∃ s ∈ steps, g.label c = g.below p frame s := by
  unfold Row at h
  have hmem := List.mem_map_of_mem (f := g.label) hc
  rw [h] at hmem
  obtain ⟨s, hs, hlabel⟩ := List.mem_map.1 hmem
  exact ⟨s, hs, hlabel.symm⟩

/-- What arrives in a frame arrives at the nodes that were built there. -/
theorem Row.arrives (h : g.Row p frame steps ids) (hc : c ∈ ids)
    (hsteps : ∀ s ∈ steps, b.Arrives Start s (e.outlook root frame)) :
    b.Arrives Start (g.label c).step (e.outlook root (g.label c).frame) := by
  obtain ⟨s, hmem, hlabel⟩ := h.exists_step hc
  rw [hlabel]
  exact hsteps s hmem

/-- What arrives at the children of a node that shows what a look finds. -/
theorem Stands.arrives {Arises : Value → Prop} (h : g.Stands Arises e o x n step sight)
    (hb : b.Suits Start) (hs : e.frames.Ordered) (ho : o = e.outlook root (g.label x).frame)
    (hsight : sight = step.look.result o)
    (harrives : b.Arrives Start step o ∨ step = .fragment b ∧ Start o) (hc : c ∈ n.children) :
    b.Arrives Start (g.label c).step (e.outlook root (g.label c).frame) := by
  -- only the root stands for a fragment
  have hstep (hother : ∀ body, step ≠ .fragment body) : b.Arrives Start step o :=
    harrives.resolve_right fun htop => hother b htop.1
  subst ho
  cases h with
  | element kind tag_eq actions_eq overlay added expr fixed children =>
    exact children.arrives hc fun s hmem => .element (hstep nofun) hmem
  | text kind fixed children =>
    rw [children] at hc
    exact absurd hc List.not_mem_nil
  | @choice branches reactive data kind branches_eq reactive_eq children =>
    have hselected : data.selected =
        (Look.branch 0 branches).result (e.outlook root (g.label x).frame) := Sight.branch.inj hsight
    refine children.arrives hc fun s hmem => .branch (hstep nofun) ?_
    rw [← hselected]
    exact hmem
  | @loop spec items insts data kind spec_eq arise state showing rounds frames children =>
    have hloop := hstep nofun
    have hitems : items = (Look.items spec.iterable).result (e.outlook root (g.label x).frame) :=
      Sight.items.inj hsight
    unfold Filled at children
    split at children
    · -- without instances there are no items, and the children are those of the empty case
      rename_i hnone
      have hnone : items = [] := by
        refine spec.rounds_eq_nil (List.length_eq_zero_iff.1 ?_)
        rw [← List.length_map, ← rounds.length_eq, hnone]
        rfl
      exact children.arrives hc fun s hmem => .empty hloop (hitems.symm.trans hnone) hmem
    · -- a child belongs to an instance, whose frame binds one of the items
      rw [children] at hc
      obtain ⟨inst, hinst, hc⟩ := List.mem_flatMap.1 hc
      obtain ⟨item, hitem, hround⟩ := List.Forall₂.exists_of_mem rounds hinst
      obtain ⟨p, hp, rfl⟩ := List.mem_map.1 hitem
      refine hround.row.arrives hc fun s hmem => ?_
      rw [Engine.outlook_binds hs hround.binds]
      refine .item hloop ?_ hmem
      rw [← hitems]
      exact LoopSpec.mem_rounds hp
  | @set name value body data f kind name_eq value_eq body_eq arise home binds children =>
    have hvalue : data.current = (Look.value value).result (e.outlook root (g.label x).frame) :=
      Sight.value.inj hsight
    refine children.arrives hc fun s hmem => ?_
    rw [Engine.outlook_binds hs binds, hvalue]
    exact .bound (hstep nofun) hmem
  | top children =>
    rcases harrives with harrives | ⟨hbody, hstart⟩
    · cases (hb.arrives harrives).1
    · obtain rfl := Step.fragment.inj hbody
      exact children.arrives hc fun s hmem => .top hstart hmem

end Plan

namespace Engine

variable {e e' e₁ e₂ : Engine} {g g' g₁ g₂ : Plan} {root id c p x : NodeId} {b : Body}
  {Start : Outlook → Prop} {Busy Busy' Stale Stale' : NodeId → Prop} {n n' : RenderNode} {step : Step}
  {recursive : Bool} {cs : List NodeId}

/-- What arrives at a child of a settled node. -/
theorem Laid.arrives_child (h : e.Laid b Start root g Busy Stale) (hb : b.Suits Start)
    (hn : e.node? p = some n) (hbusy : ¬Busy p) (hstale : ¬Stale p)
    (harrives : p ≠ root → b.Arrives Start (g.label p).step (e.outlook root (g.label p).frame))
    (hc : c ∈ n.children) :
    b.Arrives Start (g.label c).step (e.outlook root (g.label c).frame) := by
  obtain ⟨sight, hstands, hshows⟩ := h.settled hn hbusy
  refine hstands.arrives hb h.ordered rfl (hshows hstale).1 ?_ hc
  by_cases hroot : p = root
  · subst hroot
    rw [h.top]
    exact .inr ⟨rfl, h.start⟩
  · exact .inl (harrives hroot)

/-! ## Nodes that are due -/

/-- No work goes on under a node. -/
structure Apart (e : Engine) (g : Plan) (Busy Stale : NodeId → Prop) (id : NodeId) : Prop where
  /-- Nodes that are being worked on, and nodes that are stale, are no new ones. -/
  known : ∀ x, Busy x ∨ Stale x → e.Known x
  /-- Neither the node nor any node under it is being worked on. -/
  idle : ∀ x, e.contains x = true → g.Under id x → ¬Busy x

/-- This stays so while nodes change and come. -/
theorem Apart.persist (h : e.Apart g Busy Stale id) {M R : NodeId → Prop} {F : FrameId → Prop}
    (he : e.Evolves M R F e') (hg : g.Extends e g') (hStale : ∀ x, Stale' x → Stale x) :
    e'.Apart g' Busy Stale' id where
  known x hx := he.known (h.known x (hx.imp_right (hStale x)))
  idle x hx hunder hbusy := by
    have hknown := h.known x (.inl hbusy)
    exact h.idle x (he.contains hx hknown) ((hg.under hknown).1 hunder) hbusy

/-- A node is due for an update: no work goes on under it, and its step has arrived where it is. -/
structure Due (e : Engine) (b : Body) (Start : Outlook → Prop) (root : NodeId) (g : Plan)
    (Busy Stale : NodeId → Prop) (id : NodeId) : Prop where
  /-- The tree is laid out. -/
  laid : e.Laid b Start root g Busy Stale
  /-- No work goes on under the node. -/
  apart : e.Apart g Busy Stale id
  /-- The node is there. -/
  live : e.contains id = true
  /-- It is not the root. -/
  other : id ≠ root
  /-- Its step has arrived. -/
  arrives : b.Arrives Start (g.label id).step (e.outlook root (g.label id).frame)

/-- Work on a node that is due begins. -/
theorem Due.works (h : e.Due b Start root g Busy Stale id) (hn : e.node? id = some n) :
    e.Works b Start root g (fun x => Busy x ∨ x = id) Stale id n (g.label id).step :=
  ⟨h.laid.busier fun _ hx => .inl hx, .inr rfl, hn, h.other, rfl, h.arrives⟩

/-- A node that is due remains so while other nodes change. -/
theorem Due.persist (h : e.Due b Start root g Busy Stale id) {M R : NodeId → Prop}
    {F : FrameId → Prop} (he : e.Evolves M R F e') (hg : g.Extends e g')
    (h' : e'.Laid b Start root g' Busy Stale') (hM : ¬M id)
    (hF : ∀ f, e.frames.Chain (g.label id).frame f → ¬F f) (hStale : ∀ x, Stale' x → Stale x) :
    e'.Due b Start root g' Busy Stale' id where
  laid := h'
  apart := h.apart.persist he hg hStale
  live := by
    obtain ⟨n, hn⟩ := contains_iff.1 h.live
    obtain ⟨n', hn', -⟩ := he.kept hn hM
    exact contains_iff.2 ⟨n', hn'⟩
  other := h.other
  arrives := by
    rw [hg.label (.inl h.live), he.outlook h.laid.ordered h'.ordered h.laid.live_root h'.live_root
      (h.laid.lt_frame h.live) hF]
    exact h.arrives

/-- Evaluation lets nodes be due. -/
theorem Due.evaluates (h : e.Due b Start root g Busy Stale id) (he : e.Evaluates e') :
    e'.Due b Start root g Busy Stale id :=
  h.persist (F := fun _ => False) (.of_revises h.laid.valid he) (.refl g e)
    (h.laid.revises he (fun _ hx => hx.elim) fun _ hx => hx.elim) (fun hx => hx) (fun _ _ hf => hf)
    fun _ hx => hx

/-- A node was updated, or also everything under it. -/
structure Updated (e : Engine) (b : Body) (Start : Outlook → Prop) (root : NodeId) (g : Plan)
    (Busy Stale : NodeId → Prop) (id : NodeId) (recursive : Bool) (e' : Engine) (g' : Plan) : Prop where
  /-- It is stale no more. -/
  laid : e'.Laid b Start root g' Busy fun x => Stale x ∧ ¬(x = id ∨ recursive = true ∧ g'.Under id x)
  /-- The node is there still. -/
  live : e'.contains id = true
  /-- Everything else persists. -/
  evolves : e.Evolves (g.Under id) (g.Under id) (g.Inside e id) e'
  /-- The plan is one of before. -/
  plan : g.Extends e g'

/-- A node that was worked on is up to date, or also everything under it. -/
structure Refreshed (e : Engine) (b : Body) (Start : Outlook → Prop) (root : NodeId) (g : Plan)
    (Busy Stale : NodeId → Prop) (id : NodeId) (recursive : Bool) (e' : Engine) (g' : Plan) : Prop where
  /-- It is stale no more. -/
  laid : e'.Laid b Start root g' Busy fun x => Stale x ∧ ¬(x = id ∨ recursive = true ∧ g'.Under id x)
  /-- The node is there. -/
  live : e'.contains id = true
  /-- What is under it may have changed. -/
  pursues : e.Pursues g id e' g'

/-- A node of which the reads were dropped before was updated. -/
theorem Refreshed.updated (h : e₁.Refreshed b Start root g Busy Stale id recursive e' g')
    (hlaid : e.Laid b Start root g Busy' Stale')
    (he : e.Evolves (· = id) (· = id) (fun _ => False) e₁) :
    e.Updated b Start root g Busy Stale id recursive e' g' where
  laid := h.laid
  live := h.live
  evolves := he.after h.pursues.evolves (fun _ _ hx => hx.elim .inl fun hx => hx)
    (fun _ _ hx => hx.elim .inl And.left) fun _ _ hfr hf =>
      hf.elim False.elim (hlaid.inside_of_later he (.refl g e) hfr)
  plan := (Plan.Extends.refl g e).trans he h.pursues.plan

/-- A node of which the work began before is up to date. -/
theorem Refreshed.after (h : e₁.Refreshed b Start root g₁ Busy Stale id recursive e₂ g₂)
    (hlaid : e.Laid b Start root g Busy' Stale') (hpursues : e.Pursues g id e₁ g₁) :
    e.Refreshed b Start root g Busy Stale id recursive e₂ g₂ :=
  ⟨h.laid, h.live, hpursues.trans hlaid h.pursues⟩

/-- Evaluation leaves a node up to date. -/
theorem Refreshed.evaluates (h : e.Refreshed b Start root g Busy Stale id recursive e₁ g₁)
    (hlaid : e.Laid b Start root g Busy' Stale') (he : e₁.Evaluates e₂) :
    e.Refreshed b Start root g Busy Stale id recursive e₂ g₁ where
  laid := h.laid.revises he (fun _ hx => hx.elim) fun _ hx => hx.elim
  live := he.contains_iff.2 h.live
  pursues := by
    refine h.pursues.trans hlaid ⟨?_, .refl g₁ e₁⟩
    exact (Evolves.of_revises h.laid.valid he).mono (fun _ hx => hx.elim) (fun _ hx => hx.elim)
      fun _ hf => hf

/-- Nodes were updated with everything under them. -/
structure Swept (e : Engine) (b : Body) (Start : Outlook → Prop) (root : NodeId) (g : Plan)
    (Busy Stale : NodeId → Prop) (cs : List NodeId) (e' : Engine) (g' : Plan) : Prop where
  /-- They are stale no more. -/
  laid : e'.Laid b Start root g' Busy fun x => Stale x ∧ ¬∃ c ∈ cs, g'.Under c x
  /-- Everything else persists. -/
  evolves : e.Evolves (fun x => ∃ c ∈ cs, g.Under c x) (fun x => ∃ c ∈ cs, g.Under c x)
    (fun f => ∃ c ∈ cs, g.Inside e c f) e'
  /-- The plan is one of before. -/
  plan : g.Extends e g'

/-- What is under children of a node is under the node, but is not the node. -/
theorem Swept.pursues (h : e.Swept b Start root g Busy Stale cs e' g')
    (hlaid : e.Laid b Start root g Busy' Stale') (hn : e.node? id = some n)
    (hcs : ∀ c ∈ cs, c ∈ n.children) : e.Pursues g id e' g' := by
  have hchild {x : NodeId} (hx : e.contains x = true) (hcx : ∃ c ∈ cs, g.Under c x) :
      g.Under id x ∧ x ≠ id := by
    obtain ⟨c, hc, hcx⟩ := hcx
    obtain ⟨-, nc, hnc, hp⟩ := hlaid.exists_child hn (hcs c hc)
    refine ⟨hlaid.under_trans hx (hlaid.under_parent hnc hp) hcx, fun heq => ?_⟩
    exact hlaid.not_under_child hn (hcs c hc) (heq ▸ hcx)
  exact ⟨h.evolves.mono_live (fun x hx hcx => (hchild hx hcx).1) (fun x hx hcx => hchild hx hcx)
    fun f fr hfr ⟨c, hc, hinside⟩ => ⟨hinside.1, (hchild hinside.1 ⟨c, hc, hinside.2⟩).1⟩, h.plan⟩

/-- A node that was worked on is due when the work is done: then what is under it may be updated. -/
theorem Finishes.due (h : e.Finishes b Start root g (fun x => Busy x ∨ x = id) Stale id step e₁ g₁)
    (happart : e.Apart g Busy Stale id) :
    e₁.Due b Start root g₁ Busy (fun x => Stale x ∧ x ≠ id) id := by
  obtain ⟨n, -, hworks, -⟩ := h.stands
  exact ⟨h.laid fun _ hx => hx, happart.persist h.evolves h.plan fun _ hx => hx.1, hworks.live,
    hworks.other, hworks.step_eq ▸ hworks.arrives⟩

/-- When nothing else under a node was stale, everything under it is up to date. -/
theorem Finishes.refreshed
    (h : e₁.Finishes b Start root g₁ (fun x => Busy x ∨ x = id) Stale id step e₂ g₂)
    (hlaid : e.Laid b Start root g Busy' Stale') (hpursues : e.Pursues g id e₁ g₁)
    (hknown : ∀ x, Stale x → e₁.Known x)
    (hclean : recursive = true → ∀ x, e₁.contains x = true → Stale x → g₁.Under id x → x = id) :
    e.Refreshed b Start root g Busy Stale id recursive e₂ g₂ := by
  obtain ⟨n, -, hworks, -⟩ := h.stands
  refine ⟨(h.laid fun _ hx => hx).staler fun x hx hstale => ⟨hstale.1, ?_⟩, hworks.live,
    hpursues.trans hlaid (.of_own h.evolves h.plan)⟩
  rintro (heq | ⟨hrecursive, hunder⟩)
  · exact hstale.2 heq
  · have hx₁ := hknown x hstale.1
    exact hstale.2 (hclean hrecursive x (h.evolves.contains hx hx₁) hstale.1
      ((h.plan.under hx₁).1 hunder))

end Engine

/-- Nodes that are due are updated with everything under them. -/
structure Reentry.Updates (re : Reentry) (b : Body) (Start : Outlook → Prop) (root : NodeId) : Prop where
  /-- Bodies are built wherever they have arrived. -/
  lays : re.Lays b Start root
  /-- A node is updated. -/
  update : ∀ ⦃e : Engine⦄ ⦃g Busy Stale id⦄, e.Due b Start root g Busy Stale id →
    (re.update id).Yields e fun _ e' => ∃ g', e.Updated b Start root g Busy Stale id true e' g'

namespace Render

open Engine

variable {re : Reentry} {e e' e₁ : Engine} {g g₁ : Plan} {root id : NodeId} {b : Body}
  {Start : Outlook → Prop} {Busy Busy' Stale Stale' : NodeId → Prop} {n : RenderNode}
  {recursive : Bool} {step : Step}

/-! ## Nodes in turn -/

/-- Nodes that are not under each other are updated in turn. -/
theorem forM_update_sweeps (hre : re.Updates b Start root) : ∀ (cs : List NodeId) {e : Engine} {g : Plan}
    {Stale : NodeId → Prop}, e.Laid b Start root g Busy Stale →
      (∀ c ∈ cs, e.Due b Start root g Busy Stale c) →
      cs.Pairwise (fun c c' => ¬g.Under c c' ∧ ¬g.Under c' c) →
      (cs.forM re.update).Yields e fun _ e' => ∃ g', e.Swept b Start root g Busy Stale cs e' g'
  | [], e, g, Stale, h, _, _ => by
    refine Act.yields_pure ⟨g, h.staler fun x _ hx => ⟨hx, ?_⟩, .refl h.valid, .refl g e⟩
    rintro ⟨c, hc, -⟩
    exact List.not_mem_nil hc
  | c :: cs, e, g, Stale, h, hdue, hapart => by
    obtain ⟨hhead, htail⟩ := List.pairwise_cons.1 hapart
    have hfirst := hdue c List.mem_cons_self
    refine Act.yields_bind (hre.update hfirst)
      (fun _ => Act.keeps_forM fun _ _ => (hre.lays.operates _ Engine.roomy_stable.closed).update _)
      fun _ e₁ hupdated => ?_
    obtain ⟨g₁, hupdated⟩ := hupdated
    have hlaid₁ : e₁.Laid b Start root g₁ Busy fun x => Stale x ∧ ¬g₁.Under c x :=
      hupdated.laid.staler fun x _ hx => ⟨hx.1, fun hunder => hx.2 (.inr ⟨rfl, hunder⟩)⟩
    -- the update of one node changes neither the others nor the frames around them
    have hdue₁ (c' : NodeId) (hc' : c' ∈ cs) :
        e₁.Due b Start root g₁ Busy (fun x => Stale x ∧ ¬g₁.Under c x) c' := by
      have hnext := hdue c' (List.mem_cons_of_mem c hc')
      refine hnext.persist hupdated.evolves hupdated.plan hlaid₁ (hhead c' hc').1 (fun f hf hunder => ?_)
        fun x hx => hx.1
      exact (hhead c' hc').1 (.inr (h.mem_path_of_inside hnext.live hf hunder))
    have hknown {x : NodeId} (hx : Stale x) : e.Known x := hfirst.apart.known x (.inr hx)
    -- and no node has come under another one
    have hapart₁ : cs.Pairwise (fun c c' => ¬g₁.Under c c' ∧ ¬g₁.Under c' c) := by
      refine htail.imp_of_mem fun hc hc' hpair => ?_
      have hlive {c : NodeId} (hc : c ∈ cs) := (hdue c (List.mem_cons_of_mem _ hc)).live
      rw [hupdated.plan.under (.inl (hlive hc)), hupdated.plan.under (.inl (hlive hc'))]
      exact hpair
    refine (forM_update_sweeps hre cs hlaid₁ hdue₁ hapart₁).imp fun _ e₂ hswept => ?_
    obtain ⟨g₂, hswept⟩ := hswept
    refine ⟨g₂, hswept.laid.staler fun x _ hx => ⟨hx.1.1, ?_⟩, ?_,
      hupdated.plan.trans hupdated.evolves hswept.plan⟩
    · rintro ⟨c', hc', hunder⟩
      rcases List.mem_cons.1 hc' with rfl | hc'
      · exact hx.1.2 ((hswept.plan.under (hupdated.evolves.known (hknown hx.1.1))).1 hunder)
      · exact hx.2 ⟨c', hc', hunder⟩
    · -- the nodes of before are under what they were under
      have hmore {x : NodeId} (hx : e.contains x = true) (hunder : ∃ c' ∈ cs, g₁.Under c' x) :
          ∃ c' ∈ c :: cs, g.Under c' x := by
        obtain ⟨c', hc', hunder⟩ := hunder
        exact ⟨c', List.mem_cons_of_mem c hc', (hupdated.plan.under (.inl hx)).1 hunder⟩
      refine hupdated.evolves.after hswept.evolves
        (fun x hx hunder => hunder.elim (fun hunder => ⟨c, List.mem_cons_self, hunder⟩) (hmore hx))
        (fun x hx hunder => hunder.elim (fun hunder => ⟨c, List.mem_cons_self, hunder⟩) (hmore hx))
        fun f fr hfr hinside => ?_
      rcases hinside with hinside | ⟨c', hc', hinside⟩
      · exact ⟨c, List.mem_cons_self, hinside⟩
      · exact ⟨c', List.mem_cons_of_mem c hc',
          h.inside_of_later hupdated.evolves hupdated.plan hfr hinside⟩

/-- What is under a node that is up to date is updated. -/
theorem updateChildren_refreshes (hb : b.Suits Start) (hre : re.Updates b Start root)
    (h : e₁.Due b Start root g₁ Busy (fun x => Stale x ∧ x ≠ id) id)
    (hlaid : e.Laid b Start root g Busy' Stale') (hpursues : e.Pursues g id e₁ g₁) :
    (updateChildren re id).Yields e₁ fun _ e' =>
      ∃ g', e.Refreshed b Start root g Busy Stale id true e' g' := by
  obtain ⟨n, hn⟩ := contains_iff.1 h.live
  have hchildren : e₁.childrenOf id = n.children := by
    unfold Engine.childrenOf
    rw [hn]
    rfl
  have hunder (c : NodeId) (hc : c ∈ n.children) : g₁.Under id c ∧ ¬g₁.Under c id := by
    obtain ⟨-, nc, hnc, hp⟩ := h.laid.exists_child hn hc
    exact ⟨h.laid.under_parent hnc hp, h.laid.not_under_child hn hc⟩
  -- the node shows what a look finds, so that what has arrived at its children is known
  have hdue (c : NodeId) (hc : c ∈ n.children) :
      e₁.Due b Start root g₁ Busy (fun x => Stale x ∧ x ≠ id) c := by
    obtain ⟨hroot, nc, hnc, -⟩ := h.laid.exists_child hn hc
    refine ⟨h.laid, ⟨h.apart.known, fun x hx hcx => ?_⟩, contains_iff.2 ⟨nc, hnc⟩, hroot, ?_⟩
    · exact h.apart.idle x hx (h.laid.under_trans hx (hunder c hc).1 hcx)
    · exact h.laid.arrives_child hb hn (h.apart.idle id h.live (.inl rfl)) (fun hx => hx.2 rfl)
        (fun _ => h.arrives) hc
  refine Act.yields_read_bind.2 ?_
  rw [hchildren]
  refine (forM_update_sweeps hre n.children h.laid hdue (h.laid.apart_children hn)).imp
    fun _ e₂ hswept => ?_
  obtain ⟨g₂, hswept⟩ := hswept
  have hself : e₂.contains id = true := by
    obtain ⟨n₂, hn₂, -⟩ := hswept.evolves.kept hn fun ⟨c, hc, hcid⟩ => (hunder c hc).2 hcid
    exact contains_iff.2 ⟨n₂, hn₂⟩
  -- what is under the node is the node, which is not stale, or under a child, which was swept
  refine ⟨g₂, hswept.laid.staler fun x hx hstale => ⟨hstale.1.1, ?_⟩, hself, ?_⟩
  · rintro (heq | ⟨-, hidx⟩)
    · exact hstale.1.2 heq
    · have hx₁ := h.apart.known x (.inr hstale.1)
      have hidx₁ := ((hswept.plan.under hx₁).1 hidx).resolve_left hstale.1.2
      obtain ⟨c, hc, hcx⟩ := h.laid.under_child hn (hswept.evolves.contains hx hx₁) hidx₁
      exact hstale.2 ⟨c, hc, (hswept.plan.under hx₁).2 hcx⟩
  · exact hpursues.trans hlaid (hswept.pursues h.laid hn fun _ hc => hc)

/-- What is under a node that is up to date is updated if that is asked for. -/
theorem descend_refreshes (hb : b.Suits Start) (hre : re.Updates b Start root)
    (h : e₁.Due b Start root g₁ Busy (fun x => Stale x ∧ x ≠ id) id)
    (hlaid : e.Laid b Start root g Busy' Stale') (hpursues : e.Pursues g id e₁ g₁) :
    Act.Yields (if recursive then updateChildren re id else pure ()) e₁ fun _ e' =>
      ∃ g', e.Refreshed b Start root g Busy Stale id recursive e' g' := by
  cases recursive with
  | true => exact updateChildren_refreshes hb hre h hlaid hpursues
  | false =>
    refine Act.yields_pure ⟨g₁, h.laid.staler fun x _ hx => ⟨hx.1, ?_⟩, h.live, hpursues⟩
    rintro (heq | ⟨hfalse, -⟩)
    · exact hx.2 heq
    · cases hfalse

/-! ## Work on a node that is due -/

section

variable {names : List String} {sight : Sight}

/-- The records of the reads of a node are dropped. -/
theorem purge_works (h : e.Works b Start root g Busy Stale id n step) :
    e.Evolves (· = id) (· = id) (fun _ => False) (e.purge id) ∧ ∃ n',
      (e.purge id).Works b Start root g Busy Stale id n' step ∧ n'.children = n.children ∧
        n'.kind = n.kind := by
  have hrevises : e.Revises (fun _ => False) (· = id) (e.purge id) := .purge rfl
  have hevolves : e.Evolves (fun _ => False) (· = id) (fun _ => False) (e.purge id) :=
    .of_revises h.laid.valid hrevises
  obtain ⟨n', hn', -, hchildren, -⟩ := hrevises.kept h.node
  obtain ⟨m, hm, hkind⟩ := hrevises.kind h.node rfl (fun hx => hx) h.context?_eq
  obtain rfl := Option.some.inj (hn'.symm.trans hm)
  have hlaid := h.laid.revises hrevises (fun _ hx => hx.elim) fun x hx => hx ▸ h.busy
  exact ⟨hevolves.mono (fun _ hx => hx.elim) (fun _ hx => hx) fun _ hf => hf, n',
    h.evolve hlaid h.busy hevolves (.refl g e) hn', hchildren, hkind⟩

/-- A node that is worked on stands for its step still if neither its kind nor its children have
changed. -/
theorem stands_works {M R : NodeId → Prop} {n' : RenderNode} {Arises : Value → Prop}
    (h : e.Works b Start root g Busy Stale id n step)
    (hstands : g.Stands Arises e (e.outlook root (g.label id).frame) id n step sight)
    (he : e.Evolves M R (fun _ => False) e') (hkind : n'.kind = n.kind)
    (hchildren : n'.children = n.children) :
    g.Stands Arises e' (e'.outlook root (g.label id).frame) id n' step sight := by
  refine hstands.persist (fun _ => hkind) hchildren (.refl g e) (.inl h.live) (fun c hc => ?_)
    (congrArg (·.translator) he.setup) fun f fr _ hfr => ?_
  · obtain ⟨-, nc, hnc, -⟩ := h.laid.exists_child h.node hc
    exact known_of_node? hnc
  · obtain ⟨fr', hfr', -, hsame⟩ := he.frames hfr
    rw [hfr', hsame fun hf => hf]

/-- When a node shows what a look finds, its children stay, and are updated if that is asked for. -/
theorem settle_refreshes (hb : b.Suits Start) (hre : re.Updates b Start root)
    (h : e.Works b Start root g (fun x => Busy x ∨ x = id) Stale id n step)
    (happart : e.Apart g Busy Stale id)
    (hstands : g.Stands (b.Arises Start) e (e.outlook root (g.label id).frame) id n step sight)
    (hlearns : e.Learns b Start root g (fun x => Busy x ∨ x = id) Stale id n step
      (step.look.reads (e₁.outlook root (g.label id).frame)) e₁)
    (hsight : sight = step.look.result (e₁.outlook root (g.label id).frame)) :
    Act.Yields (if recursive then updateChildren re id else pure ()) e₁ fun _ e' =>
      ∃ g', e.Refreshed b Start root g Busy Stale id recursive e' g' := by
  obtain ⟨n₁, hworks₁, hchildren₁, hkind₁⟩ := hlearns.node
  have hstands₁ := stands_works h hstands hlearns.evolves hkind₁ hchildren₁
  rw [hsight] at hstands₁
  have hdone := hworks₁.finishes hstands₁ hlearns.covers
  have happart₁ := happart.persist hlearns.evolves (.refl g e) fun _ hx => hx
  exact descend_refreshes hb hre (hdone.due happart₁) h.laid (.of_own hlearns.evolves (.refl g e))

/-- What is under a node is taken away, and built anew. -/
theorem rebuild_refreshes {x : Act Unit}
    (h : e.Works b Start root g (fun x => Busy x ∨ x = id) Stale id n step)
    (happart : e.Apart g Busy Stale id)
    (hlearns : e.Learns b Start root g (fun x => Busy x ∨ x = id) Stale id n step names e₁)
    (hx : ∀ n₂, (e₁.clearChildren id).Works b Start root g (fun x => Busy x ∨ x = id) Stale id n₂ step →
      n₂.children = [] → n₂.kind = n.kind →
      (e₁.clearChildren id).outlook root (g.label id).frame = e₁.outlook root (g.label id).frame →
      (e₁.clearChildren id).Covers root (g.label id).frame id names →
      x.Yields (e₁.clearChildren id) fun _ e' => ∃ g', (e₁.clearChildren id).Finishes b Start root g
        (fun x => Busy x ∨ x = id) Stale id step e' g') :
    Act.Yields (do Act.change (·.clearChildren id); x) e₁ fun _ e' =>
      ∃ g', e.Refreshed b Start root g Busy Stale id recursive e' g' := by
  obtain ⟨n₁, hworks₁, -, hkind₁⟩ := hlearns.node
  obtain ⟨n₂, hworks₂, hchildren₂, hkind₂, hpursues, hclean⟩ := hworks₁.clear
  refine Act.yields_change_bind.2 ((hx n₂ hworks₂ hchildren₂ (hkind₂.trans hkind₁)
    (hpursues.outlook hworks₁ hworks₂.laid) (hpursues.covers hworks₁ hworks₂ hlearns.covers)).imp
    fun _ e₃ hdone => ?_)
  obtain ⟨g₃, hdone⟩ := hdone
  have hpursues₀ : e.Pursues g id (e₁.clearChildren id) g :=
    (Pursues.of_own hlearns.evolves (.refl g e)).trans h.laid hpursues
  -- nothing was left under the node, so that nothing is stale there
  exact ⟨g₃, hdone.refreshed h.laid hpursues₀
    (fun x hx => hpursues₀.evolves.known (happart.known x (.inr hx))) fun _ x hx _ hunder =>
      hclean x hx hunder⟩

end

/-! ## Elements and texts -/

section

variable {tag : String} {actions : List AttrAction} {content : Content} {source : TextSource}
  {sight : Sight} (hb : b.Suits Start)
include hb

/-- An element that is refreshed shows what a look finds. -/
theorem refreshElement_finishes
    (h : e.Works b Start root g Busy Stale id n (.element tag actions content))
    (hstands : g.Stands (b.Arises Start) e (e.outlook root (g.label id).frame) id n
      (.element tag actions content) sight) ⦃r : Except EngineError Bool⦄ ⦃e' : Engine⦄
    (hgives : (refreshElement re id).Gives e r e') : ∃ changed, r = .ok changed ∧
      e.Finishes b Start root g Busy Stale id (.element tag actions content) e' g := by
  cases hstands with
  | @element _ _ _ data kind tag_eq actions_eq overlay added expr fixed children =>
    -- a text without an expression is all that a refreshed element starts from
    have hinitial : initialState data =
        { text := content.fixed (e.outlook root (g.label id).frame) } := by
      unfold initialState
      rw [added, expr]
      cases hexpr : content.expr? with
      | none => rw [fixed hexpr]; rfl
      | some ex =>
        cases content with
        | body _ => cases hexpr
        | text source =>
          cases source with
          | literal _ => cases hexpr
          | dynamic _ => rfl
    obtain ⟨hselective, -⟩ := hb.arrives h.arrives
    have hexpr : data.textExpr.all (·.selective) = true := expr ▸ hselective.parts.2
    obtain ⟨changed, hr, hevolves, n', hworks', hchildren', hkind', hcovers'⟩ :=
      refreshElement_works hb h kind actions_eq overlay hexpr hinitial hgives
    have hout := h.outlook hworks'.laid hevolves
    rw [expr, ← hout] at hkind' hcovers'
    refine ⟨changed, hr, .after (finishes_element hworks' hkind' tag_eq actions_eq overlay rfl rfl
      hcovers' ?_) hevolves (.refl g e)⟩
    rw [hchildren']
    exact children

/-- A text node that is refreshed shows what a look finds. -/
theorem refreshText_stands (h : e.Works b Start root g Busy Stale id n (.text source))
    (hstands : g.Stands (b.Arises Start) e (e.outlook root (g.label id).frame) id n (.text source)
      sight) ⦃r : Except EngineError Bool⦄ ⦃e' : Engine⦄
    (hgives : (refreshText re id).Gives e r e') : ∃ changed, r = .ok changed ∧
      e.Finishes b Start root g Busy Stale id (.text source) e' g := by
  cases hstands with
  | @text _ shown kind fixed children =>
    cases source with
    | dynamic ex => exact refreshText_finishes hb h kind children hgives
    | literal s =>
      unfold refreshText at hgives
      have hgives := Act.gives_read_bind.1 hgives
      rw [h.node] at hgives
      dsimp only at hgives
      rw [kind] at hgives
      obtain ⟨rfl, rfl⟩ := Act.gives_pure.1 hgives
      refine ⟨false, rfl, h.finishes ?_ fun x hx => absurd hx List.not_mem_nil⟩
      have hshown := fixed s rfl
      subst hshown
      exact .text kind fixed children

/-- An element is brought up to date, and is reported if that changes it. -/
theorem updateElement_refreshes (hre : re.Updates b Start root)
    (h : e.Works b Start root g (fun x => Busy x ∨ x = id) Stale id n (.element tag actions content))
    (happart : e.Apart g Busy Stale id)
    (hstands : g.Stands (b.Arises Start) e (e.outlook root (g.label id).frame) id n
      (.element tag actions content) sight) :
    Act.Yields (do
      if ← refreshElement re id then Act.change (·.report id)
      if recursive then updateChildren re id) e fun _ e' =>
        ∃ g', e.Refreshed b Start root g Busy Stale id recursive e' g' := by
  refine Act.yields_bind_of (refreshElement_finishes hb h hstands) fun changed e₁ hdone => ?_
  have hpursues := Pursues.of_own hdone.evolves hdone.plan
  have hdue := hdone.due happart
  cases changed with
  | false => exact descend_refreshes hb hre hdue h.laid hpursues
  | true =>
    have hreport : e₁.Evaluates (e₁.report id) := .report id
    refine Act.yields_change_bind.2 (descend_refreshes hb hre (hdue.evaluates hreport) h.laid ?_)
    refine hpursues.trans h.laid ⟨?_, .refl g e₁⟩
    exact (Evolves.of_revises hdue.laid.valid hreport).mono (fun _ hx => hx.elim) (fun _ hx => hx.elim)
      fun _ hf => hf

/-- A text node is brought up to date, and is reported if that changes it. -/
theorem updateText_refreshes
    (h : e.Works b Start root g (fun x => Busy x ∨ x = id) Stale id n (.text source))
    (happart : e.Apart g Busy Stale id)
    (hstands : g.Stands (b.Arises Start) e (e.outlook root (g.label id).frame) id n (.text source)
      sight) :
    Act.Yields (do if ← refreshText re id then Act.change (·.report id)) e fun _ e' =>
        ∃ g', e.Refreshed b Start root g Busy Stale id recursive e' g' := by
  -- a text has no children, so that nothing else is under it
  have hchildren : n.children = [] := by
    cases hstands with
    | text _ _ children => exact children
  have hclean (x : NodeId) (hx : e.contains x = true) (hunder : g.Under id x) : x = id := by
    refine hunder.resolve_right fun hmem => ?_
    obtain ⟨c, hc, -⟩ := h.laid.under_child h.node hx hmem
    rw [hchildren] at hc
    exact List.not_mem_nil hc
  refine Act.yields_bind_of (refreshText_stands hb h hstands) fun changed e₁ hdone => ?_
  have hrefreshed : e.Refreshed b Start root g Busy Stale id recursive e₁ g :=
    hdone.refreshed h.laid (.refl h.laid.valid g id) (fun x hx => happart.known x (.inr hx))
      fun _ x hx _ hunder => hclean x hx hunder
  cases changed with
  | false => exact Act.yields_pure ⟨g, hrefreshed⟩
  | true => exact Act.yields_change ⟨g, hrefreshed.evaluates h.laid (.report id)⟩

end

/-! ## Conditions, sets and plain loops -/

/-- Items that arise and compare equal are equal. -/
theorem eq_of_sameItems (hb : b.Suits Start) : ∀ {vs ws : List Value}, (∀ v ∈ vs, b.Arises Start v) →
    (∀ w ∈ ws, b.Arises Start w) → Value.sameItems vs ws = true → vs = ws
  | [], [], _, _, _ => rfl
  | [], _ :: _, _, _, hsame => by
    unfold Value.sameItems at hsame
    cases hsame
  | _ :: _, [], _, _, hsame => by
    unfold Value.sameItems at hsame
    cases hsame
  | v :: vs, w :: ws, hvs, hws, hsame => by
    unfold Value.sameItems at hsame
    obtain ⟨hhead, htail⟩ := Bool.and_eq_true_iff.1 hsame
    rw [hb.same v w (hvs v List.mem_cons_self) (hws w List.mem_cons_self) hhead,
      eq_of_sameItems hb (fun v hv => hvs v (List.mem_cons_of_mem _ hv))
        (fun w hw => hws w (List.mem_cons_of_mem _ hw)) htail]

section

variable {sight : Sight} (hb : b.Suits Start) (hre : re.Updates b Start root)
include hb hre

/-- A condition is brought up to date: another branch is built if another one is selected. -/
theorem updateChoice_refreshes {branches : List Branch} {reactive : Bool} {data : ConditionData}
    (h : e.Works b Start root g (fun x => Busy x ∨ x = id) Stale id n (.choice branches reactive))
    (happart : e.Apart g Busy Stale id) (hkind : n.kind = .condition data)
    (hstands : g.Stands (b.Arises Start) e (e.outlook root (g.label id).frame) id n
      (.choice branches reactive) sight) :
    Act.Yields (do
      let selected ← selectBranch re id
      if selected ≠ data.selected then
        Act.change (·.clearChildren id)
        buildBranch re id selected
      else if recursive then updateChildren re id) e fun _ e' =>
        ∃ g', e.Refreshed b Start root g Busy Stale id recursive e' g' := by
  cases hstands with
  | @choice _ _ data' kind branches_eq reactive_eq children =>
    obtain rfl := RenderKind.condition.inj (kind.symm.trans hkind)
    refine Act.yields_bind_of (selectBranch_learns hb h kind branches_eq reactive_eq)
      fun selected e₁ hlearns => ?_
    obtain ⟨hselected, hlearns⟩ := hlearns
    split
    · refine rebuild_refreshes h happart hlearns fun n₂ hworks hchildren hkind hout hcovers => ?_
      rw [← hout] at hselected hcovers
      exact buildBranch_finishes hre.lays hworks (hkind.trans kind) branches_eq reactive_eq hchildren
        hselected hcovers
    · -- the selected branch is the one that is shown
      rename_i hsame
      rw [ne_eq, not_not] at hsame
      refine settle_refreshes hb hre h happart (.choice kind branches_eq reactive_eq children) hlearns ?_
      rw [← hsame, hselected]
      rfl

/-- A set is brought up to date: what its name is bound for is built anew if its value changes. -/
theorem updateSet_refreshes {name : String} {value : DynamicExpr} {body : Body} {data : SetData}
    (h : e.Works b Start root g (fun x => Busy x ∨ x = id) Stale id n (.set name value body))
    (happart : e.Apart g Busy Stale id) (hkind : n.kind = .set data)
    (hstands : g.Stands (b.Arises Start) e (e.outlook root (g.label id).frame) id n
      (.set name value body) sight) :
    Act.Yields (do
      let v ← setValue re id
      if !v.same data.current then
        Act.change (·.clearChildren id)
        fillSet re id v
      else if recursive then updateChildren re id) e fun _ e' =>
        ∃ g', e.Refreshed b Start root g Busy Stale id recursive e' g' := by
  cases hstands with
  | @set _ _ _ data' f kind name_eq value_eq body_eq arise home binds children =>
    obtain rfl := RenderKind.set.inj (kind.symm.trans hkind)
    refine Act.yields_bind_of (setValue_learns hb h kind value_eq) fun v e₁ hlearns => ?_
    obtain ⟨hv, hlearns⟩ := hlearns
    have harises : b.Arises Start v := by
      rw [hv, hlearns.outlook]
      exact .value h.arrives
    split
    · refine rebuild_refreshes h happart hlearns fun n₂ hworks hchildren hkind hout hcovers => ?_
      rw [← hout] at hv hcovers
      exact fillSet_finishes hre.lays hworks (hkind.trans kind) name_eq value_eq body_eq hchildren hv
        hcovers
    · -- values that arise and compare equal are equal, so that the body shows the new value
      rename_i hsame
      rw [Bool.not_eq_true', Bool.not_eq_false] at hsame
      obtain rfl := hb.same _ _ harises arise hsame
      refine settle_refreshes hb hre h happart
        (.set kind name_eq value_eq body_eq arise home binds children) hlearns ?_
      rw [hv]
      rfl

/-- A loop without identities is brought up to date: it is built anew if its items change. -/
theorem updatePlain_refreshes {spec : LoopSpec} {data : LoopData} {items : List Value}
    (h : e.Works b Start root g (fun x => Busy x ∨ x = id) Stale id n (.loop spec))
    (happart : e.Apart g Busy Stale id) (hkind : n.kind = .loop data)
    (hplain : spec.identity.isSome = false)
    (hstands : g.Stands (b.Arises Start) e (e.outlook root (g.label id).frame) id n (.loop spec) sight)
    (hitems : items = (Look.items spec.iterable).result (e₁.outlook root (g.label id).frame))
    (hlearns : e.Learns b Start root g (fun x => Busy x ∨ x = id) Stale id n (.loop spec)
      ((Look.items spec.iterable).reads (e₁.outlook root (g.label id).frame)) e₁) :
    (updatePlain re id items recursive).Yields e₁ fun _ e' =>
      ∃ g', e.Refreshed b Start root g Busy Stale id recursive e' g' := by
  cases hstands with
  | @loop _ olds insts data' kind spec_eq arise state showing rounds frames children =>
    obtain rfl := RenderKind.loop.inj (kind.symm.trans hkind)
    obtain ⟨n₁, hworks₁, -, hkind₁⟩ := hlearns.node
    have harise (v : Value) (hv : v ∈ items) : b.Arises Start v := by
      rw [hitems, hlearns.outlook] at hv
      exact .item h.arrives hv
    rw [spec.stateOf_plain hplain] at state
    refine Act.yields_read_bind.2 ?_
    rw [hworks₁.node]
    dsimp only
    rw [hkind₁, kind]
    dsimp only
    rw [state]
    dsimp only
    split
    · -- so do items, and the instances stay
      rename_i hsame
      obtain rfl := eq_of_sameItems hb arise harise hsame
      have hstands : g.Stands (b.Arises Start) e (e.outlook root (g.label id).frame) id n (.loop spec)
          (.items olds) := .loop kind spec_eq arise (state.trans (spec.stateOf_plain hplain _ _).symm)
            showing rounds frames children
      refine settle_refreshes hb hre h happart hstands hlearns ?_
      rw [hitems]
      rfl
    · refine rebuild_refreshes h happart hlearns fun n₂ hworks hchildren hkind hout hcovers => ?_
      rw [← hout] at hitems hcovers
      exact fillLoop_finishes hb hre.lays hworks (hkind.trans kind) spec_eq hchildren hitems hcovers

end

end Render
end ReactiveView
