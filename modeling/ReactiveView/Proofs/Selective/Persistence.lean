import ReactiveView.Proofs.Selective.Layout

/-!
# What a change leaves in place

A part of an update changes some nodes and frames and adds others; everything else persists
(`Engine.Evolves`). From what persists follows what is seen from a node (`Evolves.outlook`), what it
stands for (`Plan.Stands.persist`) and that the tree stays laid out (`Laid.evolve`), as long as the
nodes that were changed count as busy, and those as stale from which other things are seen.
-/

namespace ReactiveView

namespace Plan

/-- A plan gives the labels and homes of before to all that is known in an engine. -/
structure Extends (g : Plan) (e : Engine) (g' : Plan) : Prop where
  /-- The labels. -/
  label : ∀ ⦃x⦄, e.Known x → g'.label x = g.label x
  /-- The homes of frames. -/
  home : ∀ ⦃f fr⦄, e.frames.get? f = some fr → g'.home f = g.home f

/-- The same plan. -/
theorem Extends.refl (g : Plan) (e : Engine) : g.Extends e g := ⟨fun _ _ => rfl, fun _ _ _ => rfl⟩

/-- A plan with the label of one more node. -/
def labelled (g : Plan) (id : NodeId) (label : Label) : Plan :=
  { g with label := Function.update g.label id label }

/-- The label of one more node changes no other. -/
theorem extends_labelled {g : Plan} {e : Engine} {id : NodeId} (hid : ¬e.Known id) (label : Label) :
    g.Extends e (g.labelled id label) where
  label x hx := Function.update_of_ne (fun heq : x = id => hid (heq ▸ hx)) _ _
  home _ _ _ := rfl

/-- A plan with the home of one more frame. -/
def homed (g : Plan) (f : FrameId) (id : NodeId) : Plan :=
  { g with home := Function.update g.home f id }

/-- The home of one more frame changes no other. -/
theorem extends_homed {g : Plan} {e : Engine} {f : FrameId} (hf : e.frames.get? f = none)
    (id : NodeId) : g.Extends e (g.homed f id) where
  label _ _ := rfl
  home x fr hx := by
    refine Function.update_of_ne (fun heq : x = f => ?_) _ _
    rw [heq, hf] at hx
    cases hx

end Plan

namespace Engine

variable {e e' e₁ e₂ : Engine} {M M' R R' : NodeId → Prop} {F F' : FrameId → Prop} {g g' g₁ g₂ : Plan}
  {root x id p : NodeId} {frame : Option FrameId}

/-- Nodes and frames persist, except for nodes that may be altered (`M`), records of reads that may
be dropped (`R`) and frames that may be bound again (`F`). Others may come. -/
structure Evolves (M R : NodeId → Prop) (F : FrameId → Prop) (e e' : Engine) : Prop where
  /-- Other nodes stay, and are alike without their marks. -/
  kept : ∀ ⦃x n⦄, e.node? x = some n → ¬M x → ∃ n', e'.node? x = some n' ∧ n'.unread = n.unread
  /-- What was known and is there was there, in the same place. -/
  old : ∀ ⦃x n'⦄, e'.node? x = some n' → e.Known x →
    ∃ n, e.node? x = some n ∧ n'.place = n.place
  /-- Records of the reads of other nodes stay. -/
  reads : ∀ ⦃c k x⦄, e'.contains c = true → e'.contains x = true → e.Known x → ¬R x →
    e.Reads c k x → e'.Reads c k x
  /-- Frames stay where they are, and other frames bind what they bind. -/
  frames : ∀ ⦃f fr⦄, e.frames.get? f = some fr →
    ∃ fr', e'.frames.get? f = some fr' ∧ fr'.parent = fr.parent ∧ (¬F f → fr' = fr)
  /-- So does what the host has set up. -/
  setup : e'.setup = e.setup
  /-- No identity is given away anew. -/
  known : ∀ ⦃x⦄, e.Known x → e'.Known x
  /-- The arena is valid. -/
  valid : e'.nodes.Valid

/-- What has readers is known. -/
theorem Reads.known {c : NodeId} {k : String} (h : e.Reads c k x) : e.Known c := by
  obtain ⟨index, hindex, -⟩ := h
  obtain ⟨n, hn, -⟩ := Option.bind_eq_some_iff.1 hindex
  exact known_of_node? hn

namespace Evolves

/-- Nothing has changed. -/
theorem refl (hvalid : e.nodes.Valid) : e.Evolves M R F e where
  kept _ n hn _ := ⟨n, hn, rfl⟩
  old _ n hn _ := ⟨n, hn, rfl⟩
  reads _ _ _ _ _ _ _ h := h
  frames _ fr hfr := ⟨fr, hfr, rfl, fun _ => rfl⟩
  setup := rfl
  known _ h := h
  valid := hvalid

/-- A node that is known and there was there. -/
theorem contains (h : e.Evolves M R F e') (hx : e'.contains x = true) (hknown : e.Known x) :
    e.contains x = true := by
  obtain ⟨n', hn'⟩ := contains_iff.1 hx
  obtain ⟨n, hn, -⟩ := h.old hn' hknown
  exact contains_iff.2 ⟨n, hn⟩

/-- One change after another. Only what was there at first counts as changed. -/
theorem after {M₁ R₁ M₂ R₂ : NodeId → Prop} {F₁ F₂ : FrameId → Prop} (h₁ : e.Evolves M₁ R₁ F₁ e₁)
    (h₂ : e₁.Evolves M₂ R₂ F₂ e₂) (hM : ∀ x, e.contains x = true → M₁ x ∨ M₂ x → M x)
    (hR : ∀ x, e.contains x = true → R₁ x ∨ R₂ x → R x)
    (hF : ∀ f fr, e.frames.get? f = some fr → F₁ f ∨ F₂ f → F f) : e.Evolves M R F e₂ where
  kept x n hn hx := by
    have hlive : e.contains x = true := contains_iff.2 ⟨n, hn⟩
    obtain ⟨n₁, hn₁, hsame₁⟩ := h₁.kept hn fun h => hx (hM x hlive (.inl h))
    obtain ⟨n₂, hn₂, hsame₂⟩ := h₂.kept hn₁ fun h => hx (hM x hlive (.inr h))
    exact ⟨n₂, hn₂, hsame₂.trans hsame₁⟩
  old x n₂ hn₂ hx := by
    obtain ⟨n₁, hn₁, hplace₁⟩ := h₂.old hn₂ (h₁.known hx)
    obtain ⟨n, hn, hplace⟩ := h₁.old hn₁ hx
    exact ⟨n, hn, hplace₁.trans hplace⟩
  reads c k x hc hx hknown hxR hreads := by
    -- both the owner of the record and the reader were there all along
    have hc₁ : e₁.contains c = true := h₂.contains hc (h₁.known hreads.known)
    have hx₁ : e₁.contains x = true := h₂.contains hx (h₁.known hknown)
    have hlive : e.contains x = true := h₁.contains hx₁ hknown
    exact h₂.reads hc hx (h₁.known hknown) (fun h => hxR (hR x hlive (.inr h)))
      (h₁.reads hc₁ hx₁ hknown (fun h => hxR (hR x hlive (.inl h))) hreads)
  frames f fr hfr := by
    obtain ⟨fr₁, hfr₁, hparent₁, hsame₁⟩ := h₁.frames hfr
    obtain ⟨fr₂, hfr₂, hparent₂, hsame₂⟩ := h₂.frames hfr₁
    exact ⟨fr₂, hfr₂, hparent₂.trans hparent₁, fun hf =>
      (hsame₂ fun h => hf (hF f fr hfr (.inr h))).trans (hsame₁ fun h => hf (hF f fr hfr (.inl h)))⟩
  setup := h₂.setup.trans h₁.setup
  known x hx := h₂.known (h₁.known hx)
  valid := h₂.valid

/-- One change after another. -/
theorem trans (h₁ : e.Evolves M R F e₁) (h₂ : e₁.Evolves M R F e₂) : e.Evolves M R F e₂ :=
  h₁.after h₂ (fun _ _ h => h.elim id id) (fun _ _ h => h.elim id id) fun _ _ _ h => h.elim id id

/-- More may be changed. Only what was there counts. -/
theorem mono_live (h : e.Evolves M R F e') (hM : ∀ x, e.contains x = true → M x → M' x)
    (hR : ∀ x, e.contains x = true → R x → R' x) (hF : ∀ f fr, e.frames.get? f = some fr → F f → F' f) :
    e.Evolves M' R' F' e' where
  kept x n hn hx := h.kept hn fun hx' => hx (hM x (contains_iff.2 ⟨n, hn⟩) hx')
  old := h.old
  reads c k x hc hx hknown hR' :=
    h.reads hc hx hknown fun hx' => hR' (hR x (h.contains hx hknown) hx')
  frames f fr hfr := by
    obtain ⟨fr', hfr', hparent, hsame⟩ := h.frames hfr
    exact ⟨fr', hfr', hparent, fun hF' => hsame fun hf => hF' (hF f fr hfr hf)⟩
  setup := h.setup
  known := h.known
  valid := h.valid

/-- More may be changed. -/
theorem mono (h : e.Evolves M R F e') (hM : ∀ x, M x → M' x) (hR : ∀ x, R x → R' x)
    (hF : ∀ f, F f → F' f) : e.Evolves M' R' F' e' :=
  h.mono_live (fun x _ => hM x) (fun x _ => hR x) fun f _ _ => hF f

/-- Changes that alter certain nodes, by which other nodes stay. -/
theorem of_alters (hvalid : e.nodes.Valid) (h : e.Alters M R e')
    (hstay : ∀ ⦃x⦄, e.contains x = true → ¬M x → e'.contains x = true) : e.Evolves M R F e' where
  kept x n hn hM := by
    obtain ⟨n', hn'⟩ := contains_iff.1 (hstay (contains_iff.2 ⟨n, hn⟩) hM)
    obtain ⟨m, hm, -, hsame⟩ := h.node hn'
    obtain rfl := Option.some.inj (hn.symm.trans hm)
    exact ⟨n', hn', hsame hM⟩
  old x n' hn' _ := by
    obtain ⟨n, hn, hplace, -⟩ := h.node hn'
    exact ⟨n, hn, hplace⟩
  reads _ _ _ hc hx _ hR hreads := h.reads hc hx hR hreads
  frames f fr hfr := ⟨fr, by rw [h.frames]; exact hfr, rfl, fun _ => rfl⟩
  setup := h.setup
  known _ hx := h.known hvalid hx
  valid := h.valid hvalid

/-- Changes that leave the shape of the tree. -/
theorem of_revises (hvalid : e.nodes.Valid) (h : e.Revises M R e') : e.Evolves M R F e' :=
  of_alters hvalid h.toAlters fun _ hx _ => h.contains_iff.2 hx

/-- Other frames. -/
theorem of_frames (hvalid : e.nodes.Valid) (hnodes : e'.nodes = e.nodes) (hsetup : e'.setup = e.setup)
    (hframes : ∀ ⦃f fr⦄, e.frames.get? f = some fr →
      ∃ fr', e'.frames.get? f = some fr' ∧ fr'.parent = fr.parent ∧ (¬F f → fr' = fr)) :
    e.Evolves M R F e' where
  kept x n hn _ := ⟨n, by unfold node? at hn ⊢; rwa [hnodes], rfl⟩
  old x n hn _ := ⟨n, by unfold node? at hn ⊢; rwa [← hnodes], rfl⟩
  reads c k x _ _ _ _ hreads := by
    unfold Reads index? node? at hreads ⊢
    rwa [hnodes]
  frames := hframes
  setup := hsetup
  known x hx := by
    unfold Known Engine.contains at hx ⊢
    rwa [hnodes]
  valid := by rwa [hnodes]

/-! ## What is seen -/

/-- A component instance that stays is the same. -/
theorem context? (h : e.Evolves M R F e') (hx : e.contains x = true) (hx' : e'.contains x = true) :
    (e'.context? x).map ContextData.unread = (e.context? x).map ContextData.unread := by
  obtain ⟨n', hn'⟩ := contains_iff.1 hx'
  obtain ⟨n, hn, hplace⟩ := h.old hn' (.inl hx)
  exact context?_congr hn hn' hplace

/-- Frames that enclose each other do so still, and bind what they bind. -/
theorem lookup? (h : e.Evolves M R F e') (hs : e.frames.Ordered) (hs' : e'.frames.Ordered)
    (hlt : ∀ f, frame = some f → f < e.frames.frames.size)
    (hF : ∀ f, e.frames.Chain frame f → ¬F f) (name : String) :
    e'.frames.lookup? frame name = e.frames.lookup? frame name := by
  refine FrameStore.lookup?_congr hs hs' name e.frames.frames.size frame hlt fun f hf => ?_
  obtain ⟨fr, hfr⟩ := hf.exists_get? hs hlt
  obtain ⟨fr', hfr', hparent, hsame⟩ := h.frames hfr
  exact ⟨fr, fr', hfr, hfr', hparent, by rw [hsame (hF f hf)]⟩

/-- What is seen in a frame stays if the frames around it are not bound again. -/
theorem outlook (h : e.Evolves M R F e') (hs : e.frames.Ordered) (hs' : e'.frames.Ordered)
    (hroot : e.contains root = true) (hroot' : e'.contains root = true)
    (hlt : ∀ f, frame = some f → f < e.frames.frames.size)
    (hF : ∀ f, e.frames.Chain frame f → ¬F f) : e'.outlook root frame = e.outlook root frame := by
  have hcontext := h.context? hroot hroot'
  -- variables come from the frames of the chain and from the only component instance
  have hvars : e'.vars root frame = e.vars root frame := by
    funext name
    unfold Engine.vars
    rw [h.lookup? hs hs' hlt hF, scopeOf_congr hcontext]
  unfold Engine.outlook
  rw [hvars, contextName_congr hcontext,
    show e'.translator = e.translator from congrArg (·.translator) h.setup,
    show e'.assets = e.assets from congrArg (·.assets) h.setup]

/-- Names that are covered stay covered. -/
theorem covers (h : e.Evolves M R F e') (hs : e.frames.Ordered) (hs' : e'.frames.Ordered)
    (hroot' : e'.contains root = true) (hx : e.contains x = true) (hx' : e'.contains x = true)
    (hR : ¬R x) (hlt : ∀ f, frame = some f → f < e.frames.frames.size)
    (hF : ∀ f, e.frames.Chain frame f → ¬F f) {names : List String}
    (hcovers : e.Covers root frame x names) : e'.Covers root frame x names := by
  intro name hname hfree
  rw [h.lookup? hs hs' hlt hF] at hfree
  exact h.reads hroot' hx' (.inl hx) hR (hcovers name hname hfree)

end Evolves
end Engine

/-- One extension after another. -/
theorem Plan.Extends.trans {g g₁ g₂ : Plan} {e e₁ : Engine} {M R : NodeId → Prop}
    {F : FrameId → Prop} (h₁ : g.Extends e g₁) (he : e.Evolves M R F e₁) (h₂ : g₁.Extends e₁ g₂) :
    g.Extends e g₂ where
  label x hx := (h₂.label (he.known hx)).trans (h₁.label hx)
  home f fr hfr := by
    obtain ⟨fr₁, hfr₁, -⟩ := he.frames hfr
    exact (h₂.home hfr₁).trans (h₁.home hfr)

/-! ## What a node stands for -/

namespace Plan

variable {g g' : Plan} {e e' : Engine} {p x : NodeId} {frame : Option FrameId} {steps : List Step}
  {ids : List NodeId}

/-- Nodes whose labels stay are in a row still. -/
theorem Row.persist (h : g.Row p frame steps ids) (hp : g'.label p = g.label p)
    (hids : ∀ c ∈ ids, g'.label c = g.label c) : g'.Row p frame steps ids := by
  unfold Row at h ⊢
  rw [List.map_congr_left hids, h]
  refine List.map_congr_left fun s _ => ?_
  unfold below
  rw [hp]

/-- Frames stay where they are. -/
theorem Linked.persist {M R : NodeId → Prop} {F : FrameId → Prop} (h : g.Linked e p frame)
    (he : e.Evolves M R F e') (hg : g.Extends e g') (hp : e.Known p) : g'.Linked e' p frame := by
  unfold Linked
  rw [hg.label hp]
  refine h.imp_right ?_
  rintro ⟨f, fr, hf, hfr, hhome, hparent⟩
  obtain ⟨fr', hfr', hparent', -⟩ := he.frames hfr
  exact ⟨f, fr', hf, hfr', (hg.home hfr).trans hhome, hparent'.trans hparent⟩

/-- An instance whose frame stays is one still. -/
theorem Round.persist {spec : LoopSpec} {inst : Instance} {item : Value}
    (h : g.Round e x spec inst item) (hg : g.Extends e g') (hx : g'.label x = g.label x)
    (hids : ∀ c ∈ inst.nodes, g'.label c = g.label c)
    (hframe : ∀ fr, e.frames.get? inst.frame = some fr → e'.frames.get? inst.frame = some fr) :
    g'.Round e' x spec inst item where
  home := by
    obtain ⟨fr, hfr, -⟩ := h.binds
    rw [hg.home hfr, h.home]
  binds := by
    rw [hx]
    exact h.binds.congr hframe
  row := h.row.persist hx hids

/-- A node that persists stands for its step still. -/
theorem Stands.persist {Arises : Value → Prop} {o o' : Outlook} {n n' : RenderNode} {step : Step}
    {sight : Sight} (h : g.Stands Arises e o x n step sight)
    (hkind : n.kind.context? = none → n'.kind = n.kind) (hkids : n'.children = n.children)
    (hg : g.Extends e g') (hx : e.Known x) (hchildren : ∀ c ∈ n.children, e.Known c)
    (htranslator : o'.translator = o.translator)
    (hframes : ∀ f fr, g.home f = x → e.frames.get? f = some fr → e'.frames.get? f = some fr) :
    g'.Stands Arises e' o' x n' step sight := by
  have hkind {kind : RenderKind} (hn : n.kind = kind) (hnone : kind.context? = none) :
      n'.kind = kind := by
    subst hn
    exact hkind hnone
  have hlabel := hg.label hx
  -- children were known before, so their labels stay
  have hrow {frame : Option FrameId} {steps : List Step} (h : g.Row x frame steps n.children) :
      g'.Row x frame steps n'.children := by
    rw [hkids]
    exact h.persist hlabel fun c hc => hg.label (hchildren c hc)
  have hshown (s : String) : o'.shown s = o.shown s := by
    unfold Outlook.shown
    rw [htranslator]
  cases h with
  | @element tag actions content data kind tag_eq actions_eq overlay added expr fixed children =>
    refine .element (hkind kind rfl) tag_eq actions_eq overlay added expr (fun hnone => ?_) ?_
    · rw [fixed hnone]
      unfold Content.fixed
      split
      · rw [hshown]
      · rfl
    · rw [hlabel]
      exact hrow children
  | text kind fixed children =>
    exact .text (hkind kind rfl) (fun s hs => (fixed s hs).trans (hshown s).symm)
      (hkids.trans children)
  | choice kind branches_eq reactive_eq children =>
    refine .choice (hkind kind rfl) branches_eq reactive_eq ?_
    rw [hlabel]
    exact hrow children
  | @loop spec items insts data kind spec_eq arise state showing rounds frames children =>
    refine .loop (hkind kind rfl) spec_eq arise state showing ?_ frames ?_
    · have hnodes : ∀ inst ∈ insts, ∀ c ∈ inst.nodes, g'.label c = g.label c :=
        fun inst hinst c hc => hg.label (hchildren c (children.mem_children hinst hc))
      -- the frames of the instances were made for the loop, so they are not bound again
      refine ((List.forall₂_and_left _ _).2 ⟨hnodes, rounds⟩).imp fun inst item hround => ?_
      exact hround.2.persist hg hlabel hround.1 fun fr hfr => hframes _ fr hround.2.home hfr
    · unfold Filled at children ⊢
      split
      · rename_i hnone
        rw [if_pos hnone] at children
        rw [hlabel]
        exact hrow children
      · rename_i hsome
        rw [if_neg hsome] at children
        exact hkids.trans children
  | @set name value body data f kind name_eq value_eq body_eq arise home binds children =>
    refine .set (f := f) (hkind kind rfl) name_eq value_eq body_eq arise ?_ ?_ (hrow children)
    · obtain ⟨fr, hfr, -⟩ := binds
      rw [hg.home hfr, home]
    · rw [hlabel]
      exact binds.congr fun fr hfr => hframes f fr home hfr
  | top children =>
    refine .top ?_
    rw [hlabel]
    exact hrow children

end Plan

/-! ## Trees that stay laid out -/

namespace Engine

variable {e e' : Engine} {M R : NodeId → Prop} {F : FrameId → Prop} {g g' : Plan} {root : NodeId}
  {b : Body} {Start : Outlook → Prop} {Busy Busy' Stale Stale' : NodeId → Prop}

/-- Where the frames stay, none is new. -/
theorem no_new_frame {P : Prop} (hframes : e'.frames = e.frames) {f : FrameId} {fr : Frame}
    (hfr : e'.frames.get? f = some fr) (hnone : e.frames.get? f = none) : P := by
  rw [hframes, hnone] at hfr
  cases hfr

/-- A node that was there before is where its label says. -/
theorem Laid.placed_evolve {x : NodeId} {n' : RenderNode} (h : e.Laid b Start root g Busy Stale)
    (he : e.Evolves M R F e') (hg : g.Extends e g') (hn' : e'.node? x = some n')
    (hknown : e.Known x) (hx : x ≠ root) : g'.Placed e' root x n' := by
  obtain ⟨n, hn, hplace⟩ := he.old hn' hknown
  have hlabel := hg.label hknown
  have hold := h.placed hn hx
  obtain ⟨p, np, hp, hnp, -⟩ := h.exists_parent hn hx
  -- its parent is the one of before, whose label is the same as well
  have hparent {q : NodeId} (hq : n'.parent = some q) : q = p := by
    rw [show n'.parent = n.parent from congrArg (·.parent) hplace] at hq
    exact Option.some.inj (hq.symm.trans hp)
  refine ⟨(congrArg (·.context) hplace).trans hold.context,
    (RenderNode.isContext_congr hplace).trans hold.other, ?_, fun q hq => ?_, fun q hq => ?_⟩
  · rw [hlabel]
    exact (congrArg (·.frame) hplace).trans hold.frame
  · obtain rfl := hparent hq
    rw [hlabel, hg.label (known_of_node? hnp)]
    exact hold.path q hp
  · obtain rfl := hparent hq
    rw [hlabel]
    exact (hold.linked q hp).persist he hg (known_of_node? hnp)

/-- A node that was there before, and was not altered, stands for its step still. If no record of its
reads was dropped and no frame around it was bound again, it shows what is found from where it is. -/
theorem Laid.settled_evolve {x : NodeId} {n' : RenderNode} (h : e.Laid b Start root g Busy Stale)
    (he : e.Evolves M R F e') (hg : g.Extends e g') (hordered : e'.frames.Ordered)
    (hroot : e'.contains root = true) (hn' : e'.node? x = some n') (hknown : e.Known x)
    (hM : ¬M x) (hBusy : ¬Busy x) (hhome : ∀ f, F f → g.home f ≠ x) {stale : Prop}
    (hStale : Stale x → stale) (hR : R x → stale)
    (hF : ∀ f, F f → e.frames.Chain (g.label x).frame f → stale) :
    e'.Settled b Start root g' stale x n' := by
  obtain ⟨n, hn, -⟩ := he.old hn' hknown
  have hlive : e.contains x = true := contains_iff.2 ⟨n, hn⟩
  have htranslator : e'.translator = e.translator := congrArg (·.translator) he.setup
  obtain ⟨m, hm, hsame⟩ := he.kept hn hM
  obtain rfl := Option.some.inj (hn'.symm.trans hm)
  obtain ⟨sight, hstands, hshows⟩ := h.settled hn hBusy
  unfold Settled
  dsimp only
  rw [hg.label hknown]
  have hkind := RenderKind.eq_of_unread (congrArg (·.kind) hsame)
  have hkids : n'.children = n.children := congrArg (·.children) hsame
  refine ⟨sight, hstands.persist hkind hkids hg hknown ?_ htranslator ?_, fun hfresh => ?_⟩
  · intro c hc
    obtain ⟨-, nc, hnc, -⟩ := h.exists_child hn hc
    exact known_of_node? hnc
  · -- the frames that were made for the node bind what they bound
    intro f fr hf hfr
    obtain ⟨fr', hfr', -, hsame⟩ := he.frames hfr
    rw [hfr', hsame fun hFf => hhome f hFf hf]
  · -- nor was any frame around it bound again: it sees what it saw
    have hlt := h.lt_frame hlive
    have hchain (f : FrameId) (hf : e.frames.Chain (g.label x).frame f) : ¬F f :=
      fun hFf => hfresh (hF f hFf hf)
    rw [he.outlook h.ordered hordered h.live_root hroot hlt hchain]
    obtain ⟨hsight, hcovers⟩ := hshows fun hx => hfresh (hStale hx)
    exact ⟨hsight, he.covers h.ordered hordered hroot hlive (contains_iff.2 ⟨n', hn'⟩)
      (fun hx => hfresh (hR hx)) hlt hchain hcovers⟩

/-- A tree stays laid out if the nodes that were altered or have come are busy, and those are stale
of which records were dropped or around which frames were bound again. -/
theorem Laid.evolve (h : e.Laid b Start root g Busy Stale) (he : e.Evolves M R F e')
    (hg : g.Extends e g') (htree : e'.shape.Tree root) (hordered : e'.frames.Ordered)
    (hroot : e'.contains root = true)
    (hhomes : ∀ ⦃f fr⦄, e'.frames.get? f = some fr → e.frames.get? f = none → e'.Known (g'.home f))
    (hnew : ∀ ⦃x n⦄, e'.node? x = some n → ¬e.Known x → Busy' x ∧ g'.Placed e' root x n)
    (hM : ∀ x, M x → Busy' x) (hBusy : ∀ x, Busy x → Busy' x) (hStale : ∀ x, Stale x → Stale' x)
    (hR : ∀ x, R x → Busy' x ∨ Stale' x)
    (hF : ∀ f, F f → Busy' (g.home f) ∧ ∀ x, e.contains x = true →
      e.frames.Chain (g.label x).frame f → Busy' x ∨ Stale' x) :
    e'.Laid b Start root g' Busy' Stale' := by
  -- what is seen outside of all frames stays
  have hstart : e'.outlook root none = e.outlook root none :=
    he.outlook h.ordered hordered h.live_root hroot (fun _ hf => by cases hf) fun _ hf => by cases hf
  refine ⟨he.valid, htree, hroot, hordered, ?cancel, ?start, ?plain, ?top, ?homes, ?placed, ?settled⟩
  case cancel => exact (congrArg (·.cancel) he.setup).trans h.cancel
  case start =>
    rw [hstart]
    exact h.start
  case plain =>
    rw [scopeOf_congr (he.context? h.live_root hroot)]
    exact h.plain
  case top => rw [hg.label (.inl h.live_root), h.top]
  case homes =>
    intro f fr hfr
    cases hold : e.frames.get? f with
    | none => exact hhomes hfr hold
    | some old =>
      rw [hg.home hold]
      exact he.known (h.homes hold)
  case placed =>
    intro x n' hn' hx
    by_cases hknown : e.Known x
    · exact h.placed_evolve he hg hn' hknown hx
    · exact (hnew hn' hknown).2
  case settled =>
    intro x n' hn' hbusy
    by_cases hknown : e.Known x
    · obtain ⟨n, hn, -⟩ := he.old hn' hknown
      exact h.settled_evolve he hg hordered hroot hn' hknown (fun hx => hbusy (hM x hx))
        (fun hx => hbusy (hBusy x hx)) (fun f hf hhome => hbusy (hhome ▸ (hF f hf).1)) (hStale x)
        (fun hx => (hR x hx).resolve_left hbusy)
        fun f hf hchain => ((hF f hf).2 x (contains_iff.2 ⟨n, hn⟩) hchain).resolve_left hbusy
    · exact absurd (hnew hn' hknown).1 hbusy

end Engine
end ReactiveView
