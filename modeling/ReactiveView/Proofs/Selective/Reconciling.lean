import ReactiveView.Proofs.Selective.Updating
import ReactiveView.Proofs.Structure.Updating

/-!
# Updating loops with identities

A loop with identities is brought in line with its items while it is worked on (`Engine.Tends`). At
first all of its instances wait. Those whose keys are not wanted are removed
(`Render.dropInstances_tends`). Then the instances of the wanted items are kept or built in turn
(`Render.arrangeInstances_arranges`): an instance that is kept gets its item and its place, and if that
changes anything, what sees its frame is stale until it is updated. In the end no instance is waiting,
and the loop is finished as if it had been built.

With this, all nodes of a selective tree can be updated (`Reentry.within_updates`).
-/

namespace ReactiveView

/-! ## Instances by their keys -/

namespace OrderedMap

variable {κ α : Type} [DecidableEq κ] {k : κ} {ks : List κ} {v : α}

/-- The values of certain keys. -/
def valuesAt (m : OrderedMap κ α) (ks : List κ) : List α :=
  (m.entries.filter fun p => p.1 ∈ ks).map (·.2)

/-- There are none without keys. -/
theorem valuesAt_nil (m : OrderedMap κ α) : m.valuesAt [] = [] := by
  unfold valuesAt
  rw [List.filter_eq_nil_iff.2 fun p _ => by simp]
  rfl

/-- A key without an entry adds no value. -/
theorem valuesAt_cons_of_none {m : OrderedMap κ α} (h : m.get? k = none) (ks : List κ) :
    m.valuesAt (k :: ks) = m.valuesAt ks := by
  unfold valuesAt
  congr 1
  refine List.filter_congr fun p hp => ?_
  have hne : p.1 ≠ k := fun heq =>
    find?_eq_none.1 (show find? k m.entries = none from h) (heq ▸ List.mem_map_of_mem (f := (·.1)) hp)
  simp [hne]

/-- A key with an entry adds its value. -/
theorem perm_valuesAt_cons {m : OrderedMap κ α} (hm : m.Distinct) (h : m.get? k = some v)
    (hk : k ∉ ks) : (m.valuesAt (k :: ks)).Perm (v :: m.valuesAt ks) := by
  obtain ⟨es⟩ := m
  unfold valuesAt
  unfold get? at h
  unfold Distinct keys at hm
  dsimp only at h hm ⊢
  induction es with
  | nil => cases h
  | cons p es ih =>
    obtain ⟨k', v'⟩ := p
    obtain ⟨hfresh, hm⟩ := List.nodup_cons.1 hm
    by_cases hkey : k' = k
    · subst hkey
      unfold find? at h
      rw [if_pos rfl] at h
      obtain rfl := Option.some.inj h
      have hrest : es.filter (fun p => p.1 ∈ k' :: ks) = es.filter fun p => p.1 ∈ ks := by
        refine List.filter_congr fun p hp => ?_
        have hne : p.1 ≠ k' := fun heq => hfresh (heq ▸ List.mem_map_of_mem (f := (·.1)) hp)
        simp [hne]
      rw [List.filter_cons_of_pos (by simp), hrest, List.filter_cons_of_neg (by simpa using hk)]
      exact .refl _
    · unfold find? at h
      rw [if_neg hkey] at h
      have ih := ih hm h
      by_cases hmem : k' ∈ ks
      · rw [List.filter_cons_of_pos (by simp [hmem]), List.filter_cons_of_pos (by simpa using hmem),
          List.map_cons, List.map_cons]
        exact (ih.cons v').trans (.swap v v' _)
      · rw [List.filter_cons_of_neg (by simp [hkey, hmem]),
          List.filter_cons_of_neg (by simpa using hmem)]
        exact ih

end OrderedMap

/-- The keys of the rounds of a loop with identities are different from each other. -/
theorem LoopSpec.wantedFrom_distinct (spec : LoopSpec) : ∀ (items : List Value)
    {wanted : OrderedMap Key (Value × Value)}, wanted.Distinct → (spec.wantedFrom wanted items).Distinct
  | [], _, h => h
  | item :: items, wanted, h => by
    unfold wantedFrom
    dsimp only
    refine wantedFrom_distinct spec items ?_
    split
    · exact h
    · exact h.insert _ _

/-- A loop with identities keeps its instances under different keys. -/
theorem LoopSpec.exists_keyed {spec : LoopSpec} {items : List Value} {insts : List Instance}
    (hkeyed : spec.identity.isSome = true) (hlength : insts.length = (spec.rounds items).length) :
    ∃ old : OrderedMap Key Instance, spec.stateOf items insts = .keyed old ∧ old.values = insts ∧
      old.Distinct := by
  refine ⟨⟨((spec.rounds items).map (·.1)).zip insts⟩, ?_,
    List.map_snd_zip (by rw [List.length_map, hlength]), ?_⟩
  · unfold stateOf
    rw [if_pos hkeyed]
  · have hkeys : (((spec.rounds items).map (·.1)).zip insts).map (·.1) =
        (spec.rounds items).map (·.1) := List.map_fst_zip (by rw [List.length_map, hlength])
    unfold OrderedMap.Distinct OrderedMap.keys
    dsimp only
    rw [hkeys, LoopSpec.keys_rounds hkeyed]
    exact spec.wantedFrom_distinct items List.nodup_nil

namespace Engine

variable {e e' e₁ e₂ : Engine} {g g' g₁ g₂ : Plan} {root id c x : NodeId} {b : Body}
  {Start : Outlook → Prop} {Busy Busy' Stale Stale' : NodeId → Prop} {n n' : RenderNode}
  {spec : LoopSpec} {insts rest rest' : List Instance} {items : List Value} {kept inst : Instance} {item : Value}
  {data : LoopData} {sight : Sight} {f : FrameId}

/-- The order of the instances that wait does not matter. -/
theorem Tends.perm (h : e.Tends b Start root g Busy Stale id n spec insts items rest)
    (hrest : rest.Perm rest') : e.Tends b Start root g Busy Stale id n spec insts items rest' where
  works := h.works
  rounds := h.rounds
  waiting inst hinst := h.waiting inst (hrest.mem_iff.2 hinst)
  frames := ((hrest.append_left insts).map _).nodup_iff.1 h.frames
  children := h.children.trans ((hrest.append_left insts).flatMap_right _)

/-- Where the frames around a node come from: what sees a frame is under a child of the node for which
the frame was made. -/
theorem Laid.exists_child_of_chain (h : e.Laid b Start root g Busy Stale) (hx : e.contains x = true)
    (hf : e.frames.Chain (g.label x).frame f) : ∃ c nc, e.node? c = some nc ∧
      nc.parent = some (g.home f) ∧ (g.label c).frame = some f ∧ g.Under c x := by
  refine h.induct (P := fun x => e.frames.Chain (g.label x).frame f → ∃ c nc, e.node? c = some nc ∧
    nc.parent = some (g.home f) ∧ (g.label c).frame = some f ∧ g.Under c x) ?_ ?_ hx hf
  · intro hf
    rw [h.top] at hf
    cases hf
  · intro x n p np hn hx hp _ _ ih hf
    have hlive : e.contains x = true := contains_iff.2 ⟨n, hn⟩
    have hup (hf : e.frames.Chain (g.label p).frame f) : ∃ c nc, e.node? c = some nc ∧
        nc.parent = some (g.home f) ∧ (g.label c).frame = some f ∧ g.Under c x := by
      obtain ⟨c, nc, hnc, hhome, hframe, hunder⟩ := ih hf
      exact ⟨c, nc, hnc, hhome, hframe, h.under_trans hlive hunder (h.under_parent hn hp)⟩
    rcases (h.placed hn hx).linked p hp with hsame | ⟨f', fr, hf', hfr, hhome, hparent⟩
    · exact hup (hsame ▸ hf)
    · rw [hf'] at hf
      cases hf with
      | head => exact ⟨x, n, hn, by rw [hp, hhome], hf', .inl rfl⟩
      | enclosing hfr' hrest =>
        obtain rfl := Option.some.inj (hfr.symm.trans hfr')
        exact hup (hparent ▸ hrest)

/-- What sees the frame of an instance first are the nodes of the instance. -/
theorem Tends.mem_of_frame (h : e.Tends b Start root g Busy Stale id n spec insts items rest)
    (hinst : inst ∈ insts ++ rest) (hc : c ∈ n.children) (hframe : (g.label c).frame = some inst.frame) :
    c ∈ inst.nodes := by
  obtain ⟨other, hother, hmem⟩ := List.mem_flatMap.1 (h.children.mem_iff.1 hc)
  obtain ⟨item, hround⟩ := h.exists_round hother
  obtain ⟨s, -, hlabel⟩ := hround.row.exists_step hmem
  rw [hlabel] at hframe
  obtain rfl := List.inj_on_of_nodup_map h.frames hother hinst (Option.some.inj hframe)
  exact hmem

/-- The frame of an instance is bound anew, and no other one. -/
theorem Tends.evolves_rebound (h : e.Tends b Start root g Busy Stale id n spec insts items rest)
    (hinst : inst ∈ insts ++ rest) {s : FrameStore}
    (hother : ∀ f, f ≠ inst.frame → s.get? f = e.frames.get? f)
    (hbinds : s.Binds inst.frame (g.label id).frame spec.var item) :
    e.Evolves (fun _ => False) (fun _ => False) (· = inst.frame) { e with frames := s } := by
  obtain ⟨old, hround⟩ := h.exists_round hinst
  refine .of_frames h.works.laid.valid rfl rfl fun f fr hfr => ?_
  by_cases hf : f = inst.frame
  · subst hf
    obtain ⟨fr₁, hfr₁, hparent₁, -⟩ := hround.binds
    obtain rfl := Option.some.inj (hfr.symm.trans hfr₁)
    obtain ⟨fr', hfr', hparent, -⟩ := hbinds
    exact ⟨fr', hfr', hparent.trans hparent₁.symm, fun hne => absurd rfl hne⟩
  · exact ⟨fr, (hother f hf).trans hfr, rfl, fun _ => rfl⟩

/-- What sees the frame of an instance is under a node of the instance. -/
theorem Tends.under_of_chain (h : e.Tends b Start root g Busy Stale id n spec insts items rest)
    (hinst : inst ∈ insts ++ rest) (hx : e.contains x = true)
    (hchain : e.frames.Chain (g.label x).frame inst.frame) : ∃ c ∈ inst.nodes, g.Under c x := by
  obtain ⟨item, hround⟩ := h.exists_round hinst
  obtain ⟨c, nc, hnc, hp, hframe, hunder⟩ := h.works.laid.exists_child_of_chain hx hchain
  rw [hround.home] at hp
  have hroot : c ≠ root := by
    rintro rfl
    rw [h.works.laid.top] at hframe
    cases hframe
  obtain ⟨p, np, hp', hnp, hchild⟩ := h.works.laid.exists_parent hnc hroot
  obtain rfl := Option.some.inj (hp.symm.trans hp')
  obtain rfl := Option.some.inj (h.works.node.symm.trans hnp)
  exact ⟨c, h.mem_of_frame hinst hchild hframe, hunder⟩

/-- When the frame of an instance is bound anew, what is under its nodes may be stale. -/
theorem Tends.laid_rebound (h : e.Tends b Start root g Busy Stale id n spec insts items rest)
    (hinst : inst ∈ insts ++ rest) {s : FrameStore} (hordered : s.Ordered)
    (hother : ∀ f, f ≠ inst.frame → s.get? f = e.frames.get? f)
    (hbinds : s.Binds inst.frame (g.label id).frame spec.var item) :
    ({ e with frames := s } : Engine).Laid b Start root g Busy
      fun x => Stale x ∨ e.contains x = true ∧ ∃ c ∈ inst.nodes, g.Under c x := by
  obtain ⟨old, hround⟩ := h.exists_round hinst
  refine h.works.laid.evolve (h.evolves_rebound hinst hother hbinds) (.refl g e) h.works.laid.tree
    hordered h.works.laid.live_root (fun f fr hfr hnone => ?_)
    (fun x m hm hx => absurd (known_of_node? hm) hx) (fun _ hx => hx.elim) (fun _ hx => hx)
    (fun _ hx => .inl hx) (fun _ hx => hx.elim) fun f hf => ?_
  · by_cases hf : f = inst.frame
    · rw [hf, hround.home]
      exact .inl h.works.live
    · have hfr : s.get? f = some fr := hfr
      rw [hother f hf, hnone] at hfr
      cases hfr
  · subst hf
    rw [hround.home]
    exact ⟨h.works.busy, fun x hx hchain => .inr (.inr ⟨hx, h.under_of_chain hinst hx hchain⟩)⟩

/-- The frame of an instance that waits is bound for an item: the instance is in line with the item,
and what is under its nodes may be stale. -/
theorem Tends.rebound (h : e.Tends b Start root g Busy Stale id n spec insts items (kept :: rest))
    {s : FrameStore} (hordered : s.Ordered) (hother : ∀ f, f ≠ kept.frame → s.get? f = e.frames.get? f)
    (hbinds : s.Binds kept.frame (g.label id).frame spec.var item) :
    ({ e with frames := s }).Tends b Start root g Busy
        (fun x => Stale x ∨ e.contains x = true ∧ ∃ c ∈ kept.nodes, g.Under c x) id n spec
        (insts ++ [kept]) (items ++ [item]) rest ∧
      e.Pursues g id { e with frames := s } g := by
  have hmem : kept ∈ insts ++ kept :: rest := List.mem_append_right insts List.mem_cons_self
  obtain ⟨old, hround⟩ := h.exists_round hmem
  have hevolves := h.evolves_rebound hmem hother hbinds
  have hpursues : e.Pursues g id { e with frames := s } g := by
    refine ⟨hevolves.mono (fun _ hx => hx.elim) (fun _ hx => hx.elim) fun f hf => ?_, .refl g e⟩
    rw [hf]
    unfold Plan.Inside
    rw [hround.home]
    exact ⟨h.works.live, .inl rfl⟩
  have hworks := hpursues.works h.works (h.laid_rebound hmem hordered hother hbinds) h.works.busy
    h.works.node
  -- all instances have frames of their own, so that the others persist
  have hframes := h.frames
  rw [List.map_append, List.map_cons, List.nodup_middle] at hframes
  obtain ⟨hfresh, -⟩ := List.nodup_cons.1 hframes
  rw [← List.map_append] at hfresh
  have hpersist {inst : Instance} {item : Value} (hinst : inst ∈ insts ++ rest)
      (hround : g.Round e id spec inst item) : g.Round { e with frames := s } id spec inst item := by
    have hall : inst ∈ insts ++ kept :: rest :=
      List.mem_append.2 ((List.mem_append.1 hinst).imp_right (List.mem_cons_of_mem kept))
    exact h.works.round hevolves (.refl g e)
      (fun heq => hfresh (heq ▸ List.mem_map_of_mem (f := (·.frame)) hinst))
      (fun _ hc => h.mem_children hall hc) hround
  have hperm : insts ++ [kept] ++ rest = insts ++ kept :: rest := by rw [List.append_assoc]; rfl
  refine ⟨⟨hworks, ?_, fun inst hinst => ?_, ?_, ?_⟩, hpursues⟩
  · refine List.rel_append ?_ (.cons ⟨hround.home, hbinds, hround.row⟩ .nil)
    refine ((List.forall₂_and_left _ _).2 ⟨fun _ hinst => hinst, h.rounds⟩).imp fun inst item hboth => ?_
    exact hpersist (List.mem_append_left _ hboth.1) hboth.2
  · obtain ⟨item, harises, hround⟩ := h.waiting inst (List.mem_cons_of_mem kept hinst)
    exact ⟨item, harises, hpersist (List.mem_append_right _ hinst) hround⟩
  · rw [hperm]
    exact h.frames
  · rw [hperm]
    exact h.children

/-- The nodes of an instance that is in line with an item are due when no other work goes on under the
loop. -/
theorem Tends.due
    (h : e.Tends b Start root g (fun x => Busy x ∨ x = id) Stale id n spec insts items rest)
    (hidle : ∀ x, e.contains x = true → g.Under id x → ¬Busy x)
    (hknown : ∀ x, Busy x ∨ Stale x → e.Known x) (hinst : inst ∈ insts ++ rest)
    (hround : g.Round e id spec inst item)
    (hitem : item ∈ (Look.items spec.iterable).result (e.outlook root (g.label id).frame))
    (hc : c ∈ inst.nodes) : e.Due b Start root g (fun x => Busy x ∨ x = id) Stale c := by
  have hchild := h.mem_children hinst hc
  obtain ⟨hroot, nc, hnc, hp⟩ := h.works.laid.exists_child h.works.node hchild
  refine ⟨h.works.laid, ⟨fun x hx => ?_, fun x hx hcx => ?_⟩, contains_iff.2 ⟨nc, hnc⟩, hroot, ?_⟩
  · rcases hx with (hx | rfl) | hx
    · exact hknown x (.inl hx)
    · exact .inl h.works.live
    · exact hknown x (.inr hx)
  · rintro (hbusy | rfl)
    · exact hidle x hx (h.works.laid.under_trans hx (h.works.laid.under_parent hnc hp) hcx) hbusy
    · exact h.works.laid.not_under_child h.works.node hchild hcx
  · refine hround.row.arrives hc fun s hs => ?_
    rw [outlook_binds h.works.laid.ordered hround.binds]
    exact .item h.works.arrives hitem hs

/-- The nodes of an instance are updated, and nothing else of the loop. -/
theorem Tends.sweep (h : e.Tends b Start root g Busy Stale id n spec insts items rest)
    (hinst : inst ∈ insts ++ rest) (hswept : e.Swept b Start root g Busy Stale inst.nodes e' g') :
    ∃ n', e'.Tends b Start root g' Busy (fun x => Stale x ∧ ¬∃ c ∈ inst.nodes, g'.Under c x) id n' spec
      insts items rest ∧ n'.children = n.children ∧ n'.kind = n.kind := by
  have hchild (c : NodeId) (hc : c ∈ inst.nodes) : c ∈ n.children := h.mem_children hinst hc
  have hself (c : NodeId) (hc : c ∈ inst.nodes) : ¬g.Under c id :=
    h.works.laid.not_under_child h.works.node (hchild c hc)
  have hpursues := hswept.pursues h.works.laid h.works.node hchild
  obtain ⟨n', hn', hsame⟩ := hswept.evolves.kept h.works.node fun ⟨c, hc, hunder⟩ => hself c hc hunder
  refine ⟨n', h.resume (hpursues.works h.works hswept.laid h.works.busy hn') hswept.evolves hswept.plan
    ?_ (.of_eq (congrArg (·.children) hsame)), congrArg (·.children) hsame,
    RenderKind.eq_of_unread (congrArg (·.kind) hsame) h.works.context?_eq⟩
  rintro other hother ⟨c, hc, -, hunder⟩
  obtain ⟨item, hround⟩ := h.exists_round hother
  rw [hround.home] at hunder
  exact hself c hc hunder

/-- The nodes of an instance are not under each other. -/
theorem Tends.apart (h : e.Tends b Start root g Busy Stale id n spec insts items rest)
    (hinst : inst ∈ insts ++ rest) :
    inst.nodes.Pairwise fun c c' => ¬g.Under c c' ∧ ¬g.Under c' c := by
  have hpairs := (h.children.pairwise_iff And.symm).1 (h.works.laid.apart_children h.works.node)
  exact (List.pairwise_flatMap.1 hpairs).1 inst hinst

/-- What is stale under a loop is under the instances that wait. -/
def Awaits (e : Engine) (g : Plan) (Stale : NodeId → Prop) (id : NodeId) (rest : List Instance) :
    Prop :=
  ∀ x, e.contains x = true → Stale x → g.Under id x →
    x = id ∨ ∃ inst ∈ rest, ∃ c ∈ inst.nodes, g.Under c x

/-- This stays so while nodes change and come. -/
theorem Awaits.persist (h : e.Awaits g Stale id rest) {M R : NodeId → Prop} {F : FrameId → Prop}
    (he : e.Evolves M R F e') (hg : g.Extends e g') (hknown : ∀ x, Stale x → e.Known x) :
    e'.Awaits g' Stale id rest := by
  intro x hx hstale hunder
  have hx₀ := hknown x hstale
  refine (h x (he.contains hx hx₀) hstale ((hg.under hx₀).1 hunder)).imp_right ?_
  rintro ⟨inst, hinst, c, hc, hcx⟩
  exact ⟨inst, hinst, c, hc, (hg.under hx₀).2 hcx⟩

/-- When all instances wait, any node under the loop may be stale. -/
theorem Tends.awaits (h : e.Tends b Start root g Busy Stale id n spec [] [] rest) :
    e.Awaits g Stale id rest := by
  intro x hx _ hunder
  refine hunder.imp_right fun hmem => ?_
  obtain ⟨c, hc, hcx⟩ := h.works.laid.under_child h.works.node hx hmem
  obtain ⟨inst, hinst, hc⟩ := List.mem_flatMap.1 (h.children.mem_iff.1 hc)
  exact ⟨inst, hinst, c, hc, hcx⟩

/-- One more instance is in line with its item. -/
structure Aligned (e : Engine) (b : Body) (Start : Outlook → Prop) (root : NodeId) (g : Plan)
    (Busy Stale : NodeId → Prop) (id : NodeId) (n : RenderNode) (spec : LoopSpec)
    (insts : List Instance) (items : List Value) (rest : List Instance) (inst : Instance)
    (item : Value) (e' : Engine) (g' : Plan) (n' : RenderNode) (Stale' : NodeId → Prop) : Prop where
  /-- Nothing was touched but the loop and what is under it. -/
  pursues : e.Pursues g id e' g'
  /-- The instances. -/
  tends : e'.Tends b Start root g' (fun x => Busy x ∨ x = id) Stale' id n' spec (insts ++ [inst])
    (items ++ [item]) rest
  /-- The loop is what it was, apart from its children. -/
  kind : n'.kind = n.kind
  /-- No node became stale. -/
  staler : ∀ x, Stale' x → Stale x

/-- The instances of all wanted items are in line, and none of before is waiting. -/
structure Arranged (e : Engine) (b : Body) (Start : Outlook → Prop) (root : NodeId) (g : Plan)
    (Busy Stale : NodeId → Prop) (id : NodeId) (n : RenderNode) (spec : LoopSpec)
    (insts : List Instance) (items : List Value) (recursive : Bool)
    (wanted : List (Key × Value × Value)) (all : List (Key × Instance)) (e' : Engine) (g' : Plan)
    (n' : RenderNode) (Stale' : NodeId → Prop) : Prop where
  /-- Nothing was touched but the loop and what is under it. -/
  pursues : e.Pursues g id e' g'
  /-- The instances. -/
  tends : e'.Tends b Start root g' (fun x => Busy x ∨ x = id) Stale' id n' spec
    (insts ++ all.map (·.2)) (items ++ wanted.map (·.2.2)) []
  /-- The loop is what it was, apart from its children. -/
  kind : n'.kind = n.kind
  /-- The keys. -/
  keys : all.map (·.1) = wanted.map (·.1)
  /-- No node became stale. -/
  staler : ∀ x, Stale' x → Stale x
  /-- Under the loop none is stale, if all were to be updated. -/
  clean : recursive = true → ∀ x, e'.contains x = true → Stale' x → g'.Under id x → x = id

/-- No item is wanted. -/
theorem Tends.arranged
    (h : e.Tends b Start root g (fun x => Busy x ∨ x = id) Stale id n spec insts items [])
    {recursive : Bool} (hclean : recursive = true → e.Awaits g Stale id []) :
    e.Arranged b Start root g Busy Stale id n spec insts items recursive [] [] e g n Stale where
  pursues := .refl h.works.laid.valid g id
  tends := by
    rw [List.map_nil, List.map_nil, List.append_nil, List.append_nil]
    exact h
  kind := rfl
  keys := rfl
  staler _ hx := hx
  clean hrecursive x hx hstale hunder := by
    refine (hclean hrecursive x hx hstale hunder).resolve_right ?_
    rintro ⟨inst, hinst, -⟩
    exact List.not_mem_nil hinst

/-- One instance is in line, and then the others are. -/
theorem Aligned.arranged {key : Key} {identity : Value} {wanted : List (Key × Value × Value)}
    {all : List (Key × Instance)} {recursive : Bool} {Stale₁ Stale₂ : NodeId → Prop}
    {n₁ n₂ : RenderNode} (hlaid : e.Laid b Start root g Busy' Stale')
    (h₁ : e.Aligned b Start root g Busy Stale id n spec insts items rest inst item e₁ g₁ n₁ Stale₁)
    (h₂ : e₁.Arranged b Start root g₁ Busy Stale₁ id n₁ spec (insts ++ [inst]) (items ++ [item])
      recursive wanted all e₂ g₂ n₂ Stale₂) :
    e.Arranged b Start root g Busy Stale id n spec insts items recursive
      ((key, identity, item) :: wanted) ((key, inst) :: all) e₂ g₂ n₂ Stale₂ where
  pursues := h₁.pursues.trans hlaid h₂.pursues
  tends := by
    have htends := h₂.tends
    rwa [List.append_assoc, List.append_assoc, List.singleton_append, List.singleton_append] at htends
  kind := h₂.kind.trans h₁.kind
  keys := congrArg (key :: ·) h₂.keys
  staler x hx := h₁.staler x (h₂.staler x hx)
  clean := h₂.clean

end Engine

namespace Render

open Engine

variable {re : Reentry} {e e' e₁ : Engine} {g g₁ : Plan} {root id : NodeId} {b : Body}
  {Start : Outlook → Prop} {Busy Stale : NodeId → Prop} {n : RenderNode} {spec : LoopSpec}
  {insts rest : List Instance} {items : List Value} {item : Value} {kept : Instance}
  {recursive : Bool} {sight : Sight} {data : LoopData}

/-! ## The instances of before -/

/-- Without the empty case, the children of a loop are those of its instances. -/
theorem dropEmpty_works (h : e.Works b Start root g Busy Stale id n (.loop spec)) {showing : Bool}
    (hshowing : showing = (insts.isEmpty && spec.empty.isSome))
    (hfilled : g.Filled id spec insts n.children) {e₁ : Engine}
    (he₁ : (if showing then e.clearChildren id else e) = e₁) :
    ∃ n₁, e₁.Works b Start root g Busy Stale id n₁ (.loop spec) ∧
      n₁.children = insts.flatMap (·.nodes) ∧ e.Pursues g id e₁ g ∧ e₁.frames = e.frames := by
  subst he₁
  cases showing with
  | true =>
    obtain ⟨n₁, hworks, hnone, -, hpursues, -⟩ := h.clear
    rw [List.isEmpty_iff.1 (Bool.and_eq_true_iff.1 hshowing.symm).1]
    have halters : e.Alters (· = id) (fun _ => False) (e.clearChildren id) := .clearChildren rfl
    exact ⟨n₁, hworks, hnone, hpursues, halters.frames⟩
  | false =>
    refine ⟨n, h, ?_, .refl h.laid.valid g id, rfl⟩
    unfold Plan.Filled at hfilled
    split at hfilled
    · -- there are no instances, and no empty case that would be shown in their place
      rename_i hnone
      subst hnone
      rw [List.isEmpty_nil, Bool.true_and, eq_comm, Option.isSome_eq_false_iff,
        Option.isNone_iff_eq_none] at hshowing
      unfold Plan.Row LoopSpec.emptySteps at hfilled
      rw [hshowing] at hfilled
      exact List.map_eq_nil_iff.1 hfilled
    · exact hfilled

/-- The instances of a loop with identities are taken out of it, and wait. -/
theorem takeInstances_tends (h : e.Works b Start root g Busy Stale id n (.loop spec))
    (hkeyed : spec.identity.isSome = true) (hkind : n.kind = .loop data)
    (hstands : g.Stands (b.Arises Start) e (e.outlook root (g.label id).frame) id n (.loop spec) sight) :
    ∃ n', (e.takeInstances id).2.Tends b Start root g Busy Stale id n' spec [] []
        (e.takeInstances id).1.values ∧
      n'.kind = .loop { data with state := .unbuilt, showingEmpty := false } ∧
      e.Pursues g id (e.takeInstances id).2 g ∧ (e.takeInstances id).1.Distinct := by
  cases hstands with
  | @loop _ olds insts data' kind spec_eq arise state showing rounds frames children =>
    obtain rfl := RenderKind.loop.inj (kind.symm.trans hkind)
    obtain ⟨old, hold, rfl, hdistinct⟩ :=
      LoopSpec.exists_keyed hkeyed (rounds.length_eq.trans (List.length_map _))
    rw [takeInstances_eq h.node kind (state.trans hold)]
    dsimp only
    obtain ⟨e₁, he₁⟩ : ∃ e₁, (if data'.showingEmpty then e.clearChildren id else e) = e₁ := ⟨_, rfl⟩
    obtain ⟨n₁, hworks₁, hchildren₁, hpursues, hframes⟩ := dropEmpty_works h showing children he₁
    rw [he₁]
    obtain ⟨hworks₂, hevolves⟩ := hworks₁.modifyKind
      (f := fun _ => .loop { data' with state := .unbuilt, showingEmpty := false }) rfl
    refine ⟨_, ⟨hworks₂, .nil, fun inst hinst => ?_, frames, ?_⟩, rfl,
      hpursues.trans h.laid (.of_own hevolves (.refl g e₁)), hdistinct⟩
    · obtain ⟨item, hitem, hround⟩ := List.Forall₂.exists_of_mem rounds hinst
      obtain ⟨p, hp, rfl⟩ := List.mem_map.1 hitem
      refine ⟨p.2, arise _ (LoopSpec.mem_rounds hp), hround.home, ?_, hround.row⟩
      change e₁.frames.Binds _ _ _ _
      rw [hframes]
      exact hround.binds
    · change n₁.children.Perm _
      rw [hchildren₁]
      exact .refl _

/-- The items of the keys that are wanted are found. -/
theorem wantedItems_tends (hb : b.Suits Start) (ns : Namespace) :
    ∀ (items : List Value) {e : Engine} {g : Plan} {n : RenderNode} {found : List Value}
      (wanted : OrderedMap Key (Value × Value)),
      e.Tends b Start root g Busy Stale id n spec insts found rest →
      (∀ item ∈ items,
        item ∈ (Look.items spec.iterable).result (e.outlook root (g.label id).frame)) →
      (wantedItems re spec ⟨id, root, (g.label id).frame, ns⟩ items wanted).Yields e fun all e' =>
        all = spec.wantedFrom wanted items ∧ ∃ g' n',
          e.Resumes b Start root g Busy Stale id n (.loop spec) e' g' n' ∧
            e'.Tends b Start root g' Busy Stale id n' spec insts found rest
  | [], e, g, n, found, wanted, h, _ => Act.yields_pure ⟨rfl, g, n, .refl h.works, h⟩
  | item :: items, e, g, n, found, wanted, h, hitems => by
    have hitem := hitems item List.mem_cons_self
    refine Act.yields_bind_of (loopKey_resumes hb h.works (inert_item hb h.works hitem) ns)
      fun p e₁ hkeyed => ?_
    obtain ⟨rfl, g₁, n₁, hresumes₁, hchildren₁⟩ := hkeyed
    have htends₁ := h.resume hresumes₁.works hresumes₁.evolves hresumes₁.plan (fun _ _ h => h)
      (.of_eq hchildren₁)
    rw [← hresumes₁.label h.works.live]
    rw [← hresumes₁.sees h.works] at hitems
    unfold LoopSpec.wantedFrom
    dsimp only
    refine (wantedItems_tends hb ns items _ htends₁ fun other hother =>
      hitems other (List.mem_cons_of_mem item hother)).imp fun all e₂ hall => ?_
    obtain ⟨hall, g₂, n₂, hresumes₂, htends₂⟩ := hall
    exact ⟨hall, g₂, n₂, hresumes₁.trans hresumes₂, htends₂⟩

/-- The instances that are not wanted are removed. -/
theorem dropInstances_tends {old : OrderedMap Key Instance}
    (h : e.Tends b Start root g Busy Stale id n spec [] [] old.values) (ks : List Key) {p : Key → Bool}
    (hp : ∀ k, p k = true ↔ k ∈ ks) :
    ∃ n', (e.dropInstances old p).Tends b Start root g Busy Stale id n' spec [] [] (old.valuesAt ks) ∧
      n'.kind = n.kind ∧ e.Pursues g id (e.dropInstances old p) g := by
  obtain rfl : p = fun k => decide (k ∈ ks) := by
    funext k
    rw [Bool.eq_iff_iff, hp, decide_eq_true_eq]
  rw [dropInstances_eq]
  let stay := (old.entries.filter fun q => decide (q.1 ∈ ks)).flatMap (·.2.nodes)
  let go := (old.entries.filter fun q => !decide (q.1 ∈ ks)).flatMap (·.2.nodes)
  have hchildren : n.children.Perm (stay ++ go) := by
    refine h.children.trans ?_
    rw [List.nil_append, OrderedMap.values, List.flatMap_map, ← List.flatMap_append]
    exact ((List.filter_append_perm _ old.entries).flatMap_right _).symm
  have hnodup : (stay ++ go).Nodup :=
    hchildren.nodup_iff.1 (h.works.laid.tree.nodup id n.shape (shape_of_node? h.works.node))
  obtain ⟨-, hgo, hapart⟩ := List.nodup_append.1 hnodup
  obtain ⟨n', hworks, hchildren', hkind, hpursues⟩ := h.works.removeAll go
    (fun c hc => hchildren.mem_iff.2 (List.mem_append_right stay hc)) hgo
  have halters : e.Alters (fun _ => True) (fun _ => False) (go.foldl Engine.removeNode e) :=
    .foldl (fun _ _ _ => .removeNode fun _ _ _ _ => trivial) e
  refine ⟨n', ⟨hworks, .nil, fun inst hinst => ?_, ?_, ?_⟩, hkind, hpursues⟩
  · have hold : inst ∈ old.values := (List.filter_sublist.map _).subset hinst
    obtain ⟨item, harises, hround⟩ := h.waiting inst hold
    refine ⟨item, harises, hround.home, ?_, hround.row⟩
    rw [halters.frames]
    exact hround.binds
  · exact h.frames.sublist ((List.filter_sublist.map _).map _)
  · rw [hchildren', List.nil_append, OrderedMap.valuesAt, List.flatMap_map]
    refine (hchildren.filter _).trans ?_
    have hstay : stay.filter (fun c => decide (c ∉ go)) = stay :=
      List.filter_eq_self.2 fun c hc => decide_eq_true fun hmem => hapart c hc c hmem rfl
    have hgone : go.filter (fun c => decide (c ∉ go)) = [] :=
      List.filter_eq_nil_iff.2 fun c hc hnot => of_decide_eq_true hnot hc
    rw [List.filter_append, hstay, hgone, List.append_nil]

/-! ## Arranging instances -/

/-- An instance that is kept is brought in line with its item, and is updated with everything under it
if it has changed or if that is asked for. -/
theorem keepInstance_tends (hb : b.Suits Start) (hre : re.Updates b Start root)
    (h : e.Tends b Start root g (fun x => Busy x ∨ x = id) Stale id n spec insts items (kept :: rest))
    (happart : e.Apart g Busy Stale id)
    (hitem : item ∈ (Look.items spec.iterable).result (e.outlook root (g.label id).frame))
    (ns : Namespace) (index : Nat) (identity : Value) (recursive : Bool) :
    (keepInstance re spec ⟨id, root, (g.label id).frame, ns⟩ kept item index identity recursive).Yields e
      fun _ e' => ∃ g' n' Stale',
        e.Aligned b Start root g Busy Stale id n spec insts items rest kept item e' g' n' Stale' ∧
          (recursive = true → ∀ x, Stale' x → ¬∃ c ∈ kept.nodes, g'.Under c x) := by
  have hwaits : kept ∈ kept :: rest := List.mem_cons_self
  obtain ⟨old, harises, hround⟩ := h.waiting kept hwaits
  refine Act.yields_step_bind.2 ?_
  dsimp only
  generalize e.forloop (g.label id).frame index (some identity) = forloop
  unfold Engine.rebindFrame
  dsimp only
  -- the frame with the item, and then also with the place
  let first := e.frames.rebind kept.frame spec.var item
  let second := first.2.rebind kept.frame "forloop" forloop
  have hsame := hb.same old item harises (.item h.works.arrives hitem)
  have hbinds : second.2.Binds kept.frame (g.label id).frame spec.var item :=
    (hround.binds.rebind hsame).rebind_forloop forloop
  have hother (f : FrameId) (hf : f ≠ kept.frame) : second.2.get? f = e.frames.get? f :=
    (FrameStore.get?_rebind_of_ne _ _ hf).trans (FrameStore.get?_rebind_of_ne _ _ hf)
  have hunchanged (hnone : ¬(first.1 || second.1) = true) : second.2 = e.frames := by
    rw [Bool.or_eq_true, not_or, Bool.not_eq_true, Bool.not_eq_true] at hnone
    obtain ⟨fr, hfr, -⟩ := hround.binds
    obtain ⟨fr₁, hfr₁, -⟩ := hround.binds.rebind hsame
    rw [(FrameStore.get?_rebind hfr₁ forloop).2 hnone.2, (FrameStore.get?_rebind hfr item).2 hnone.1]
  have hordered : second.2.Ordered := (h.works.laid.ordered.rebind _ _ _).rebind _ _ _
  obtain ⟨htends₁, hpursues₁⟩ := h.rebound hordered hother hbinds
  change Act.Yields (if (first.1 || second.1) || recursive then kept.nodes.forM re.update else pure ())
    { e with frames := second.2 } _
  split
  · have hkept : kept ∈ insts ++ [kept] ++ rest :=
      List.mem_append_left rest (List.mem_append_right insts List.mem_cons_self)
    have hround₁ : g.Round { e with frames := second.2 } id spec kept item :=
      ⟨hround.home, hbinds, hround.row⟩
    have hout := hpursues₁.outlook h.works htends₁.works.laid
    have hdue (c : NodeId) (hc : c ∈ kept.nodes) := htends₁.due happart.idle
      (fun x hx => hx.elim (fun hx => happart.known x (.inl hx)) fun hx => hx.elim
        (fun hx => happart.known x (.inr hx)) fun hx => .inl hx.1) hkept hround₁ (hout ▸ hitem) hc
    refine (forM_update_sweeps hre kept.nodes htends₁.works.laid hdue (htends₁.apart hkept)).imp
      fun _ e₂ hswept => ?_
    obtain ⟨g₂, hswept⟩ := hswept
    obtain ⟨n₂, htends₂, -, hkind₂⟩ := htends₁.sweep hkept hswept
    have hpursues₂ := hswept.pursues htends₁.works.laid htends₁.works.node
      fun c hc => htends₁.mem_children hkept hc
    refine ⟨g₂, n₂, _, ⟨hpursues₁.trans h.works.laid hpursues₂, htends₂, hkind₂, fun x hx => ?_⟩,
      fun _ x hx => hx.2⟩
    refine hx.1.resolve_right fun ⟨hlive, c, hc, hunder⟩ => hx.2 ⟨c, hc, ?_⟩
    exact (hswept.plan.under (.inl hlive)).2 hunder
  · rename_i hnone
    rw [Bool.or_eq_true, not_or] at hnone
    rw [hunchanged hnone.1] at htends₁ hpursues₁ ⊢
    exact Act.yields_pure ⟨g, n, Stale, ⟨.refl h.works.laid.valid g id,
      { htends₁ with works := h.works }, rfl, fun _ hx => hx⟩, fun htrue => absurd htrue hnone.2⟩

/-- The instances of the wanted items are kept or built in turn, until none waits. -/
theorem arrangeInstances_arranges (hb : b.Suits Start) (hre : re.Updates b Start root)
    {old : OrderedMap Key Instance} (hold : old.Distinct) (ns : Namespace) :
    ∀ (index : Nat) (wanted : List (Key × Value × Value)) {e : Engine} {g : Plan} {n : RenderNode}
      {Stale : NodeId → Prop} {insts : List Instance} {items : List Value},
      e.Tends b Start root g (fun x => Busy x ∨ x = id) Stale id n spec insts items
        (old.valuesAt (wanted.map (·.1))) →
      e.Apart g Busy Stale id → (wanted.map (·.1)).Nodup →
      (∀ p ∈ wanted, p.2.2 ∈ (Look.items spec.iterable).result (e.outlook root (g.label id).frame)) →
      (recursive = true → e.Awaits g Stale id (old.valuesAt (wanted.map (·.1)))) →
      (arrangeInstances re spec ⟨id, root, (g.label id).frame, ns⟩ recursive old index wanted).Yields e
        fun all e' => ∃ g' n' Stale', e.Arranged b Start root g Busy Stale id n spec insts items
          recursive wanted all.1 e' g' n' Stale'
  | index, [], e, g, n, Stale, insts, items, h, _, _, _, hclean => by
    rw [List.map_nil, OrderedMap.valuesAt_nil] at h hclean
    exact Act.yields_pure ⟨g, n, Stale, h.arranged hclean⟩
  | index, (key, identity, item) :: wanted, e, g, n, Stale, insts, items, h, happart, hnodup, hitems,
      hclean => by
    rw [List.map_cons] at h hnodup hclean
    obtain ⟨hkey, hnodup⟩ := List.nodup_cons.1 hnodup
    have hitem := hitems _ List.mem_cons_self
    have hrest (p) (hp : p ∈ wanted) := hitems p (List.mem_cons_of_mem _ hp)
    -- one instance is in line, and the others are arranged then
    have hnext {inst : Instance} {e₁ : Engine} {g₁ : Plan} {n₁ : RenderNode} {Stale₁ : NodeId → Prop}
        (haligned : e.Aligned b Start root g Busy Stale id n spec insts items
          (old.valuesAt (wanted.map (·.1))) inst item e₁ g₁ n₁ Stale₁)
        (hclean₁ : recursive = true → e.Awaits g Stale₁ id (old.valuesAt (wanted.map (·.1)))) :
        (arrangeInstances re spec ⟨id, root, (g.label id).frame, ns⟩ recursive old (index + 1)
          wanted).Yields e₁ fun all e' => ∃ g' n' Stale', e.Arranged b Start root g Busy Stale id n
            spec insts items recursive ((key, identity, item) :: wanted) ((key, inst) :: all.1) e' g'
            n' Stale' := by
      have hpursues := haligned.pursues
      have hlabel := hpursues.plan.label (.inl h.works.live)
      have hout := hpursues.outlook h.works haligned.tends.works.laid
      rw [← hlabel] at hout hrest ⊢
      refine (arrangeInstances_arranges hb hre hold ns (index + 1) wanted haligned.tends
        (happart.persist hpursues.evolves hpursues.plan haligned.staler) hnodup
        (fun p hp => hout ▸ hrest p hp) fun hrecursive => ?_).imp
          fun all e₂ ⟨g₂, n₂, Stale₂, harranged⟩ =>
            ⟨g₂, n₂, Stale₂, haligned.arranged h.works.laid harranged⟩
      exact (hclean₁ hrecursive).persist hpursues.evolves hpursues.plan
        fun x hx => happart.known x (.inr (haligned.staler x hx))
    have hclosed (index : Nat) (wanted : List (Key × Value × Value)) :=
      arrangeInstances_keeps Engine.roomy_stable.closed hre.lays.operates spec
        ⟨id, root, (g.label id).frame, ns⟩ recursive old wanted index
    unfold arrangeInstances
    cases hget : old.get? key with
    | none =>
      dsimp only
      rw [OrderedMap.valuesAt_cons_of_none hget] at h hclean
      refine Act.yields_bind (buildInstance_tends hre.lays h hitem ns index (some identity))
        (fun _ => Act.keeps_bind (hclosed _ _) fun _ => Act.keeps_pure _) fun inst e₁ hbuilt => ?_
      obtain ⟨g₁, n₁, hresumes, htends, -⟩ := hbuilt
      refine Act.yields_bind (hnext ⟨.of_own hresumes.evolves hresumes.plan, htends, hresumes.kind,
        fun _ hx => hx⟩ hclean) (fun _ => Act.keeps_pure _) fun all e₂ hall => ?_
      exact Act.yields_pure hall
    | some kept =>
      dsimp only
      have hperm := OrderedMap.perm_valuesAt_cons hold hget hkey
      refine Act.yields_bind (keepInstance_tends hb hre (h.perm hperm) happart hitem ns index identity
        recursive) (fun _ => Act.keeps_bind (hclosed _ _) fun _ => Act.keeps_pure _) fun _ e₁ hkept => ?_
      obtain ⟨g₁, n₁, Stale₁, haligned, hswept⟩ := hkept
      -- what was under the instance that was kept has been updated, or was not to be
      have hclean₁ (hrecursive : recursive = true) :
          e.Awaits g Stale₁ id (old.valuesAt (wanted.map (·.1))) := by
        intro x hx hstale hunder
        refine (hclean hrecursive x hx (haligned.staler x hstale) hunder).imp_right ?_
        rintro ⟨inst, hinst, c, hc, hcx⟩
        rcases List.mem_cons.1 (hperm.mem_iff.1 hinst) with rfl | hinst
        · exact absurd ⟨c, hc, (haligned.pursues.plan.under (.inl hx)).2 hcx⟩
            (hswept hrecursive x hstale)
        · exact ⟨inst, hinst, c, hc, hcx⟩
      refine Act.yields_bind (hnext haligned hclean₁) (fun _ => Act.keeps_pure _) fun all e₂ hall => ?_
      exact Act.yields_pure hall

/-- A loop whose instances are arranged is finished. -/
theorem endReconcile_finishes (hre : re.Lays b Start root) {instances : OrderedMap Key Instance}
    (h : e.Tends b Start root g Busy Stale id n spec instances.values ((spec.rounds items).map (·.2)) [])
    (hkind : n.kind = .loop data) (hspec : data.spec = spec) (hkeyed : spec.identity.isSome = true)
    (hkeys : instances.keys = (spec.wantedFrom .empty items).keys)
    (hitems : items = (Look.items spec.iterable).result (e.outlook root (g.label id).frame))
    (hcovers : e.Covers root (g.label id).frame id
      ((Look.items spec.iterable).reads (e.outlook root (g.label id).frame))) (moved : List NodeId)
    (ns : Namespace) :
    Act.Yields (do
      Act.change (·.orderChildren id instances)
      Act.change fun e => moved.foldl Engine.markRebind e
      finishLoop re id spec ⟨id, root, (g.label id).frame, ns⟩ (.keyed instances)) e fun _ e' =>
        ∃ g', e.Finishes b Start root g Busy Stale id (.loop spec) e' g' := by
  have hall : n.children.Perm (instances.values.flatMap (·.nodes)) := by
    have hchildren := h.children
    rwa [List.append_nil] at hchildren
  have horder : (instances.values.flatMap (·.nodes)).filter e.contains =
      instances.values.flatMap (·.nodes) := by
    refine List.filter_eq_self.2 fun c hc => ?_
    obtain ⟨-, nc, hnc, -⟩ := h.works.laid.exists_child h.works.node (hall.mem_iff.2 hc)
    exact contains_iff.2 ⟨nc, hnc⟩
  refine Act.yields_change_bind.2 (Act.yields_change_bind.2 ?_)
  unfold Engine.orderChildren
  dsimp only
  rw [horder]
  obtain ⟨hworks₁, hevolves₁⟩ := h.works.modifyNode
    (f := fun n => { n with children := instances.values.flatMap (·.nodes) }) rfl hall.symm
  generalize (e.modifyNode id fun n => { n with children := instances.values.flatMap (·.nodes) }) = e₁
    at hworks₁ hevolves₁ ⊢
  obtain ⟨hevolves₂, n₂, hworks₂, hchildren₂, hkind₂⟩ := hworks₁.evaluates (.markRebind moved)
  generalize moved.foldl Engine.markRebind e₁ = e₂ at hworks₂ hevolves₂ ⊢
  have hevolves := hevolves₁.trans hevolves₂
  have hout := h.works.outlook hworks₂.laid hevolves
  have htends := h.resume hworks₂ hevolves (.refl g e) (fun _ _ h => h) (hchildren₂ ▸ hall.symm)
  rw [← LoopSpec.stateOf_keyed hkeyed hkeys]
  rw [← hout] at hitems hcovers
  refine (finishLoop_finishes hre htends (hkind₂.trans hkind) hspec hitems hchildren₂
    (h.works.covers hworks₂ hevolves hcovers) ns).imp fun _ e₃ hdone => ?_
  obtain ⟨g₃, hdone⟩ := hdone
  exact ⟨g₃, hdone.after hevolves (.refl g e)⟩

/-- The end of reconciling breaks nothing. -/
theorem endReconcile_keeps {I : Engine → Prop} (h : OperationClosed I) (hre : re.Operates)
    (id : NodeId) (spec : LoopSpec) (cursor : Cursor) (p : List (Key × Instance) × List NodeId) :
    Act.Keeps I (do
      Act.change (·.orderChildren id ⟨p.1⟩)
      Act.change fun e => p.2.foldl Engine.markRebind e
      finishLoop re id spec cursor (.keyed ⟨p.1⟩)) :=
  Act.keeps_bind (Act.keeps_change fun _ he => h.orderChildren id _ he) fun _ =>
    Act.keeps_bind (Act.keeps_change fun _ he =>
      List.foldlRecOn p.2 _ (motive := I) he fun _ he id _ => h.markRebind id he) fun _ =>
      finishLoop_keeps h hre id spec cursor _

/-- The instances of a loop that all wait are arranged by the items, and the loop is up to date then. -/
theorem arrange_refreshes (hb : b.Suits Start) (hre : re.Updates b Start root)
    {old : OrderedMap Key Instance} (hold : old.Distinct)
    (h : e.Tends b Start root g (fun x => Busy x ∨ x = id) Stale id n spec [] []
      (old.valuesAt (spec.wantedFrom .empty items).keys))
    (happart : e.Apart g Busy Stale id) (hkind : n.kind = .loop data) (hspec : data.spec = spec)
    (hkeyed : spec.identity.isSome = true)
    (hitems : items = (Look.items spec.iterable).result (e.outlook root (g.label id).frame))
    (hcovers : e.Covers root (g.label id).frame id
      ((Look.items spec.iterable).reads (e.outlook root (g.label id).frame))) (ns : Namespace) :
    Act.Yields (do
      let p ← arrangeInstances re spec ⟨id, root, (g.label id).frame, ns⟩ recursive old 0
        (spec.wantedFrom .empty items).entries
      Act.change (·.orderChildren id ⟨p.1⟩)
      Act.change fun e => p.2.foldl Engine.markRebind e
      finishLoop re id spec ⟨id, root, (g.label id).frame, ns⟩ (.keyed ⟨p.1⟩)) e fun _ e' =>
        ∃ g', e.Refreshed b Start root g Busy Stale id recursive e' g' := by
  have hdistinct : (spec.wantedFrom .empty items).Distinct :=
    spec.wantedFrom_distinct items List.nodup_nil
  have hwanted (p) (hp : p ∈ (spec.wantedFrom .empty items).entries) :
      p.2.2 ∈ (Look.items spec.iterable).result (e.outlook root (g.label id).frame) := by
    rw [← hitems]
    exact (LoopSpec.mem_wantedFrom hp).resolve_left List.not_mem_nil
  refine Act.yields_bind (arrangeInstances_arranges hb hre hold ns 0
    (spec.wantedFrom .empty items).entries h happart hdistinct hwanted fun _ => h.awaits)
    (fun p => endReconcile_keeps Engine.roomy_stable.closed hre.lays.operates id spec _ p)
    fun p e₁ harranged => ?_
  obtain ⟨g₁, n₁, Stale₁, harranged⟩ := harranged
  have hpursues := harranged.pursues
  have htends : e₁.Tends b Start root g₁ (fun x => Busy x ∨ x = id) Stale₁ id n₁ spec
      (OrderedMap.values ⟨p.1⟩) ((spec.rounds items).map (·.2)) [] := by
    have hrounds : (spec.rounds items).map (·.2) =
        (spec.wantedFrom .empty items).entries.map (·.2.2) :=
      (LoopSpec.items_rounds hkeyed items).trans List.map_map
    rw [hrounds]
    exact harranged.tends
  have hlabel := hpursues.plan.label (.inl h.works.live)
  have hout := hpursues.outlook h.works htends.works.laid
  have hcovers₁ := hpursues.covers h.works htends.works hcovers
  rw [← hout, ← hlabel] at hitems hcovers₁
  rw [← hlabel]
  refine (endReconcile_finishes hre.lays htends (harranged.kind.trans hkind) hspec hkeyed
    harranged.keys hitems hcovers₁ p.2 ns).imp fun _ e₂ hdone => ?_
  obtain ⟨g₂, hdone⟩ := hdone
  have hrefreshed : e.Refreshed b Start root g Busy Stale₁ id recursive e₂ g₂ :=
    hdone.refreshed h.works.laid hpursues
      (fun x hx => hpursues.evolves.known (happart.known x (.inr (harranged.staler x hx))))
      harranged.clean
  exact ⟨g₂, hrefreshed.laid.staler fun x _ hx => ⟨harranged.staler x hx.1, hx.2⟩, hrefreshed.live,
    hrefreshed.pursues⟩

/-- A loop with identities is brought up to date: its instances are brought in line with its items. -/
theorem reconcile_refreshes (hb : b.Suits Start) (hre : re.Updates b Start root)
    (h : e.Works b Start root g (fun x => Busy x ∨ x = id) Stale id n (.loop spec))
    (happart : e.Apart g Busy Stale id) (hkind : n.kind = .loop data)
    (hkeyed : spec.identity.isSome = true)
    (hstands : g.Stands (b.Arises Start) e (e.outlook root (g.label id).frame) id n (.loop spec) sight)
    (hitems : items = (Look.items spec.iterable).result (e₁.outlook root (g.label id).frame))
    (hlearns : e.Learns b Start root g (fun x => Busy x ∨ x = id) Stale id n (.loop spec)
      ((Look.items spec.iterable).reads (e₁.outlook root (g.label id).frame)) e₁) :
    (reconcile re id items recursive).Yields e₁ fun _ e' =>
      ∃ g', e.Refreshed b Start root g Busy Stale id recursive e' g' := by
  have hclosed := Engine.roomy_stable.closed
  obtain ⟨n₁, hworks₁, hchildren₁, hkind₁⟩ := hlearns.node
  have hstands₁ := stands_works h hstands hlearns.evolves hkind₁ hchildren₁
  have hspec : data.spec = spec := by
    cases hstands with
    | loop kind spec_eq => exact RenderKind.loop.inj (kind.symm.trans hkind) ▸ spec_eq
  refine Act.yields_read_bind.2 ?_
  rw [loopParts?_works hworks₁ (hkind₁.trans hkind) hspec]
  dsimp only
  generalize e₁.namespaceAt id = ns
  -- the instances of before
  obtain ⟨n₂, htends₂, hkind₂, hpursues₂, hdistinct⟩ :=
    takeInstances_tends hworks₁ hkeyed (hkind₁.trans hkind) hstands₁
  refine Act.yields_step_bind.2 ?_
  generalize (e₁.takeInstances id).2 = e₂ at htends₂ hpursues₂ ⊢
  generalize (e₁.takeInstances id).1 = old at htends₂ hdistinct ⊢
  -- the items by their keys
  refine Act.yields_bind (wantedItems_tends hb ns items .empty htends₂ fun item hitem => ?_)
    (fun wanted => Act.keeps_bind (Act.keeps_change fun _ he => hclosed.dropInstances old _ he) fun _ =>
      Act.keeps_bind (arrangeInstances_keeps hclosed hre.lays.operates spec _ recursive old _ 0)
        fun p => endReconcile_keeps hclosed hre.lays.operates id spec _ p) fun wanted e₃ hwanted => ?_
  · rw [hpursues₂.outlook hworks₁ htends₂.works.laid, ← hitems]
    exact hitem
  obtain ⟨rfl, g₃, n₃, hresumes₃, htends₃⟩ := hwanted
  have hpursues₃ := hpursues₂.trans hworks₁.laid (.of_own hresumes₃.evolves hresumes₃.plan)
  -- those that are not wanted go
  obtain ⟨n₄, htends₄, hkind₄, hpursues₄⟩ := dropInstances_tends htends₃
    (spec.wantedFrom .empty items).keys (OrderedMap.contains_iff _)
  refine Act.yields_change_bind.2 ?_
  generalize e₃.dropInstances old (spec.wantedFrom .empty items).contains = e₄ at htends₄ hpursues₄ ⊢
  have hpursues₄ := hpursues₃.trans hworks₁.laid hpursues₄
  have happart₄ : e₄.Apart g₃ Busy Stale id :=
    (happart.persist hlearns.evolves (.refl g e) fun _ hx => hx).persist hpursues₄.evolves
      hpursues₄.plan fun _ hx => hx
  -- the others are kept, and new ones are built
  have hlabel := hpursues₄.plan.label (.inl hworks₁.live)
  have hout := hpursues₄.outlook hworks₁ htends₄.works.laid
  have hcovers := hpursues₄.covers hworks₁ htends₄.works hlearns.covers
  rw [← hout, ← hlabel] at hitems hcovers
  rw [← hlabel]
  refine (arrange_refreshes hb hre hdistinct htends₄ happart₄
    (hkind₄.trans (hresumes₃.kind.trans hkind₂)) hspec hkeyed hitems hcovers ns).imp
      fun _ e₅ hrefreshed => ?_
  obtain ⟨g₅, hrefreshed⟩ := hrefreshed
  exact ⟨g₅, hrefreshed.after h.laid
    ((Pursues.of_own hlearns.evolves (.refl g e)).trans h.laid hpursues₄)⟩

/-! ## All nodes -/

/-- A loop is brought up to date. -/
theorem updateLoop_refreshes (hb : b.Suits Start) (hre : re.Updates b Start root)
    (h : e.Works b Start root g (fun x => Busy x ∨ x = id) Stale id n (.loop spec))
    (happart : e.Apart g Busy Stale id) (hkind : n.kind = .loop data)
    (hstands : g.Stands (b.Arises Start) e (e.outlook root (g.label id).frame) id n (.loop spec) sight) :
    Act.Yields (do
      let items ← loopItems re id
      if data.isKeyed then reconcile re id items recursive
      else updatePlain re id items recursive) e fun _ e' =>
        ∃ g', e.Refreshed b Start root g Busy Stale id recursive e' g' := by
  have hspec : data.spec = spec := by
    cases hstands with
    | loop kind spec_eq => exact RenderKind.loop.inj (kind.symm.trans hkind) ▸ spec_eq
  refine Act.yields_bind_of (loopItems_learns hb h hkind hspec) fun items e₁ hlearns => ?_
  obtain ⟨hitems, hlearns⟩ := hlearns
  unfold LoopData.isKeyed
  rw [hspec]
  split
  · rename_i hkeyed
    exact reconcile_refreshes hb hre h happart hkind hkeyed hstands hitems hlearns
  · rename_i hplain
    exact updatePlain_refreshes hb hre h happart hkind (Bool.eq_false_iff.2 hplain) hstands hitems
      hlearns

/-- A node of which the reads are dropped first is updated if it is brought up to date then. -/
theorem purge_updates {x : Act Unit} {step : Step} (h : e.Due b Start root g Busy Stale id)
    (hn : e.node? id = some n) (hstep : (g.label id).step = step)
    (hstands : g.Stands (b.Arises Start) e (e.outlook root (g.label id).frame) id n step sight)
    (hx : ∀ n', (e.purge id).Works b Start root g (fun x => Busy x ∨ x = id) Stale id n' step →
      (e.purge id).Apart g Busy Stale id → n'.kind = n.kind →
      g.Stands (b.Arises Start) (e.purge id) ((e.purge id).outlook root (g.label id).frame) id n' step
        sight → x.Yields (e.purge id) fun _ e' =>
          ∃ g', (e.purge id).Refreshed b Start root g Busy Stale id recursive e' g') :
    Act.Yields (do Act.change (·.purge id); x) e fun _ e' =>
      ∃ g', e.Updated b Start root g Busy Stale id recursive e' g' := by
  have hworks := h.works hn
  rw [hstep] at hworks
  obtain ⟨hevolves, n', hworks', hchildren, hkind⟩ := purge_works hworks
  refine Act.yields_change_bind.2 ((hx n' hworks' (h.apart.persist hevolves (.refl g e) fun _ hx => hx)
    hkind (stands_works hworks hstands hevolves hkind hchildren)).imp fun _ e₂ hrefreshed => ?_)
  obtain ⟨g₂, hrefreshed⟩ := hrefreshed
  exact ⟨g₂, hrefreshed.updated h.laid hevolves⟩

/-- A node that is due is updated. -/
theorem updateNode_updates (hb : b.Suits Start) (hre : re.Updates b Start root)
    (h : e.Due b Start root g Busy Stale id) (recursive : Bool) :
    (updateNode re id recursive).Yields e fun _ e' =>
      ∃ g', e.Updated b Start root g Busy Stale id recursive e' g' := by
  obtain ⟨n, hn⟩ := contains_iff.1 h.live
  obtain ⟨sight, hstands, -⟩ := h.laid.settled hn (h.apart.idle id h.live (.inl rfl))
  refine Act.yields_bind_of (Q := fun _ e' => e' = e) (fun r e₁ hgives => ?_) fun _ e₁ he₁ => ?_
  · obtain ⟨hr, he⟩ := h.laid.poll hgives
    exact ⟨(), hr, he⟩
  subst he₁
  refine Act.yields_read_bind.2 ?_
  rw [hn]
  have hselective := (hb.arrives h.arrives).1
  obtain ⟨step, hstep⟩ : ∃ step, (g.label id).step = step := ⟨_, rfl⟩
  rw [hstep] at hstands hselective
  have hsame := hstands
  -- what the node is tells which step it stands for
  cases hsame with
  | element kind =>
    dsimp only
    rw [kind]
    exact purge_updates h hn hstep hstands fun _ hworks happart _ hstands =>
      updateElement_refreshes hb hre hworks happart hstands
  | text kind =>
    dsimp only
    rw [kind]
    exact purge_updates h hn hstep hstands fun _ hworks happart _ hstands =>
      updateText_refreshes hb hworks happart hstands
  | choice kind =>
    dsimp only
    rw [kind]
    exact purge_updates h hn hstep hstands fun _ hworks happart hkind hstands =>
      updateChoice_refreshes hb hre hworks happart (hkind.trans kind) hstands
  | loop kind =>
    dsimp only
    rw [kind]
    exact purge_updates h hn hstep hstands fun _ hworks happart hkind hstands =>
      updateLoop_refreshes hb hre hworks happart (hkind.trans kind) hstands
  | set kind =>
    dsimp only
    rw [kind]
    exact purge_updates h hn hstep hstands fun _ hworks happart hkind hstands =>
      updateSet_refreshes hb hre hworks happart (hkind.trans kind) hstands
  | top children => cases hselective

end Render

/-- Nodes that are due are updated at any depth. -/
theorem Reentry.within_updates {b : Body} {Start : Outlook → Prop} (hb : b.Suits Start)
    (root : NodeId) (depth : Nat) : (Reentry.within depth).Updates b Start root := by
  induction depth with
  | zero => exact ⟨within_lays hb root 0, fun _ _ _ _ _ _ _ _ hgives => by cases hgives⟩
  | succ depth ih =>
    exact ⟨within_lays hb root _, fun _ _ _ _ _ h => Render.updateNode_updates hb ih h true⟩

end ReactiveView
