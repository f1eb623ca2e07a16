import ReactiveView.Proofs.Selective.Building

/-!
# Building loops

While a loop is worked on, its children belong to instances: those that have been brought in line
with their items, and those of before that are still waiting (`Engine.Tends`). A new instance joins
the former (`Render.buildInstance_tends`). A loop that is built from its items has no waiting
instances, and ends with one instance for each of its rounds (`Render.fillLoop_finishes`).

With loops, all steps of a selective body can be built, at any depth (`Reentry.within_lays`).
-/

namespace ReactiveView

/-- What is related to the members of a list. -/
theorem List.Forall₂.exists_of_mem {α β : Type} {r : α → β → Prop} {as : List α} {bs : List β}
    (h : List.Forall₂ r as bs) {a : α} (ha : a ∈ as) : ∃ b ∈ bs, r a b := by
  induction h with
  | nil => exact absurd ha List.not_mem_nil
  | cons hab _ ih =>
    rcases List.mem_cons.1 ha with rfl | ha
    · exact ⟨_, List.mem_cons_self, hab⟩
    · obtain ⟨b, hb, hr⟩ := ih ha
      exact ⟨b, List.mem_cons_of_mem _ hb, hr⟩

/-- The value of a new key comes last. -/
theorem OrderedMap.values_insert_of_not_contains {κ α : Type} [DecidableEq κ] {m : OrderedMap κ α}
    {k : κ} (h : m.contains k = false) (v : α) : (m.insert k v).values = m.values ++ [v] := by
  unfold values
  rw [entries_insert_of_not_contains h, List.map_append]
  rfl

/-! ## Rounds -/

namespace LoopSpec

variable {spec : LoopSpec} {items : List Value} {wanted : OrderedMap Key (Value × Value)}

/-- The wanted items are items, besides those that were wanted before. -/
theorem mem_wantedFrom {p : Key × Value × Value} (h : p ∈ (spec.wantedFrom wanted items).entries) :
    p ∈ wanted.entries ∨ p.2.2 ∈ items := by
  induction items generalizing wanted with
  | nil => exact .inl h
  | cons item items ih =>
    unfold wantedFrom at h
    dsimp only at h
    rcases ih h with h | h
    · split at h
      · exact .inl h
      · rename_i hnew
        rw [OrderedMap.entries_insert_of_not_contains (Bool.eq_false_iff.2 hnew)] at h
        refine (List.mem_append.1 h).imp_right fun h => ?_
        rw [List.mem_singleton.1 h]
        exact List.mem_cons_self
    · exact .inr (List.mem_cons_of_mem _ h)

/-- What was wanted before is wanted still. -/
theorem wantedFrom_ne_nil (h : wanted.entries ≠ []) : (spec.wantedFrom wanted items).entries ≠ [] := by
  induction items generalizing wanted with
  | nil => exact h
  | cons item items ih =>
    unfold wantedFrom
    dsimp only
    refine ih ?_
    split
    · exact h
    · rename_i hnew
      rw [OrderedMap.entries_insert_of_not_contains (Bool.eq_false_iff.2 hnew)]
      exact List.append_ne_nil_of_left_ne_nil h _

/-- The items of rounds are items. -/
theorem mem_rounds {p : Key × Value} (h : p ∈ spec.rounds items) : p.2 ∈ items := by
  unfold rounds at h
  split at h
  · obtain ⟨q, hq, rfl⟩ := List.mem_map.1 h
    exact (mem_wantedFrom hq).resolve_left List.not_mem_nil
  · obtain ⟨item, hitem, rfl⟩ := List.mem_map.1 h
    exact hitem

/-- There are no rounds only if there are no items. -/
theorem rounds_eq_nil (h : spec.rounds items = []) : items = [] := by
  cases items with
  | nil => rfl
  | cons item items =>
    unfold rounds at h
    split at h
    · -- the first item is the first one of its key
      refine absurd (List.map_eq_nil_iff.1 h) ?_
      unfold wantedFrom
      dsimp only
      refine wantedFrom_ne_nil ?_
      rw [if_neg nofun, OrderedMap.entries_insert_of_not_contains rfl]
      exact List.append_ne_nil_of_right_ne_nil _ nofun
    · exact absurd h nofun

/-- The keys of the rounds of a loop with identities. -/
theorem keys_rounds (h : spec.identity.isSome = true) (items : List Value) :
    (spec.rounds items).map (·.1) = (spec.wantedFrom .empty items).keys := by
  unfold rounds OrderedMap.keys
  rw [if_pos h, List.map_map]
  rfl

/-- The items of the rounds of a loop with identities. -/
theorem items_rounds (h : spec.identity.isSome = true) (items : List Value) :
    (spec.rounds items).map (·.2) = (spec.wantedFrom .empty items).values.map (·.2) := by
  unfold rounds OrderedMap.values
  rw [if_pos h, List.map_map, List.map_map]
  rfl

/-- The items of the rounds of a loop without identities. -/
theorem items_rounds_plain (h : spec.identity.isSome = false) (items : List Value) :
    (spec.rounds items).map (·.2) = items := by
  unfold rounds
  rw [if_neg (Bool.eq_false_iff.1 h), List.map_map]
  exact List.map_id items

/-- What a loop with identities is built from. -/
theorem stateOf_keyed (h : spec.identity.isSome = true) {all : OrderedMap Key Instance}
    (hkeys : all.keys = (spec.wantedFrom .empty items).keys) :
    spec.stateOf items all.values = .keyed all := by
  unfold stateOf
  rw [if_pos h, keys_rounds h, ← hkeys]
  exact congrArg (fun entries => LoopState.keyed ⟨entries⟩) (List.zip_of_prod rfl rfl).symm

/-- What a loop without identities is built from. -/
theorem stateOf_plain (h : spec.identity.isSome = false) (items : List Value) (insts : List Instance) :
    spec.stateOf items insts = .plain items := by
  unfold stateOf
  rw [if_neg (Bool.eq_false_iff.1 h)]

/-- A loop is built from nothing if it has no instances. -/
theorem isEmpty_stateOf {insts : List Instance} (spec : LoopSpec)
    (hlength : insts.length = (spec.rounds items).length) :
    (spec.stateOf items insts).isEmpty = insts.isEmpty := by
  unfold stateOf
  split
  · cases insts with
    | nil =>
      rw [List.zip_nil_right]
      rfl
    | cons inst insts =>
      cases hrounds : spec.rounds items with
      | nil =>
        rw [hrounds] at hlength
        cases hlength
      | cons _ _ => rfl
  · rename_i hidentity
    unfold rounds at hlength
    rw [if_neg hidentity, List.length_map] at hlength
    unfold LoopState.isEmpty
    dsimp only
    rw [Bool.eq_iff_iff, List.isEmpty_iff_length_eq_zero, List.isEmpty_iff_length_eq_zero, hlength]

/-- Without items there are no rounds. -/
theorem rounds_nil (spec : LoopSpec) : spec.rounds [] = [] := by
  unfold rounds
  split <;> rfl

end LoopSpec

/-! ## Loops that are worked on -/

namespace Engine

variable {e e' e₁ e₂ : Engine} {g g' g₁ g₂ : Plan} {root id : NodeId} {ids : List NodeId}
  {b : Body} {Start : Outlook → Prop} {Busy Busy' Stale Stale' : NodeId → Prop} {n n' n₁ n₂ : RenderNode}
  {step : Step} {spec : LoopSpec} {insts rest : List Instance} {items : List Value} {inst : Instance}
  {item : Value}

/-- A loop is worked on. Some of its instances are in line with items, others are as they were, and
its children are those of these instances. -/
structure Tends (e : Engine) (b : Body) (Start : Outlook → Prop) (root : NodeId) (g : Plan)
    (Busy Stale : NodeId → Prop) (id : NodeId) (n : RenderNode) (spec : LoopSpec)
    (insts : List Instance) (items : List Value) (rest : List Instance) : Prop where
  /-- The loop. -/
  works : e.Works b Start root g Busy Stale id n (.loop spec)
  /-- The instances that are in line. -/
  rounds : List.Forall₂ (g.Round e id spec) insts items
  /-- The instances that are as they were. -/
  waiting : ∀ inst ∈ rest, ∃ item, b.Arises Start item ∧ g.Round e id spec inst item
  /-- All have frames of their own. -/
  frames : ((insts ++ rest).map (·.frame)).Nodup
  /-- The children. -/
  children : n.children.Perm ((insts ++ rest).flatMap (·.nodes))

/-- An instance persists if its frame is not bound again. -/
theorem Works.round (h : e.Works b Start root g Busy Stale id n (.loop spec)) {M R : NodeId → Prop}
    {F : FrameId → Prop} (he : e.Evolves M R F e') (hg : g.Extends e g') (hF : ¬F inst.frame)
    (hnodes : ∀ c ∈ inst.nodes, c ∈ n.children) (hround : g.Round e id spec inst item) :
    g'.Round e' id spec inst item := by
  refine hround.persist hg (hg.label (.inl h.live)) (fun c hc => hg.label ?_) fun fr hfr => ?_
  · obtain ⟨-, nc, hnc, -⟩ := h.laid.exists_child h.node (hnodes c hc)
    exact known_of_node? hnc
  · obtain ⟨fr', hfr', -, hsame⟩ := he.frames hfr
    rw [hfr', hsame hF]

namespace Tends

/-- The nodes of an instance are children. -/
theorem mem_children (h : e.Tends b Start root g Busy Stale id n spec insts items rest)
    (hinst : inst ∈ insts ++ rest) {c : NodeId} (hc : c ∈ inst.nodes) : c ∈ n.children :=
  h.children.mem_iff.2 (List.mem_flatMap.2 ⟨inst, hinst, hc⟩)

/-- An instance that is in line is one for an item. -/
theorem exists_round (h : e.Tends b Start root g Busy Stale id n spec insts items rest)
    (hinst : inst ∈ insts ++ rest) : ∃ item, g.Round e id spec inst item := by
  rcases List.mem_append.1 hinst with hinst | hinst
  · obtain ⟨item, -, hround⟩ := List.Forall₂.exists_of_mem h.rounds hinst
    exact ⟨item, hround⟩
  · obtain ⟨item, -, hround⟩ := h.waiting inst hinst
    exact ⟨item, hround⟩

/-- Work on a loop goes on, and its instances persist. -/
theorem resume (h : e.Tends b Start root g Busy Stale id n spec insts items rest)
    (hworks : e'.Works b Start root g' Busy' Stale' id n' (.loop spec)) {M R : NodeId → Prop}
    {F : FrameId → Prop} (he : e.Evolves M R F e') (hg : g.Extends e g')
    (hF : ∀ inst ∈ insts ++ rest, ¬F inst.frame) (hchildren : n'.children.Perm n.children) :
    e'.Tends b Start root g' Busy' Stale' id n' spec insts items rest where
  works := hworks
  rounds := by
    -- no frame of an instance is bound again, whether it is in line or not
    refine ((List.forall₂_and_left _ _).2 ⟨fun _ hmem => hmem, h.rounds⟩).imp fun inst item hround => ?_
    have hmem := List.mem_append_left rest hround.1
    exact h.works.round he hg (hF inst hmem) (fun c hc => h.mem_children hmem hc) hround.2
  waiting inst hinst := by
    obtain ⟨item, harises, hround⟩ := h.waiting inst hinst
    have hmem := List.mem_append_right insts hinst
    exact ⟨item, harises, h.works.round he hg (hF inst hmem) (fun c hc => h.mem_children hmem hc) hround⟩
  frames := h.frames
  children := hchildren.trans h.children

/-- A new instance is in line with its item. -/
theorem join (h : e.Tends b Start root g Busy Stale id n spec insts items rest)
    (hresumes : e.Resumes b Start root g Busy Stale id n (.loop spec) e' g' n')
    (hround : g'.Round e' id spec inst item) (hfresh : e.frames.get? inst.frame = none)
    (hchildren : n'.children = n.children ++ inst.nodes) :
    e'.Tends b Start root g' Busy Stale id n' spec (insts ++ [inst]) (items ++ [item]) rest := by
  have hperm : (insts ++ [inst] ++ rest).Perm (inst :: (insts ++ rest)) := by
    rw [List.append_assoc]
    exact List.perm_middle
  have hpersist {inst : Instance} {item : Value} (hmem : inst ∈ insts ++ rest)
      (hround : g.Round e id spec inst item) : g'.Round e' id spec inst item :=
    h.works.round hresumes.evolves hresumes.plan (fun h => h) (fun _ hc => h.mem_children hmem hc) hround
  refine ⟨hresumes.works, ?_, fun other hother => ?_, ?_, ?_⟩
  · refine List.rel_append ?_ (.cons hround .nil)
    exact ((List.forall₂_and_left _ _).2 ⟨fun _ hmem => hmem, h.rounds⟩).imp fun inst item hround =>
      hpersist (List.mem_append_left rest hround.1) hround.2
  · obtain ⟨item, harises, hround⟩ := h.waiting other hother
    exact ⟨item, harises, hpersist (List.mem_append_right insts hother) hround⟩
  · refine (hperm.map _).nodup_iff.2 ?_
    rw [List.map_cons, List.nodup_cons]
    refine ⟨fun hmem => ?_, h.frames⟩
    -- the frame of an instance that was there before was in the store, so it is not the new one
    obtain ⟨other, hother, hsame⟩ := List.mem_map.1 hmem
    obtain ⟨item, hround⟩ := h.exists_round hother
    obtain ⟨fr, hfr, -⟩ := hround.binds
    rw [hsame, hfresh] at hfr
    cases hfr
  · rw [hchildren]
    refine (List.perm_append_comm.trans ?_).trans (hperm.flatMap_right _).symm
    rw [List.flatMap_cons]
    exact h.children.append_left inst.nodes

end Tends

end Engine

namespace Render

open Engine

variable {re : Reentry} {e e' : Engine} {g : Plan} {root id : NodeId} {b : Body}
  {Start : Outlook → Prop} {Busy Stale : NodeId → Prop} {n : RenderNode} {c : Cursor}
  {steps : List Step} {spec : LoopSpec} {insts rest : List Instance} {items : List Value}
  {item : Value}

/-- An instance is built for an item. -/
theorem buildInstance_tends (hre : re.Lays b Start root)
    (h : e.Tends b Start root g Busy Stale id n spec insts items rest)
    (hitem : item ∈ (Look.items spec.iterable).result (e.outlook root (g.label id).frame))
    (ns : Namespace) (index : Nat) (identity : Option Value) :
    (buildInstance re spec ⟨id, root, (g.label id).frame, ns⟩ item index identity).Yields e
      fun inst e' => ∃ g' n', e.Resumes b Start root g Busy Stale id n (.loop spec) e' g' n' ∧
        e'.Tends b Start root g' Busy Stale id n' spec (insts ++ [inst]) (items ++ [item]) rest ∧
          n'.children = n.children ++ inst.nodes ∧ e.frames.get? inst.frame = none := by
  have hworks := h.works
  refine Act.yields_bind_of (Q := fun _ e' => e' = e) (fun r e₁ hgives => ?_) fun _ e₁ he₁ => ?_
  · obtain ⟨hr, he⟩ := hworks.laid.poll hgives
    exact ⟨(), hr, he⟩
  subst he₁
  refine Act.yields_step_bind.2 (Act.yields_read_bind.2 ?_)
  dsimp only
  generalize e₁.forloop (g.label id).frame index identity = forloop
  obtain ⟨f, e₂, hadd⟩ : ∃ f e₂,
    e₁.addFrame (g.label id).frame [(spec.var, item), ("forloop", forloop)] = (f, e₂) := ⟨_, _, rfl⟩
  rw [hadd]
  dsimp only
  obtain ⟨g₂, n₂, -, hresumes₂, hchildren₂⟩ := hworks.framed hadd
  -- the frame is no node, so the children of before are counted
  have hbefore : (e₂.childrenOf id).length = n.children.length := by
    unfold Engine.childrenOf
    rw [hresumes₂.works.node, ← hchildren₂]
    rfl
  rw [hbefore]
  refine Act.yields_bind (build_houses hre hworks hadd (fun p hp => by rw [List.mem_singleton.1 hp])
    (fun s hs => .item hworks.arrives hitem hs) ns)
    (fun _ => Act.keeps_bind (Act.keeps_read _) fun _ => Act.keeps_pure _) fun _ e₃ hhoused => ?_
  obtain ⟨g₃, n₃, ids, hhoused⟩ := hhoused
  -- the nodes of the instance are those that have come
  have hnodes : (e₃.childrenOf id).drop n.children.length = ids := by
    unfold Engine.childrenOf
    rw [hhoused.works.node]
    change n₃.children.drop n.children.length = ids
    rw [hhoused.children, List.drop_left]
  refine Act.yields_read_bind.2 ?_
  rw [hnodes]
  exact Act.yields_pure ⟨g₃, n₃, hhoused.toResumes, h.join hhoused.toResumes
    ⟨hhoused.home, hhoused.binds, hhoused.row⟩ hhoused.fresh hhoused.children, hhoused.children,
    hhoused.fresh⟩

/-! ## Keys -/

/-- The value of an identity depends on nothing but the item. -/
theorem value_identity {ρ : Vars} (hρ : ρ.Inert) {ex : DynamicExpr} {name : String}
    (hreadable : ex.expr.readable = true) (hnames : ex.expr.names.all (· == name) = true)
    (hitem : item.inert = true) :
    (ρ.bind name item).value ex.expr = (Vars.bind (fun _ => none) name item).value ex.expr := by
  have hinert : (ρ.bind name item).Inert := hρ.bind name hitem
  refine (Vars.value_congr hinert hreadable fun x hx => ?_).symm
  -- the expression reads the variable of the loop alone, which is bound to the item in both
  obtain ⟨-, -, -, -, -, hreads⟩ := Vars.run_eq hinert hreadable
  obtain ⟨hx, hplain⟩ := hreads x hx
  have hname : x = name := beq_iff_eq.1 (List.all_eq_true.1 hnames x hx)
  unfold isPlainName at hplain
  simp only [Bool.and_eq_true, bne_iff_ne] at hplain
  unfold Vars.bind
  rw [if_pos ⟨hname, hplain.2⟩, if_pos ⟨hname, hplain.2⟩]

/-- The key of an item is found. -/
theorem loopKey_resumes (hb : b.Suits Start)
    (h : e.Works b Start root g Busy Stale id n (.loop spec)) (hitem : item.inert = true)
    (ns : Namespace) ⦃r : Except EngineError (Key × Value)⦄ ⦃e' : Engine⦄
    (hgives : (loopKey re spec ⟨id, root, (g.label id).frame, ns⟩ item).Gives e r e') :
    ∃ p, r = .ok p ∧ p = spec.keyOf item ∧ ∃ g' n',
      e.Resumes b Start root g Busy Stale id n (.loop spec) e' g' n' ∧ n'.children = n.children := by
  unfold loopKey at hgives
  unfold LoopSpec.keyOf
  cases hidentity : spec.identity with
  | none =>
    rw [hidentity] at hgives
    obtain ⟨rfl, rfl⟩ := Act.gives_pure.1 hgives
    exact ⟨_, rfl, rfl, g, n, .refl h, rfl⟩
  | some ex =>
    rw [hidentity] at hgives
    obtain ⟨hselective, ho⟩ := hb.arrives h.arrives
    obtain ⟨hreadable, hnames⟩ :
        ex.expr.readable = true ∧ ex.expr.names.all (· == spec.var) = true := by
      cases hselective with
      | loop _ identity_ok _ _ =>
        unfold LoopSpec.separable at identity_ok
        rw [hidentity, Option.all_some] at identity_ok
        exact Bool.and_eq_true_iff.1 identity_ok
    have hgives := Act.gives_step_bind.1 hgives
    dsimp only at hgives
    -- the identity is evaluated in a frame of its own, which binds the item
    obtain ⟨f, e₁, hadd⟩ : ∃ f e₁, e.addFrame (g.label id).frame [(spec.var, item)] = (f, e₁) :=
      ⟨_, _, rfl⟩
    rw [hadd] at hgives
    dsimp only at hgives
    obtain ⟨g₁, n₁, hframed, hresumes, hchildren₁⟩ := h.framed hadd
    have hbinds : e₁.frames.Binds f (g.label id).frame spec.var item :=
      FrameStore.binds_ofList hframed.added fun _ hp => absurd hp List.not_mem_nil
    have hout : e₁.outlook root (some f) = (e.outlook root (g.label id).frame).bind spec.var item := by
      rw [outlook_binds hframed.laid.ordered hbinds, hresumes.outlook h]
    have hready : (Cursor.site ⟨id, root, some f, ns⟩).Ready root
        ((e.outlook root (g.label id).frame).bind spec.var item) e₁ [] :=
      ⟨hframed.laid.grounded, hout, nofun, fun _ hx => absurd hx List.not_mem_nil⟩
    have hinert := ho.bind spec.var hitem
    have heval {r₁ : Except EngineError Value} {e₂ : Engine} (hgives :
        (evaluateHere re ⟨id, root, some f, ns⟩ ex).Gives e₁ r₁ e₂) :
        r₁ = .ok ((Vars.bind (fun _ => none) spec.var item).value ex.expr) ∧ e₁.Evaluates e₂ := by
      obtain ⟨hr, hevaluates, -⟩ := evaluateAt_gives rfl hready hinert.inert hreadable hgives
      rw [← value_identity ho.inert hreadable hnames hitem]
      exact ⟨hr, hevaluates⟩
    obtain ⟨v, e₂, hfirst, hrest⟩ := Act.gives_bind_of_ok hgives fun r₁ hr => ⟨_, (heval hr).1⟩
    obtain ⟨hv, hevaluates⟩ := heval hfirst
    obtain rfl := Except.ok.inj hv
    obtain ⟨rfl, rfl⟩ := Act.gives_pure.1 hrest
    obtain ⟨hevolves, n₂, hworks₂, hchildren₂, hkind₂⟩ := hresumes.works.evaluates hevaluates
    exact ⟨_, rfl, rfl, g₁, n₂, hresumes.trans ⟨hevolves, .refl g₁ e₁, hworks₂, hkind₂⟩,
      hchildren₂.trans hchildren₁⟩

/-! ## Instances for all items -/

/-- The iterable of a selective loop is selective. -/
theorem iterable_selective (hb : b.Suits Start)
    (h : e.Works b Start root g Busy Stale id n (.loop spec)) : spec.iterable.selective = true := by
  cases (hb.arrives h.arrives).1 with
  | loop iterable_ok _ _ _ => exact iterable_ok

/-- The items of a loop are inert. -/
theorem inert_item (hb : b.Suits Start) (h : e.Works b Start root g Busy Stale id n (.loop spec))
    (hitem : item ∈ (Look.items spec.iterable).result (e.outlook root (g.label id).frame)) :
    item.inert = true :=
  Look.inert_of_mem_items (hb.arrives h.arrives).2 (iterable_selective hb h) hitem

/-- An instance is built for each key. -/
theorem buildKeyed_tends (hb : b.Suits Start) (hre : re.Lays b Start root) (ns : Namespace) :
    ∀ (items : List Value) {e : Engine} {g : Plan} {n : RenderNode}
      {instances : OrderedMap Key Instance} {wanted : OrderedMap Key (Value × Value)},
      e.Tends b Start root g Busy Stale id n spec instances.values (wanted.values.map (·.2)) [] →
      n.children = instances.values.flatMap (·.nodes) → instances.keys = wanted.keys →
      (∀ item ∈ items,
        item ∈ (Look.items spec.iterable).result (e.outlook root (g.label id).frame)) →
      (buildKeyed re spec ⟨id, root, (g.label id).frame, ns⟩ items instances).Yields e
        fun all e' => ∃ g' n', e.Resumes b Start root g Busy Stale id n (.loop spec) e' g' n' ∧
          e'.Tends b Start root g' Busy Stale id n' spec all.values
            ((spec.wantedFrom wanted items).values.map (·.2)) [] ∧
          n'.children = all.values.flatMap (·.nodes) ∧
          all.keys = (spec.wantedFrom wanted items).keys
  | [], e, g, n, instances, wanted, h, hchildren, hkeys, _ =>
    Act.yields_pure ⟨g, n, .refl h.works, h, hchildren, hkeys⟩
  | item :: items, e, g, n, instances, wanted, h, hchildren, hkeys, hitems => by
    have hitem := hitems item List.mem_cons_self
    refine Act.yields_bind_of (loopKey_resumes hb h.works (inert_item hb h.works hitem) ns)
      fun p e₁ hkeyed => ?_
    obtain ⟨rfl, g₁, n₁, hresumes₁, hchildren₁⟩ := hkeyed
    have htends₁ := h.resume hresumes₁.works hresumes₁.evolves hresumes₁.plan (fun _ _ h => h)
      (.of_eq hchildren₁)
    -- instances there are for the same keys as wanted items, so both skip the same items
    have hcontains : instances.contains (spec.keyOf item).1 = wanted.contains (spec.keyOf item).1 := by
      rw [Bool.eq_iff_iff, OrderedMap.contains_iff, OrderedMap.contains_iff, hkeys]
    rw [← hresumes₁.label h.works.live]
    rw [← hresumes₁.sees h.works] at hitem hitems
    have hrest := fun other hother => hitems other (List.mem_cons_of_mem item hother)
    unfold LoopSpec.wantedFrom
    dsimp only
    cases hknown : instances.contains (spec.keyOf item).1 with
    | true =>
      rw [if_pos rfl, if_pos (hcontains.symm.trans hknown)]
      refine (buildKeyed_tends hb hre ns items htends₁ (hchildren₁.trans hchildren) hkeys hrest).imp
        fun all e₂ hall => ?_
      obtain ⟨g₂, n₂, hresumes₂, hall⟩ := hall
      exact ⟨g₂, n₂, hresumes₁.trans hresumes₂, hall⟩
    | false =>
      have hnew : wanted.contains (spec.keyOf item).1 = false := hcontains.symm.trans hknown
      rw [if_neg nofun, if_neg (Bool.eq_false_iff.1 hnew)]
      refine Act.yields_bind (buildInstance_tends hre htends₁ hitem ns _ _)
        (fun _ => buildKeyed_keeps Engine.roomy_stable.closed hre.operates _ _ _ _)
        fun inst e₂ hbuilt => ?_
      obtain ⟨g₂, n₂, hresumes₂, htends₂, hchildren₂, -⟩ := hbuilt
      rw [← hresumes₂.label htends₁.works.live]
      rw [← hresumes₂.sees htends₁.works] at hrest
      have hinsts := OrderedMap.values_insert_of_not_contains hknown inst
      have hvalues := OrderedMap.values_insert_of_not_contains hnew ((spec.keyOf item).2, item)
      have htends₃ : e₂.Tends b Start root g₂ Busy Stale id n₂ spec
          (instances.insert (spec.keyOf item).1 inst).values
          ((wanted.insert (spec.keyOf item).1 ((spec.keyOf item).2, item)).values.map (·.2)) [] := by
        rw [hinsts, hvalues, List.map_append]
        exact htends₂
      have hchildren₃ : n₂.children =
          (instances.insert (spec.keyOf item).1 inst).values.flatMap (·.nodes) := by
        rw [hinsts, List.flatMap_append, List.flatMap_singleton, hchildren₂, hchildren₁, hchildren]
      have hkeys₃ : (instances.insert (spec.keyOf item).1 inst).keys =
          (wanted.insert (spec.keyOf item).1 ((spec.keyOf item).2, item)).keys := by
        rw [OrderedMap.keys_insert, OrderedMap.keys_insert, hkeys]
      refine (buildKeyed_tends hb hre ns items htends₃ hchildren₃ hkeys₃ hrest).imp fun all e₃ hall => ?_
      obtain ⟨g₃, n₃, hresumes₃, hall⟩ := hall
      exact ⟨g₃, n₃, (hresumes₁.trans hresumes₂).trans hresumes₃, hall⟩

/-- An instance is built for each item. -/
theorem buildPlain_tends (hre : re.Lays b Start root) (ns : Namespace) :
    ∀ (items : List Value) (index : Nat) {e : Engine} {g : Plan} {n : RenderNode}
      {insts : List Instance} {before : List Value},
      e.Tends b Start root g Busy Stale id n spec insts before [] →
      n.children = insts.flatMap (·.nodes) →
      (∀ item ∈ items,
        item ∈ (Look.items spec.iterable).result (e.outlook root (g.label id).frame)) →
      (buildPlain re spec ⟨id, root, (g.label id).frame, ns⟩ index items).Yields e
        fun _ e' => ∃ g' n' all, e.Resumes b Start root g Busy Stale id n (.loop spec) e' g' n' ∧
          e'.Tends b Start root g' Busy Stale id n' spec all (before ++ items) [] ∧
          n'.children = all.flatMap (·.nodes)
  | [], _, e, g, n, insts, before, h, hchildren, _ => by
    refine Act.yields_pure ⟨g, n, insts, .refl h.works, ?_, hchildren⟩
    rw [List.append_nil]
    exact h
  | item :: items, index, e, g, n, insts, before, h, hchildren, hitems => by
    refine Act.yields_bind (Act.yields_discard_exists
        (buildInstance_tends hre h (hitems item List.mem_cons_self) ns index none))
      (fun _ => buildPlain_keeps Engine.roomy_stable.closed hre.operates _ _ _ _) fun _ e₁ hbuilt => ?_
    obtain ⟨inst, g₁, n₁, hresumes₁, htends₁, hchildren₁, -⟩ := hbuilt
    rw [← hresumes₁.label h.works.live]
    -- the items arise where the loop is after the first instance as well
    rw [← hresumes₁.sees h.works] at hitems
    rw [hchildren, ← List.flatMap_singleton (·.nodes) inst, ← List.flatMap_append] at hchildren₁
    refine (buildPlain_tends hre ns items _ htends₁ hchildren₁ fun other hother =>
      hitems other (List.mem_cons_of_mem item hother)).imp fun _ e₂ hall => ?_
    obtain ⟨g₂, n₂, all, hresumes₂, htends₂, hall⟩ := hall
    refine ⟨g₂, n₂, all, hresumes₁.trans hresumes₂, ?_, hall⟩
    rw [← List.append_cons] at htends₂
    exact htends₂

/-! ## Whole loops -/

section

variable {data : LoopData}

/-- A loop is built inside its frame. -/
theorem loopParts?_works (h : e.Works b Start root g Busy Stale id n (.loop spec))
    (hkind : n.kind = .loop data) (hspec : data.spec = spec) :
    e.loopParts? id = some (spec, ⟨id, root, (g.label id).frame, e.namespaceAt id⟩) := by
  unfold Engine.loopParts?
  rw [h.node, Option.bind_some, hkind]
  dsimp only
  rw [hspec, h.placed.context, h.placed.frame]

/-- The items of a loop are found. -/
theorem loopItems_learns (hb : b.Suits Start)
    (h : e.Works b Start root g Busy Stale id n (.loop spec)) (hkind : n.kind = .loop data)
    (hspec : data.spec = spec) ⦃r : Except EngineError (List Value)⦄ ⦃e' : Engine⦄
    (hgives : (loopItems re id).Gives e r e') : ∃ items, r = .ok items ∧
      items = (Look.items spec.iterable).result (e'.outlook root (g.label id).frame) ∧
        e.Learns b Start root g Busy Stale id n (.loop spec)
          ((Look.items spec.iterable).reads (e'.outlook root (g.label id).frame)) e' := by
  have hiterable := iterable_selective hb h
  subst hspec
  obtain ⟨rfl, hevaluates, hcovers⟩ := loopItems_gives h.node hkind h.placed.context hiterable
    (hb.arrives h.arrives).2 h.laid.grounded h.outlook_frame hgives
  have hlearns := h.learns hevaluates hcovers
  rw [hlearns.outlook]
  exact ⟨_, rfl, rfl, hlearns⟩

/-- A loop that has an instance for each of its rounds is done. -/
theorem finishes_loop (h : e.Works b Start root g Busy Stale id n (.loop spec))
    (hkind : n.kind = .loop data) (hspec : data.spec = spec)
    (hitems : items = (Look.items spec.iterable).result (e.outlook root (g.label id).frame))
    (hcovers : e.Covers root (g.label id).frame id
      ((Look.items spec.iterable).reads (e.outlook root (g.label id).frame)))
    (hstate : data.state = spec.stateOf items insts)
    (hshowing : data.showingEmpty = (insts.isEmpty && spec.empty.isSome))
    (hrounds : List.Forall₂ (g.Round e id spec) insts ((spec.rounds items).map (·.2)))
    (hframes : (insts.map (·.frame)).Nodup) (hfilled : g.Filled id spec insts n.children) :
    e.Finishes b Start root g Busy Stale id (.loop spec) e g := by
  -- the items that the loop keeps are those that it found
  have harise (v : Value) (hv : v ∈ items) : b.Arises Start v := .item h.arrives (hitems ▸ hv)
  have hstands : g.Stands (b.Arises Start) e (e.outlook root (g.label id).frame) id n (.loop spec)
      (.items items) := .loop hkind hspec harise hstate hshowing hrounds hframes hfilled
  rw [hitems] at hstands
  exact h.finishes hstands hcovers

/-- Whatever was built for the empty case, a loop is finished by keeping what it was built from. -/
theorem keepState_finishes {e₁ : Engine} {g₁ : Plan} {n₁ : RenderNode} {f : RenderKind → RenderKind}
    (h : e.Works b Start root g Busy Stale id n (.loop spec)) (hkind : n.kind = .loop data)
    (hspec : data.spec = spec)
    (hitems : items = (Look.items spec.iterable).result (e.outlook root (g.label id).frame))
    (hcovers : e.Covers root (g.label id).frame id
      ((Look.items spec.iterable).reads (e.outlook root (g.label id).frame)))
    (hresumes : e.Resumes b Start root g Busy Stale id n (.loop spec) e₁ g₁ n₁)
    (hrounds : List.Forall₂ (g₁.Round e₁ id spec) insts ((spec.rounds items).map (·.2)))
    (hframes : (insts.map (·.frame)).Nodup) (hfilled : g₁.Filled id spec insts n₁.children)
    (hf : f (.loop data) = .loop { data with
      state := spec.stateOf items insts, showingEmpty := insts.isEmpty && spec.empty.isSome }) :
    (Act.change (·.modifyKind id f)).Yields e₁ fun _ e' =>
      ∃ g', e.Finishes b Start root g Busy Stale id (.loop spec) e' g' := by
  have hworks := hresumes.works
  rw [← hresumes.kind.trans hkind] at hf
  obtain ⟨hworks₂, hevolves⟩ := hworks.modifyKind (f := f) (by rw [hf]; rfl)
  have hout := (hworks.outlook hworks₂.laid hevolves).trans (hresumes.sees h)
  refine Act.yields_change ⟨g₁, hresumes.finishes (.after (finishes_loop hworks₂ hf hspec ?_ ?_ rfl rfl
    ?_ hframes hfilled) hevolves (.refl g₁ e₁))⟩
  · rw [hout]
    exact hitems
  · rw [hout]
    exact hworks.covers hworks₂ hevolves (hresumes.covers h hcovers)
  · exact hrounds.imp fun _ _ hround => ⟨hround.home, hround.binds, hround.row⟩

/-- A loop is finished when it has an instance for each of its rounds. -/
theorem finishLoop_finishes (hre : re.Lays b Start root)
    (h : e.Tends b Start root g Busy Stale id n spec insts ((spec.rounds items).map (·.2)) [])
    (hkind : n.kind = .loop data) (hspec : data.spec = spec)
    (hitems : items = (Look.items spec.iterable).result (e.outlook root (g.label id).frame))
    (hchildren : n.children = insts.flatMap (·.nodes))
    (hcovers : e.Covers root (g.label id).frame id
      ((Look.items spec.iterable).reads (e.outlook root (g.label id).frame))) (ns : Namespace) :
    (finishLoop re id spec ⟨id, root, (g.label id).frame, ns⟩ (spec.stateOf items insts)).Yields e
      fun _ e' => ∃ g', e.Finishes b Start root g Busy Stale id (.loop spec) e' g' := by
  have hlength : insts.length = (spec.rounds items).length := by
    rw [h.rounds.length_eq, List.length_map]
  have hframes : (insts.map (·.frame)).Nodup := by
    have hframes := h.frames
    rwa [List.append_nil] at hframes
  unfold finishLoop
  rw [spec.isEmpty_stateOf hlength]
  cases insts with
  | cons inst insts =>
    rw [List.isEmpty_cons, if_neg nofun]
    exact keepState_finishes h.works hkind hspec hitems hcovers (.refl h.works) h.rounds hframes
      ((if_neg nofun).mpr hchildren) rfl
  | nil =>
    -- without instances there were no items, and the empty case is built if there is one
    have hnone : items = [] := spec.rounds_eq_nil (List.length_eq_zero_iff.1 hlength.symm)
    have hrounds {e₁ : Engine} {g₁ : Plan} :
        List.Forall₂ (g₁.Round e₁ id spec) [] ((spec.rounds items).map (·.2)) := by
      rw [hnone, spec.rounds_nil]
      exact .nil
    cases hempty : spec.empty with
    | none =>
      refine keepState_finishes h.works hkind hspec hitems hcovers (.refl h.works) hrounds hframes ?_
        (by rw [hempty])
      unfold Plan.Filled Plan.Row LoopSpec.emptySteps
      rw [if_pos rfl, hempty, hchildren]
      rfl
    | some body =>
      have hsteps : spec.emptySteps = body.steps := by
        unfold LoopSpec.emptySteps
        rw [hempty]
        rfl
      have hbuild := hre.build (h.works.admits (.inl rfl) ns fun s hs => .empty (s := s) h.works.arrives
        (hitems.symm.trans hnone) (hsteps ▸ hs))
      refine Act.yields_bind hbuild (fun _ => Act.keeps_change fun e he => ?_) fun _ e₁ hbuilt => ?_
      · refine Engine.roomy_stable.closed.modifyKind (fun n _ => ?_) he
        cases n.kind <;> exact ⟨rfl, rfl, fun h => h⟩
      · obtain ⟨g₁, ids, hbuilt⟩ := hbuilt
        obtain ⟨n₁, hresumes, hchildren₁⟩ := h.works.builds rfl hbuilt
        refine keepState_finishes h.works hkind hspec hitems hcovers hresumes hrounds hframes ?_
          (by rw [hempty])
        unfold Plan.Filled
        rw [if_pos rfl, hchildren₁, hchildren, hsteps, hbuilt.adds.plan.label (.inl h.works.live)]
        exact hbuilt.row

/-- A loop is filled from its items. -/
theorem fillLoop_finishes (hb : b.Suits Start) (hre : re.Lays b Start root)
    (h : e.Works b Start root g Busy Stale id n (.loop spec)) (hkind : n.kind = .loop data)
    (hspec : data.spec = spec) (hchildren : n.children = [])
    (hitems : items = (Look.items spec.iterable).result (e.outlook root (g.label id).frame))
    (hcovers : e.Covers root (g.label id).frame id
      ((Look.items spec.iterable).reads (e.outlook root (g.label id).frame))) :
    (fillLoop re id items).Yields e fun _ e' =>
      ∃ g', e.Finishes b Start root g Busy Stale id (.loop spec) e' g' := by
  have hempty : e.Tends b Start root g Busy Stale id n spec [] [] [] :=
    ⟨h, .nil, fun _ hinst => absurd hinst List.not_mem_nil, List.nodup_nil, by rw [hchildren]; rfl⟩
  have hfound (item : Value) (hitem : item ∈ items) :
      item ∈ (Look.items spec.iterable).result (e.outlook root (g.label id).frame) := hitems ▸ hitem
  -- when all instances are there, what is seen from the loop is what was seen
  have hclose {e₁ : Engine} {g₁ : Plan} {n₁ : RenderNode} {insts : List Instance}
      (hresumes : e.Resumes b Start root g Busy Stale id n (.loop spec) e₁ g₁ n₁)
      (htends : e₁.Tends b Start root g₁ Busy Stale id n₁ spec insts ((spec.rounds items).map (·.2)) [])
      (hchildren₁ : n₁.children = insts.flatMap (·.nodes)) :
      (finishLoop re id spec ⟨id, root, (g.label id).frame, e.namespaceAt id⟩
        (spec.stateOf items insts)).Yields e₁ fun _ e' =>
          ∃ g', e.Finishes b Start root g Busy Stale id (.loop spec) e' g' := by
    have hcovers := hresumes.covers h hcovers
    rw [← hresumes.sees h] at hitems hcovers
    rw [← hresumes.label h.live]
    exact (finishLoop_finishes hre htends (hresumes.kind.trans hkind) hspec hitems hchildren₁ hcovers
      _).imp fun _ e₂ ⟨g₂, hdone⟩ => ⟨g₂, hresumes.finishes hdone⟩
  refine Act.yields_read_bind.2 ?_
  rw [loopParts?_works h hkind hspec]
  dsimp only
  cases hidentity : spec.identity.isSome with
  | true =>
    rw [if_pos rfl]
    have hempty : e.Tends b Start root g Busy Stale id n spec
        (OrderedMap.empty : OrderedMap Key Instance).values
        ((OrderedMap.empty : OrderedMap Key (Value × Value)).values.map (·.2)) [] := hempty
    refine Act.yields_bind (buildKeyed_tends hb hre _ items hempty hchildren rfl hfound)
      (fun _ => finishLoop_keeps Engine.roomy_stable.closed hre.operates _ _ _ _) fun all e₁ hall => ?_
    obtain ⟨g₁, n₁, hresumes, htends, hchildren₁, hkeys⟩ := hall
    rw [← spec.stateOf_keyed hidentity hkeys]
    refine hclose hresumes ?_ hchildren₁
    rw [spec.items_rounds hidentity]
    exact htends
  | false =>
    rw [if_neg nofun]
    refine Act.yields_bind (buildPlain_tends hre _ items 0 hempty hchildren hfound)
      (fun _ => finishLoop_keeps Engine.roomy_stable.closed hre.operates _ _ _ _) fun _ e₁ hall => ?_
    obtain ⟨g₁, n₁, all, hresumes, htends, hchildren₁⟩ := hall
    rw [← spec.stateOf_plain hidentity items all]
    refine hclose hresumes ?_ hchildren₁
    rw [spec.items_rounds_plain hidentity]
    exact htends

/-- A loop is built. -/
theorem buildLoop_yields (hb : b.Suits Start) (hre : re.Lays b Start root)
    (h : e.Admits b Start root g Busy Stale c (.loop spec :: steps)) :
    (buildLoop re spec c).Yields e fun _ e' =>
      ∃ g' ids, e.Built b Start root g Busy Stale c [.loop spec] e' g' ids := by
  refine Act.yields_bind (h.alloc_yields _ rfl) (fun id => ?_) fun id e₁ hnew => ?_
  · exact Act.keeps_bind (loopItems_keeps Engine.roomy_stable.evaluation.tracking
      (hre.operates.enters Engine.roomy_stable.closed) trivial) fun _ =>
        fillLoop_keeps Engine.roomy_stable.closed hre.operates _ _
  · obtain ⟨g₁, n, hopens, hworks, hkind, hchildren⟩ := hnew
    refine Act.yields_bind_of (loopItems_learns hb hworks hkind rfl) fun items e₂ hlearns => ?_
    obtain ⟨hitems, hlearns⟩ := hlearns
    obtain ⟨n₂, hworks₂, hchildren₂, hkind₂⟩ := hlearns.node
    refine (fillLoop_finishes hb hre hworks₂ (hkind₂.trans hkind) rfl (hchildren₂.trans hchildren)
      hitems hlearns.covers).imp fun _ e₃ hdone => ?_
    obtain ⟨g₃, hdone⟩ := hdone
    exact ⟨g₃, [id], hopens.built h.live (hdone.after hlearns.evolves (.refl _ _))⟩

end

/-! ## Bodies -/

/-- A step is built where it has arrived. -/
theorem runStep_yields {s : Step} (hb : b.Suits Start) (hre : re.Lays b Start root)
    (h : e.Admits b Start root g Busy Stale c (s :: steps)) :
    (runStep re c s).Yields e fun c' e' =>
      c' = c ∧ ∃ g' ids, e.Built b Start root g Busy Stale c [s] e' g' ids := by
  have hreturns {x : Act Unit} {P : Engine → Prop} (hx : x.Yields e fun _ e' => P e') :
      Act.Yields (do x; return c) e fun c' e' => c' = c ∧ P e' :=
    Act.yields_bind hx (fun _ => Act.keeps_pure _) fun _ _ hp => Act.yields_pure ⟨rfl, hp⟩
  cases (hb.arrives (h.arrives s List.mem_cons_self)).1 with
  | text => exact hreturns (buildText_yields hb hre.operates h)
  | leaf | element => exact hreturns (buildElement_yields hb hre h)
  | choice => exact hreturns (buildChoice_yields hb hre h)
  | loop => exact hreturns (buildLoop_yields hb hre h)
  | set => exact hreturns (buildSet_yields hb hre h)

/-- Steps are built in a row. -/
theorem foldlM_runStep_yields (hb : b.Suits Start) (hre : re.Lays b Start root) :
    ∀ (steps : List Step) {e : Engine} {g : Plan}, e.Admits b Start root g Busy Stale c steps →
      (steps.foldlM (runStep re) c).Yields e fun _ e' =>
        ∃ g' ids, e.Built b Start root g Busy Stale c steps e' g' ids
  | [], e, g, h => Act.yields_pure ⟨g, [], h.laid, .refl h.laid.valid g c.parent, rfl⟩
  | s :: steps, e, g, h => by
    rw [List.foldlM_cons]
    refine Act.yields_bind (runStep_yields hb hre h) (fun _ => ?_) fun c' e₁ hbuilt => ?_
    · exact Act.keeps_foldlM (fun _ _ _ => runStep_keeps Engine.roomy_stable.closed hre.operates _ _) _
    · obtain ⟨hsame, g₁, ids₁, hbuilt⟩ := hbuilt
      rw [hsame]
      refine (foldlM_runStep_yields hb hre steps (h.next hbuilt)).imp fun _ e₂ hrest => ?_
      obtain ⟨g₂, ids₂, hrest⟩ := hrest
      exact ⟨g₂, _, hbuilt.append h.live hrest⟩

/-- A body is built where its steps have arrived. -/
theorem buildBody_yields (hb : b.Suits Start) (hre : re.Lays b Start root) {body : Body}
    (h : e.Admits b Start root g Busy Stale c body.steps) :
    (buildBody re body c).Yields e fun _ e' =>
      ∃ g' ids, e.Built b Start root g Busy Stale c body.steps e' g' ids :=
  Act.yields_discard (foldlM_runStep_yields hb hre _ h)

end Render

/-- Bodies are built at any depth. -/
theorem Reentry.within_lays {b : Body} {Start : Outlook → Prop} (hb : b.Suits Start)
    (root : NodeId) (depth : Nat) : (Reentry.within depth).Lays b Start root := by
  induction depth with
  | zero => exact ⟨within_operates 0, fun _ _ _ _ _ _ _ _ _ hgives => by cases hgives⟩
  | succ depth ih => exact ⟨within_operates _, fun _ _ _ _ _ _ h => Render.buildBody_yields hb ih h⟩

end ReactiveView
