import ReactiveView.Proofs.Structure.Sessions
import ReactiveView.Render.Outline

/-!
# The rendered tree is well-formed

The rendered tree as the functions of the engine see it (`Engine.WellFormed`): a single tree below
the root, in which every node is among the children of its parent once, and in which the contexts
that a node refers to are above it, so that walks along parents and callers end at the root.

Whatever a host does, after operations that have all succeeded the tree is well-formed
(`Engine.Runs.wellFormed`). The two limits are that code may not enter the engine from inside, which
could pull a node away from under the operation that is building it, and that the slots suffice.
-/

namespace ReactiveView

/-! ## Empty arenas -/

/-- An arena in which nothing is found is empty. -/
theorem Arena.isEmpty_of_get?_eq_none {α : Type} {a : Arena α} (h : a.Valid) (hroom : a.Roomy)
    (hnone : ∀ id, a.get? id = none) : a.isEmpty = true := by
  have hcount : a.slots.toList.countP (·.value.isSome) = 0 := by
    refine List.countP_eq_zero.2 fun s hs hsome => ?_
    obtain ⟨i, hi, hs⟩ := List.getElem_of_mem hs
    obtain ⟨v, hv⟩ := Option.isSome_iff_exists.1 hsome
    rw [Array.length_toList] at hi
    have hindex : i.toUInt32.toNat = i := UInt32.toNat_ofNat_of_lt' (Nat.lt_trans hi hroom)
    have hfound : a.get? ⟨i.toUInt32, s.generation⟩ = some v := by
      rw [get?_eq_some, hindex, Array.getElem?_eq_getElem hi, ← Array.getElem_toList, hs, ← hv]
    rw [hnone] at hfound
    cases hfound
  unfold isEmpty
  rw [h.size_eq, hcount]
  rfl

/-! ## Walks to the root -/

namespace Forest

variable {V : Forest} {r a x : NodeId} {k : Nat}

/-- An ancestor is nearer to the root. -/
theorem Tree.steps_of_above (ht : V.Tree r) (h : V.Steps r k x) (ha : V.Above a x) :
    ∃ j < k, V.Steps r j a := by
  induction h with
  | zero _ => exact (ht.not_above_root ha).elim
  | succ h hp ih =>
    rcases (above_iff_of_parent hp).1 ha with rfl | ha
    · exact ⟨_, Nat.lt_succ_self _, h⟩
    · obtain ⟨j, hj, hsteps⟩ := ih ha
      exact ⟨j, Nat.lt_succ_of_lt hj, hsteps⟩

end Forest

namespace Engine

variable {e : Engine} {r x ctx : NodeId} {k : Nat}

/-- The walk along the parents of a node ends at the root. -/
theorem getLast?_ancestorsIn (ht : e.shape.Tree r) (k : Nat) : ∀ {length x},
    e.shape.Steps r (k + 1) x → k < length → (e.ancestorsIn length x).getLast? = some r := by
  induction k with
  | zero =>
    intro length x h hlt
    obtain _ | ⟨h, m', hm', hp⟩ := h
    obtain _ | _ := h
    rename_i hr
    obtain ⟨m, hm, rfl⟩ := node?_of_shape hm'
    obtain ⟨root, hroot, rfl⟩ := node?_of_shape hr
    obtain ⟨length, rfl⟩ := Nat.exists_eq_succ_of_ne_zero (Nat.ne_of_gt hlt)
    -- the root has no parent, so the walk stops there
    have hstop : e.ancestorsIn length r = [] := by
      have hparent : root.parent = none := (ht.root _ (shape_of_node? hroot)).1
      cases length with
      | zero => rfl
      | succ length =>
        unfold ancestorsIn
        rw [hroot, Option.bind_some, hparent]
    unfold ancestorsIn
    rw [hm, Option.bind_some, show m.parent = some r from hp]
    dsimp only
    rw [hstop]
    rfl
  | succ k ih =>
    intro length x h hlt
    obtain _ | ⟨h, m', hm', hp⟩ := h
    rename_i p
    obtain ⟨m, hm, rfl⟩ := node?_of_shape hm'
    obtain ⟨length, rfl⟩ := Nat.exists_eq_succ_of_ne_zero (Nat.ne_of_gt (Nat.zero_lt_of_lt hlt))
    have hrest := ih h (Nat.lt_of_succ_lt_succ hlt)
    unfold ancestorsIn
    rw [hm, Option.bind_some, show m.parent = some p from hp]
    dsimp only
    rw [List.getLast?_cons, hrest]
    rfl

/-- The walk along the callers of a component instance ends at the root. -/
theorem getLast?_callersIn (ht : e.shape.Tree r) (length : Nat) : ∀ {k ctx},
    e.shape.Steps r k ctx → k < length → (e.callersIn length ctx).getLast? = some r := by
  induction length with
  | zero => exact fun _ hlt => (Nat.not_lt_zero _ hlt).elim
  | succ length ih =>
    intro k ctx h hlt
    obtain ⟨n, hn⟩ : ∃ n, e.shape ctx = some n := by
      cases h with
      | zero hn => exact ⟨_, hn⟩
      | succ _ hp => exact ⟨_, hp.choose_spec.1⟩
    obtain ⟨m, hm, rfl⟩ := node?_of_shape hn
    unfold callersIn
    rw [hm]
    dsimp only
    by_cases hroot : ctx = r
    · have hself : m.shape.context = r := by
        rw [hroot] at hn
        have hrefs := (ht.root _ hn).2.2
        unfold RenderNode.contexts at hrefs
        rw [List.cons_append, List.cons.injEq] at hrefs
        exact hrefs.1
      rw [if_pos (show m.context = ctx from hself.trans hroot.symm), hroot]
      rfl
    · obtain ⟨ha, -⟩ := ht.contexts ctx _ hn hroot m.context List.mem_cons_self
      have hne : m.context ≠ ctx := fun heq => ht.above_irrefl (heq ▸ ha)
      obtain ⟨j, hj, hsteps⟩ := ht.steps_of_above h ha
      rw [if_neg hne, List.getLast?_cons, ih hsteps (by omega)]
      rfl

/-! ## Well-formed trees -/

/-- The nodes of an engine are a single tree below its root, with contexts above what refers to
them. -/
structure WellFormed (e : Engine) : Prop where
  /-- Without a root there is no node. -/
  vacant : e.root = none → e.nodes.isEmpty = true
  /-- The root is a component instance without a parent that owns itself. -/
  root : ∀ r, e.root = some r → ∃ n, e.node? r = some n ∧ n.isContext = true ∧ n.parent = none ∧
    n.context = r
  /-- Every other node is among the children of its parent once, and among those of no other node. -/
  parent : ∀ id n, e.node? id = some n → e.root ≠ some id → ∃ p np, n.parent = some p ∧
    e.node? p = some np ∧ np.children.count id = 1 ∧
      ∀ q nq, e.node? q = some nq → id ∈ nq.children → q = p
  /-- Children are there. -/
  children : ∀ id n, e.node? id = some n → ∀ c ∈ n.children, e.contains c = true
  /-- Following the parents of a node leads to the root. -/
  reaches : ∀ id, e.contains id = true → e.root ≠ some id → (e.ancestors id).getLast? = e.root
  /-- What owns a node is a component instance above it. -/
  context : ∀ id n, e.node? id = some n → e.root ≠ some id → n.context ∈ e.ancestors id ∧
    (e.context? n.context).isSome = true
  /-- Variables are shared with a component instance above that has variables of its own. -/
  shared : ∀ id data s, e.context? id = some data → data.sharedWith = some s →
    s ∈ e.ancestors id ∧ ∃ owner, e.context? s = some owner ∧ owner.sharedWith = none
  /-- Following the callers of a component instance leads to the root. -/
  callers : ∀ ctx, (e.context? ctx).isSome = true → (e.callers ctx).getLast? = e.root

/-- What a component instance shares its variables with is above it, and has variables of its own. -/
theorem RootedAt.shared (h : e.RootedAt r) {id s : NodeId} {data : ContextData}
    (hdata : e.context? id = some data) (hs : data.sharedWith = some s) :
    s ∈ e.ancestors id ∧ ∃ owner, e.context? s = some owner ∧ owner.sharedWith = none := by
  have ht := h.tree
  obtain ⟨n, hn, hkind⟩ := view_of_context? hdata
  have hs : data.skeleton.sharedWith = some s := hs
  have hmem : s ∈ n.contexts := n.mem_contexts_of_shared hkind hs
  obtain ⟨m, shared, hm, hshared, hown⟩ := ht.owns id n _ s hn hkind hs
  -- the root refers to itself only, so that it shares with no one
  have hid : id ≠ r := by
    rintro rfl
    have hrefs := (ht.root n hn).2.2
    unfold RenderNode.contexts at hrefs
    rw [hkind, Option.bind_some, hs] at hrefs
    cases hrefs
  obtain ⟨ha, m', hm', hctx⟩ := ht.contexts id n hn hid s hmem
  obtain ⟨owner, howner, howner'⟩ := context?_of_view hm' hctx
  obtain rfl : m = m' := Option.some.inj (hm.symm.trans hm')
  obtain rfl : shared = owner.skeleton := Option.some.inj (hshared.symm.trans howner')
  exact ⟨(mem_ancestors h.valid ht).2 ha, owner, howner, hown⟩

/-- A tree below the root of an engine is well-formed. -/
theorem WellFormed.of_rootedAt (h : e.RootedAt r) (hroom : e.nodes.Roomy) : e.WellFormed := by
  have ht := h.tree
  -- a node other than the root of the engine is not the root of the tree
  have hne {id : NodeId} (hid : e.contains id = true) (hroot : e.root ≠ some id) : id ≠ r := by
    rintro rfl
    exact hroot (h.root_of_live hid)
  have hlive {id : NodeId} {n : RenderNode} (hn : e.node? id = some n) : e.contains id = true :=
    contains_iff_shape.2 ⟨_, shape_of_node? hn⟩
  have hbound {a x : NodeId} {k : Nat} (hk : e.shape.Steps a k x) : k < e.chainBound :=
    Nat.lt_succ_of_lt (AgreesUnder.lt_size (fun _ _ => rfl) h.valid ht hk)
  refine ⟨?vacant, ?root, ?parent, ?children, ?reaches, ?context, fun _ _ _ => h.shared, ?callers⟩
  case vacant =>
    intro hroot
    exact Arena.isEmpty_of_get?_eq_none h.valid hroom fun id =>
      node?_eq_none.2 (h.vacant hroot id)
  case root =>
    intro ρ hroot
    obtain ⟨rfl, hr⟩ := h.eq_of_root hroot
    obtain ⟨n, hn⟩ := contains_iff_shape.1 hr
    obtain ⟨m, hm, rfl⟩ := node?_of_shape hn
    obtain ⟨hparent, hctx, hrefs⟩ := ht.root _ hn
    unfold RenderNode.contexts at hrefs
    rw [List.cons_append, List.cons.injEq] at hrefs
    exact ⟨m, hm, m.isContext_shape.symm.trans hctx, hparent, hrefs.1⟩
  case parent =>
    intro id n hn hroot
    have hn' := shape_of_node? hn
    obtain ⟨p, np, hp, hnp, hmem⟩ := ht.parent id _ hn' (hne (hlive hn) hroot)
    obtain ⟨mp, hmp, rfl⟩ := node?_of_shape hnp
    refine ⟨p, mp, hp, hmp, List.count_eq_one_of_mem (ht.nodup p mp.shape hnp) hmem, fun q nq hnq hq => ?_⟩
    exact (ht.child q _ id (shape_of_node? hnq) hq).unique ⟨_, hn', hp⟩
  case children =>
    intro id n hn c hc
    exact contains_iff_shape.2 ⟨_, (ht.child id _ c (shape_of_node? hn) hc).choose_spec.1⟩
  case reaches =>
    intro id hid hroot
    obtain ⟨n, hn⟩ := contains_iff_shape.1 hid
    obtain ⟨k, hk⟩ := ht.steps (ht.root_above hn (hne hid hroot))
    rw [h.root_of_live hid]
    exact getLast?_ancestorsIn ht k hk (Nat.lt_of_succ_lt (hbound hk))
  case context =>
    intro id n hn hroot
    obtain ⟨ha, c, hc, hctx⟩ := ht.contexts id _ (shape_of_node? hn) (hne (hlive hn) hroot) n.context
      List.mem_cons_self
    obtain ⟨data, hdata, -⟩ := context?_of_view hc hctx
    exact ⟨(mem_ancestors h.valid ht).2 ha, by rw [hdata]; rfl⟩
  case callers =>
    intro ctx hctx
    obtain ⟨data, hdata⟩ := Option.isSome_iff_exists.1 hctx
    obtain ⟨n, hn, -⟩ := view_of_context? hdata
    have hid := contains_iff_shape.2 ⟨n, hn⟩
    obtain ⟨k, hk⟩ : ∃ k, e.shape.Steps r k ctx := by
      by_cases hroot : ctx = r
      · exact ⟨0, hroot ▸ .zero hn⟩
      · exact ⟨_, (ht.steps (ht.root_above hn hroot)).choose_spec⟩
    rw [h.root_of_live hid]
    exact getLast?_callersIn ht _ hk (hbound hk)

/-- After every operation of a run in which all operations have succeeded and code has entered none
of them from inside, the rendered tree is well-formed. -/
theorem Runs.wellFormed {host : Host} {ops : List Operation}
    {rs : List (Except EngineError Outcome)} {e : Engine} (hrun : host.start.Runs ops rs e)
    (hops : ∀ op ∈ ops, op.builds = false) (hok : ∀ r ∈ rs, ∃ outcome, r = .ok outcome)
    (hentries : e.entries = 0) (hroom : e.nodes.Roomy) : e.WellFormed := by
  obtain ⟨r, hr⟩ := hrun.rooted hops hok ⟨hentries, hroom⟩ host.rooted_start
  exact .of_rootedAt hr hroom

/-- A loop with identities is reordered inside of a component that shares the variables of its caller.
-/
theorem Runs.wellFormed_list :
    let host : Host :=
      { library :=
        { registry :=
          { sources := .ofList
              [("Main", "<List consume>\x7b\x7b!#for x in xs # x\x7d\x7d<b>{{!x}}</b>{{!/for}}</List>"),
                ("List", "<ul><slot>none</slot></ul>")] } } }
    let ops : List Operation :=
      [.mount "Main" (.ofList [("xs", .list [.int 1, .int 2])]),
        .setVar ⟨0, 0⟩ "xs" (.list [.int 3, .int 1])]
    let shown := "[Main]\n  [List]\n    <ul>\n      #for\n        <b> \"3\"\n        <b> \"1\"\n"
    ∃ rs e, host.start.Runs ops rs e ∧ e.WellFormed ∧ e.outline ⟨0, 0⟩ = shown := by
  intro host ops shown
  have hsome : (host.start.runAt 9 ops).isSome = true := by decide +kernel
  have hgood : (host.start.runAt 9 ops).all (fun p => p.1.all (·.isOk) &&
      (p.2.entries == 0 && p.2.nodes.slots.size < UInt32.size)) = true := by
    decide +kernel
  have hshown : (host.start.runAt 9 ops).map (fun p => p.2.outline ⟨0, 0⟩) = some shown := by
    decide +kernel
  obtain ⟨⟨rs, e⟩, hrun⟩ := Option.isSome_iff_exists.1 hsome
  rw [hrun, Option.all_some, Bool.and_eq_true, Bool.and_eq_true, List.all_eq_true] at hgood
  rw [hrun, Option.map_some, Option.some.injEq] at hshown
  obtain ⟨hok, hentries, hroom⟩ := hgood
  have hroom : e.nodes.slots.size < UInt32.size := of_decide_eq_true hroom
  refine ⟨rs, e, runs_of_runAt hrun, ?_, hshown⟩
  refine Runs.wellFormed (runs_of_runAt hrun) (fun op hop => ?_) (fun r hr => ?_)
    (beq_iff_eq.1 hentries) hroom
  · simp only [ops, List.mem_cons, List.not_mem_nil, or_false] at hop
    rcases hop with rfl | rfl
    · rfl
    · rfl
  · have hr := hok r hr
    cases r with
    | ok outcome => exact ⟨outcome, rfl⟩
    | error err => cases hr

end Engine
end ReactiveView
