import ReactiveView.Proofs.Selective.Reconciling

/-!
# Following writes up

A write of a variable of the root changes what is seen from everywhere. As all nodes cover what they
have read, only the readers of the variable are stale then (`Laid.rescoped`). They are updated in the
order of their distance from the root: when it is the turn of a reader, no ancestor of it is stale, so
that its step has arrived where it is (`Laid.arrives`), and what is under it is updated with it or
later in its own turn (`Render.updateLive_updates`). No update writes a variable, and one round is
enough (`Engine.setVar_yields`).
-/

namespace ReactiveView

/-- Writing a variable changes no other one. -/
theorem Scope.get?_write?_of_ne {scope scope' : Scope} {name x : String} {v : Value}
    (h : scope.write? name v = some scope') (hx : x ≠ name) : scope'.get? x = scope.get? x := by
  have hwrite := get?_write_of_ne scope hx v
  unfold write at hwrite
  rwa [h] at hwrite

namespace Engine

variable {e e' e₁ e₂ : Engine} {g g' : Plan} {root x c : NodeId} {b : Body} {Start : Outlook → Prop}
  {Busy Stale : NodeId → Prop} {name : String} {v : Value}

/-! ## Where nodes are -/

namespace Laid

/-- A step has arrived if no node above it is stale. -/
theorem arrives (h : e.Laid b Start root g Busy Stale) (hb : b.Suits Start) (hx : e.contains x = true)
    (hroot : x ≠ root) (hclean : ∀ p ∈ (g.label x).path, ¬Busy p ∧ ¬Stale p) :
    b.Arrives Start (g.label x).step (e.outlook root (g.label x).frame) := by
  refine h.induct (P := fun x => x ≠ root → (∀ p ∈ (g.label x).path, ¬Busy p ∧ ¬Stale p) →
    b.Arrives Start (g.label x).step (e.outlook root (g.label x).frame)) ?_ ?_ hx hroot hclean
  · exact fun hroot => absurd rfl hroot
  · intro x n p np hn _ hp hnp hmem ih _ hclean
    rw [h.path hn hp] at hclean
    obtain ⟨hbusy, hstale⟩ := hclean p List.mem_cons_self
    exact h.arrives_child hb hnp hbusy hstale
      (fun hroot => ih hroot fun q hq => hclean q (List.mem_cons_of_mem p hq)) hmem

/-- The ancestors of a node are different from each other. -/
theorem nodup_path (h : e.Laid b Start root g Busy Stale) (hx : e.contains x = true) :
    (g.label x).path.Nodup := by
  refine h.induct (P := fun x => (g.label x).path.Nodup) ?_ ?_ hx
  · rw [h.top]
    exact List.nodup_nil
  · intro x n p np hn _ hp hnp _ ih
    rw [h.path hn hp]
    exact List.nodup_cons.2 ⟨h.not_mem_path (contains_iff.2 ⟨np, hnp⟩), ih⟩

/-- The ancestors of a node are those of its label. -/
theorem ancestors (h : e.Laid b Start root g Busy Stale) (hx : e.contains x = true) :
    e.ancestors x = (g.label x).path := by
  -- a walk up that is long enough reaches the root
  have hall : ∀ length, (g.label x).path.length ≤ length →
      e.ancestorsIn (length + 1) x = (g.label x).path := by
    refine h.induct (P := fun x => ∀ length, (g.label x).path.length ≤ length →
      e.ancestorsIn (length + 1) x = (g.label x).path) ?_ ?_ hx
    · intro length _
      obtain ⟨n, hn⟩ := contains_iff.1 h.live_root
      have hparent : n.parent = none := (h.tree.root _ (shape_of_node? hn)).1
      unfold ancestorsIn
      rw [hn, Option.bind_some, hparent, h.top]
    · intro x n p np hn _ hp _ _ ih length hlength
      rw [h.path hn hp, List.length_cons] at hlength
      obtain ⟨length, rfl⟩ : ∃ k, length = k + 1 := ⟨length - 1, by omega⟩
      unfold ancestorsIn
      rw [hn, Option.bind_some, hp, h.path hn hp]
      exact congrArg (p :: ·) (ih length (Nat.le_of_succ_le_succ hlength))
  -- no ancestor comes twice, so there are not more of them than nodes
  refine hall e.nodes.size (Arena.length_le_size _ h.valid (h.nodup_path hx) fun p hp => ?_)
  exact Option.isSome_iff_exists.1 (h.path_suffix hx hp).1

end Laid

/-! ## Writes -/

/-- Nothing was changed but a variable of the root, and what is queued. -/
structure Rescoped (e : Engine) (root : NodeId) (name : String) (e' : Engine) : Prop where
  /-- Other nodes. -/
  node : ∀ ⦃x⦄, x ≠ root → e'.node? x = e.node? x
  /-- The shape of the tree. -/
  shape : e'.shape = e.shape
  /-- The arena. -/
  valid : e'.nodes.Valid
  /-- Identities that were given away. -/
  known : ∀ ⦃x⦄, e.Known x → e'.Known x
  /-- What was read. -/
  reads : ∀ ⦃k x⦄, e'.Reads root k x ↔ e.Reads root k x
  /-- Other variables. -/
  vars : ∀ ⦃x⦄, x ≠ name → (e'.scopeOf root).bind (·.get? x) = (e.scopeOf root).bind (·.get? x)
  /-- The name of the component. -/
  component : e'.contextName root = e.contextName root
  /-- The frames. -/
  frames : e'.frames = e.frames
  /-- What the host has set up otherwise. -/
  setup : { e'.setup with pending := .empty } = { e.setup with pending := .empty }

namespace Rescoped

/-- The host has set up the same, apart from what is queued. -/
theorem setup_eq (h : e.Rescoped root name e') {α : Type} (f : Setup → α)
    (hf : ∀ s, f { s with pending := .empty } = f s) : f e'.setup = f e.setup := by
  rw [← hf, h.setup, hf]

/-- When nothing is queued, the host has set up the same. -/
theorem setup_of_idle (h : e.Rescoped root name e') (hidle : e.pending = .empty)
    (hidle' : e'.pending = .empty) : e'.setup = e.setup := by
  have hbare {s : Setup} (hidle : s.pending = .empty) : { s with pending := .empty } = s := by
    rw [← hidle]
  exact (hbare (s := e'.setup) hidle').symm.trans (h.setup.trans (hbare (s := e.setup) hidle))

/-- The nodes of before are there. -/
theorem contains_iff (h : e.Rescoped root name e') : e'.contains x = true ↔ e.contains x = true := by
  rw [contains_iff_shape, contains_iff_shape, h.shape]

/-- What is seen agrees but on the variable. -/
theorem agrees (h : e.Rescoped root name e') {frame : Option FrameId} {names : List String}
    (hnames : ∀ y ∈ names, e.frames.lookup? frame y = none → y ≠ name) :
    (e.outlook root frame).Agrees (e'.outlook root frame) names where
  vars y hy := by
    change e.vars root frame y = e'.vars root frame y
    unfold Engine.vars
    rw [h.frames]
    split
    · rfl
    · cases hfound : e.frames.lookup? frame y with
      | some v => rfl
      | none => rw [h.vars (hnames y hy hfound)]
  translator := h.setup_eq (·.translator) fun _ => rfl
  assets := h.setup_eq (·.assets) fun _ => rfl
  component := h.component

end Rescoped

/-- The root stands for the body, whatever its variables are. -/
theorem Laid.settled_root {n' : RenderNode} {stale : Prop}
    (h : e.Laid b Start root g (fun _ => False) (fun _ => False)) (he : e.Rescoped root name e')
    (hn' : e'.node? root = some n') : e'.Settled b Start root g stale root n' := by
  obtain ⟨n, hn⟩ := contains_iff.1 h.live_root
  obtain ⟨sight, hstands, -⟩ := h.settled hn id
  have hkids : n'.children = n.children := by
    have hshape := congrFun he.shape root
    rw [shape_of_node? hn, shape_of_node? hn', Option.some.injEq] at hshape
    exact congrArg (·.children) hshape
  unfold Settled
  dsimp only
  rw [h.top] at hstands ⊢
  cases hstands with
  | top children =>
    refine ⟨.none, .top ?_, fun _ => ⟨rfl, fun y hy => absurd hy List.not_mem_nil⟩⟩
    rw [hkids]
    exact children

/-- A node that has not read the variable shows what is found after the write, which is what was found
before. -/
theorem Laid.settled_rescoped {n : RenderNode}
    (h : e.Laid b Start root g (fun _ => False) (fun _ => False)) (hb : b.Suits Start)
    (he : e.Rescoped root name e') (hn : e.node? x = some n) (hx : x ≠ root) :
    e'.Settled b Start root g (e.contains x = true ∧ x ≠ root ∧ e.Reads root name x) x n := by
  have htranslator : e'.translator = e.translator := he.setup_eq (·.translator) fun _ => rfl
  have hlive : e.contains x = true := contains_iff.2 ⟨n, hn⟩
  obtain ⟨sight, hstands, hshows⟩ := h.settled hn id
  obtain ⟨hsight, hcovers⟩ := hshows id
  refine ⟨sight, hstands.persist (fun _ => rfl) rfl (.refl g e) (known_of_node? hn) ?_ htranslator ?_,
    fun hstale => ?_⟩
  · intro c hc
    obtain ⟨-, nc, hnc, -⟩ := h.exists_child hn hc
    exact known_of_node? hnc
  · intro f fr _ hfr
    rw [he.frames]
    exact hfr
  · -- all that it reads is recorded, and so is no read of the variable
    obtain ⟨hselective, hquiet⟩ := hb.arrives (h.arrives hb hlive hx fun _ _ => ⟨id, id⟩)
    have hagrees := he.agrees fun y hy hfree (heq : y = name) =>
      hstale ⟨hlive, hx, heq ▸ hcovers y hy hfree⟩
    obtain ⟨hresult, hreads⟩ := hselective.look_congr hquiet hagrees
    rw [hresult, hreads]
    refine ⟨hsight, fun y hy hfree => he.reads.2 (hcovers y hy ?_)⟩
    rw [← he.frames]
    exact hfree

/-- After a write of a variable of the root, only its readers are stale. -/
theorem Laid.rescoped (h : e.Laid b Start root g (fun _ => False) (fun _ => False))
    (hb : b.Suits Start) (he : e.Rescoped root name e') (hstart : Start (e'.outlook root none))
    (hplain : ∀ x v, (e'.scopeOf root).bind (·.get? x) = some v → v.isCallable = false) :
    e'.Laid b Start root g (fun _ => False)
      fun x => e.contains x = true ∧ x ≠ root ∧ e.Reads root name x := by
  refine ⟨he.valid, he.shape ▸ h.tree, he.contains_iff.2 h.live_root, he.frames ▸ h.ordered,
    (he.setup_eq (·.cancel) fun _ => rfl).trans h.cancel, hstart, hplain, h.top, ?homes, ?placed,
    ?settled⟩
  case homes =>
    intro f fr hfr
    rw [he.frames] at hfr
    exact he.known (h.homes hfr)
  case placed =>
    intro x n hn hx
    rw [he.node hx] at hn
    have hplaced := h.placed hn hx
    refine ⟨hplaced.context, hplaced.other, hplaced.frame, hplaced.path, fun p hp => ?_⟩
    unfold Plan.Linked
    rw [he.frames]
    exact hplaced.linked p hp
  case settled =>
    intro x n hn _
    by_cases hx : x = root
    · subst hx
      exact h.settled_root he hn
    · rw [he.node hx] at hn
      exact h.settled_rescoped hb he hn hx

section

variable {data : ContextData}

/-- The index of a component instance. -/
theorem index?_of_context? (hdata : e.context? root = some data) : e.index? root = some data.index := by
  obtain ⟨n, hn, hkind⟩ := Option.bind_eq_some_iff.1 hdata
  unfold index? RenderKind.index?
  rw [hn, Option.bind_some, hkind, Option.map_some]

/-- The root after its variables were replaced. -/
theorem context?_rescope (hdata : e.context? root = some data) (scope : Scope) :
    (e.modifyContext root fun data => { data with scope := scope }).context? root =
      some { data with scope := scope } := by
  obtain ⟨n, hn, hkind⟩ := Option.bind_eq_some_iff.1 hdata
  unfold context? modifyContext modifyKind
  rw [node?_modifyNode, if_pos rfl, hn, Option.map_some, Option.bind_some]
  cases hk : n.kind with
  | context data' =>
    rw [hk] at hkind
    obtain rfl := Option.some.inj hkind
    rfl
  | _ =>
    rw [hk] at hkind
    cases hkind

namespace Rescoped

/-- Nothing was changed. -/
theorem refl (hvalid : e.nodes.Valid) (root : NodeId) (name : String) : e.Rescoped root name e :=
  ⟨fun _ _ => rfl, rfl, hvalid, fun _ h => h, fun _ _ => .rfl, fun _ _ => rfl, rfl, rfl, rfl⟩

/-- What is queued does not matter. -/
theorem queue (h : e.Rescoped root name e') (pending : OrderedSet (NodeId × String)) :
    e.Rescoped root name { e' with pending := pending } :=
  ⟨h.node, h.shape, h.valid, h.known, h.reads, h.vars, h.component, h.frames, h.setup⟩

/-- A variable of the root gets another value. -/
theorem modifyContext (hvalid : e.nodes.Valid) (hdata : e.context? root = some data) {scope : Scope}
    (hscope : ∀ x, x ≠ name → scope.get? x = data.scope.get? x) :
    e.Rescoped root name (e.modifyContext root fun data => { data with scope := scope }) := by
  have hcontext := context?_rescope hdata scope
  refine ⟨fun x hx => ?_, ?_, hvalid.modify root _, fun x hx => ?_, fun k x => ?_,
    fun x hx => ?_, ?_, rfl, rfl⟩
  · unfold Engine.modifyContext modifyKind
    rw [node?_modifyNode, if_neg hx]
  · refine shape_modifyNode_of_same fun m _ => ?_
    obtain ⟨kind, _, _, _, _, _, _, _⟩ := m
    cases kind <;> rfl
  · refine hx.imp (fun hlive => ?_) fun hspent => hspent.modify _ _
    exact (Arena.contains_modify root x _).trans hlive
  · unfold Reads Engine.modifyContext modifyKind
    rw [index?_modifyNode_of_same fun m _ => ?_]
    · exact RenderKind.index?_modifyContext (f := fun data => { data with scope := scope })
        (fun _ => rfl) m.kind
  · unfold scopeOf
    rw [hcontext, hdata]
    exact hscope x hx
  · unfold contextName
    rw [hcontext, hdata]
    rfl

/-- A variable of the root is written. -/
theorem writeVar (hvalid : e.nodes.Valid) (hdata : e.context? root = some data) (name : String)
    (v : Value) : e.Rescoped root name (e.writeVar root name v) := by
  unfold Engine.writeVar
  rw [hdata]
  dsimp only
  split
  · exact .refl hvalid root name
  · rename_i scope hwrite
    have hwritten := modifyContext hvalid hdata fun x hx => Scope.get?_write?_of_ne hwrite hx
    split
    · exact hwritten.queue _
    · exact hwritten

end Rescoped

/-- The variables of the root after a write of one of them. -/
theorem scopeOf_writeVar (hdata : e.context? root = some data) (name : String) (v : Value) :
    (e.writeVar root name v).scopeOf root = some (data.scope.write name v) := by
  have hmodify (scope : Scope) :
      (e.modifyContext root fun data => { data with scope := scope }).scopeOf root = some scope :=
    congrArg (Option.map ContextData.scope) (context?_rescope hdata scope)
  unfold writeVar Scope.write
  rw [hdata]
  dsimp only
  split
  · rename_i hwrite
    rw [hwrite]
    exact congrArg (Option.map ContextData.scope) hdata
  · rename_i scope hwrite
    rw [hwrite]
    split
    · exact hmodify scope
    · exact hmodify scope

/-- What is queued after a write of a variable: the variable, if it has readers. -/
theorem pending_writeVar (hdata : e.context? root = some data) (name : String) (v : Value)
    (hidle : e.pending = .empty) : (e.writeVar root name v).pending = .empty ∧
        (e.writeVar root name v = e ∨ ∀ x, ¬e.Reads root name x) ∨
      (e.writeVar root name v).pending.toList = [(root, name)] := by
  unfold writeVar
  rw [hdata]
  dsimp only
  split
  · exact .inl ⟨hidle, .inl rfl⟩
  · split
    · refine .inr ?_
      dsimp only
      change (e.pending.insert (root, name)).toList = _
      rw [hidle]
      rfl
    · rename_i hnone
      refine .inl ⟨hidle, .inr ?_⟩
      rintro x ⟨index, hindex, hmem⟩
      obtain rfl := Option.some.inj (hindex.symm.trans (index?_of_context? hdata))
      -- a variable without dependents has no readers
      unfold ReactiveIndex.hasDependents at hnone
      rw [Bool.not_eq_true, Bool.not_eq_false'] at hnone
      unfold ReactiveIndex.dependents at hmem
      rw [List.isEmpty_iff.1 hnone] at hmem
      exact List.not_mem_nil hmem

end

/-! ## Readers in their order -/

/-- Ancestors are a matter of the nodes. -/
theorem ancestorsIn_congr (hnodes : e'.nodes = e.nodes) : ∀ (length : Nat) (id : NodeId),
    e'.ancestorsIn length id = e.ancestorsIn length id
  | 0, _ => rfl
  | length + 1, id => by
    unfold ancestorsIn node?
    rw [hnodes]
    split
    · rfl
    · rw [ancestorsIn_congr hnodes length]

/-- So is the distance from the root. -/
theorem byDepth_congr (hnodes : e'.nodes = e.nodes) (ids : List NodeId) :
    e'.byDepth ids = e.byDepth ids := by
  unfold byDepth ancestors chainBound
  rw [hnodes]
  simp only [ancestorsIn_congr hnodes]

/-- The nodes that are put in order. -/
theorem mem_byDepth {ids : List NodeId} : x ∈ e.byDepth ids ↔ x ∈ ids := by
  unfold byDepth
  rw [((List.mergeSort_perm _ _).map _).mem_iff, List.map_map, List.mem_map]
  exact ⟨fun ⟨y, hy, heq⟩ => heq ▸ hy, fun hx => ⟨x, hx, rfl⟩⟩

/-- The order is that of the distances from the root. -/
theorem Laid.pairwise_byDepth (h : e.Laid b Start root g Busy Stale) (ids : List NodeId) :
    (e.byDepth ids).Pairwise fun x y => e.contains x = true → e.contains y = true →
      (g.label x).path.length ≤ (g.label y).path.length := by
  unfold byDepth
  refine List.pairwise_map.2 ?_
  have hsorted : ((ids.map fun id => ((e.ancestors id).length, id)).mergeSort
      fun a b => a.1 ≤ b.1).Pairwise fun a b => decide (a.1 ≤ b.1) = true :=
    List.pairwise_mergeSort
      (fun a b c hab hbc => decide_eq_true ((of_decide_eq_true hab).trans (of_decide_eq_true hbc)))
      (fun a b => by simpa using Nat.le_total a.1 b.1) _
  refine hsorted.imp_of_mem fun {p q} hp hq hle hx hy => ?_
  have hkey {p : Nat × NodeId} (hp : p ∈ (ids.map fun id => ((e.ancestors id).length, id)).mergeSort
      fun a b => a.1 ≤ b.1) (hx : e.contains p.2 = true) : p.1 = (g.label p.2).path.length := by
    obtain ⟨id, -, rfl⟩ := List.mem_map.1 (List.mem_mergeSort.1 hp)
    exact congrArg List.length (h.ancestors hx)
  rw [← hkey hp hx, ← hkey hq hy]
  exact of_decide_eq_true hle

/-- The readers of a variable of the root. -/
theorem mem_readersOf (hroot : (e.context? root).isSome = true) :
    x ∈ e.readersOf [(root, name)] ↔ e.Reads root name x := by
  obtain ⟨data, hdata⟩ := Option.isSome_iff_exists.1 hroot
  unfold readersOf Reads
  rw [OrderedSet.ofList, OrderedSet.mem_insertAll, List.flatMap_singleton]
  dsimp only
  rw [hdata, index?_of_context? hdata]
  refine ⟨fun hx => ⟨data.index, rfl, hx.resolve_left List.not_mem_nil⟩, ?_⟩
  rintro ⟨index, hindex, hx⟩
  obtain rfl := Option.some.inj hindex
  exact .inr hx

end Engine

namespace Render

open Engine

variable {re : Reentry} {e e' e₁ : Engine} {g : Plan} {root id : NodeId} {b : Body}
  {Start : Outlook → Prop} {Stale : NodeId → Prop}

/-- The root shows nothing of its own, so nothing happens when it is updated without what is below. -/
theorem updateNode_root_yields (h : e.Laid b Start root g (fun _ => False) Stale) :
    (updateNode re root false).Yields e fun _ e' => e' = e := by
  obtain ⟨n, data, hn, hkind, -, hcontext⟩ := h.grounded
  refine Act.yields_bind_of (Q := fun _ e' => e' = e) (fun r e₁ hgives => ?_) fun _ e₁ he₁ => ?_
  · obtain ⟨hr, he⟩ := h.poll hgives
    exact ⟨(), hr, he⟩
  subst he₁
  refine Act.yields_read_bind.2 ?_
  rw [hn]
  dsimp only
  rw [hkind]
  dsimp only
  unfold propagateSources
  rw [hcontext, decide_eq_true rfl, Bool.true_or, if_pos rfl]
  exact Act.yields_pure rfl

/-- A stale node that is next to the root among the stale ones is updated; a node that is gone, and
the root, are left. -/
theorem updateNext_updates (hb : b.Suits Start) (hre : re.Updates b Start root)
    (h : e.Laid b Start root g (fun _ => False) Stale) (hstale : ∀ x, Stale x → x ≠ root ∧ e.Known x)
    (hfirst : ∀ x, Stale x → e.contains x = true → e.contains id = true →
      (g.label id).path.length ≤ (g.label x).path.length) :
    Act.Yields (do if ← Act.read (·.contains id) then updateNode re id false) e fun _ e' => ∃ g',
      e'.Laid b Start root g' (fun _ => False) (fun x => Stale x ∧ x ≠ id) ∧
        e.Evolves (· ≠ root) (fun _ => True) (fun _ => True) e' ∧ g.Extends e g' := by
  have hleft (hid : e.contains id = true → id = root) : ∃ g', e.Laid b Start root g' (fun _ => False)
      (fun x => Stale x ∧ x ≠ id) ∧ e.Evolves (· ≠ root) (fun _ => True) (fun _ => True) e ∧
        g.Extends e g' := by
    refine ⟨g, h.staler fun x hx hxs => ⟨hxs, fun heq => ?_⟩, .refl h.valid, .refl g e⟩
    subst heq
    exact (hstale x hxs).1 (hid hx)
  refine Act.yields_read_bind.2 ?_
  cases hlive : e.contains id with
  | false =>
    refine Act.yields_pure (hleft fun htrue => ?_)
    rw [hlive] at htrue
    cases htrue
  | true =>
    rw [if_pos rfl]
    by_cases hroot : id = root
    · subst hroot
      refine (updateNode_root_yields h).imp fun _ e₁ he₁ => ?_
      subst he₁
      exact hleft fun _ => rfl
    · -- what is stale is not nearer to the root, so all around the node is settled
      have hpath (p : NodeId) (hp : p ∈ (g.label id).path) : ¬Stale p := fun hps =>
        absurd (hfirst p hps (h.path_suffix hlive hp).1 hlive)
          (Nat.not_le_of_lt (h.length_path_lt hlive hp))
      have hdue : e.Due b Start root g (fun _ => False) Stale id :=
        ⟨h, ⟨fun x hx => hx.elim False.elim fun hx => (hstale x hx).2, fun _ _ _ hx => hx⟩, hlive, hroot,
          h.arrives hb hlive hroot fun p hp => ⟨fun hx => hx, hpath p hp⟩⟩
      refine (updateNode_updates hb hre hdue false).imp fun _ e₁ hupdated => ?_
      obtain ⟨g₁, hupdated⟩ := hupdated
      refine ⟨g₁, hupdated.laid.staler fun x _ hx => ⟨hx.1, fun heq => hx.2 (.inl heq)⟩,
        hupdated.evolves.mono (fun x hx heq => ?_) (fun _ _ => trivial) (fun _ _ => trivial),
        hupdated.plan⟩
      rcases hx with hx | hx
      · exact hroot (hx.symm.trans heq)
      · rw [heq, h.top] at hx
        exact List.not_mem_nil hx

/-- Stale nodes are updated in the order of their distance from the root. -/
theorem updateLive_updates (hb : b.Suits Start) (hre : re.Updates b Start root) :
    ∀ (ids : List NodeId) {e : Engine} {g : Plan} {Stale : NodeId → Prop},
      e.Laid b Start root g (fun _ => False) Stale →
      (∀ x, Stale x → x ≠ root ∧ x ∈ ids) → (∀ x ∈ ids, e.Known x) →
      ids.Pairwise (fun x y => e.contains x = true → e.contains y = true →
        (g.label x).path.length ≤ (g.label y).path.length) →
      (updateLive re ids).Yields e fun _ e' => ∃ g',
        e'.Laid b Start root g' (fun _ => False) (fun _ => False) ∧
          e.Evolves (· ≠ root) (fun _ => True) (fun _ => True) e'
  | [], e, g, Stale, h, hstale, _, _ => by
    refine Act.yields_pure ⟨g, h.staler fun x _ hx => ?_, .refl h.valid⟩
    exact List.not_mem_nil (hstale x hx).2
  | id :: ids, e, g, Stale, h, hstale, hknown, hsorted => by
    obtain ⟨hfirst, hsorted⟩ := List.pairwise_cons.1 hsorted
    have hrest (x : NodeId) (hx : Stale x ∧ x ≠ id) : x ∈ ids :=
      (List.mem_cons.1 (hstale x hx.1).2).resolve_left hx.2
    refine Act.yields_bind (updateNext_updates hb hre h
      (fun x hx => ⟨(hstale x hx).1, hknown x (hstale x hx).2⟩) fun x hx hlive hid => ?_)
      (fun _ => updateLive_keeps Engine.roomy_stable.closed hre.lays.operates ids) fun _ e₁ hnext => ?_
    · rcases List.mem_cons.1 (hstale x hx).2 with rfl | hmem
      · exact Nat.le_refl _
      · exact hfirst x hmem hid hlive
    · obtain ⟨g₁, hlaid₁, hevolves₁, hplan₁⟩ := hnext
      have hknown₁ (x : NodeId) (hx : x ∈ ids) := hknown x (List.mem_cons_of_mem id hx)
      refine (updateLive_updates hb hre ids hlaid₁ (fun x hx => ⟨(hstale x hx.1).1, hrest x hx⟩)
        (fun x hx => hevolves₁.known (hknown₁ x hx))
        (hsorted.imp_of_mem fun hx hy hle hx₁ hy₁ => ?_)).imp
          fun _ e₂ ⟨g₂, hlaid₂, hevolves₂⟩ => ⟨g₂, hlaid₂, hevolves₁.trans hevolves₂⟩
      -- the nodes that are left keep their labels, and with them their distance from the root
      rw [hplan₁.label (hknown₁ _ hx), hplan₁.label (hknown₁ _ hy)]
      exact hle (hevolves₁.contains hx₁ (hknown₁ _ hx)) (hevolves₁.contains hy₁ (hknown₁ _ hy))

/-! ## One round -/

/-- When nothing is queued, there is nothing to follow up. -/
theorem flush_idle (hidle : e.pending = .empty) (limit : Nat) : ∀ rounds : Nat,
    (flush re limit rounds).Yields e fun _ e' => e' = e
  | 0 => by
    refine Act.yields_read_bind.2 ?_
    rw [hidle]
    exact Act.yields_pure rfl
  | rounds + 1 => by
    refine Act.yields_read_bind.2 ?_
    rw [hidle]
    exact Act.yields_pure rfl

/-- The readers of a variable that is queued are updated, and nothing else is queued by that. -/
theorem flush_readers (hb : b.Suits Start) (hre : re.Updates b Start root) {name : String}
    (he : e₁ = { e with pending := .empty }) (h : e₁.Laid b Start root g (fun _ => False) Stale)
    (hqueued : e.pending.toList = [(root, name)])
    (hreaders : ∀ x, e₁.Reads root name x → e₁.contains x = true)
    (hstale : ∀ x, Stale x → x ≠ root ∧ e₁.Reads root name x) (limit rounds : Nat) :
    (flush re limit (rounds + 1)).Yields e fun _ e' => ∃ g',
      e'.Laid b Start root g' (fun _ => False) (fun _ => False) ∧
        e₁.Evolves (· ≠ root) (fun _ => True) (fun _ => True) e' := by
  have hidle : e₁.pending = .empty := he ▸ rfl
  have hsome : e.pending.isEmpty = false := by
    unfold OrderedSet.isEmpty
    rw [hqueued]
    rfl
  have hcontext : (e₁.context? root).isSome = true := by
    obtain ⟨data, hdata, -⟩ := h.grounded.context?
    rw [hdata]
    rfl
  have hreadersOf : e.readersOf [(root, name)] = e₁.readersOf [(root, name)] := he ▸ rfl
  have hbyDepth := byDepth_congr (show e₁.nodes = e.nodes from he ▸ rfl) (e₁.readersOf [(root, name)])
  have hmem (x : NodeId) : x ∈ e₁.byDepth (e₁.readersOf [(root, name)]) ↔ e₁.Reads root name x :=
    mem_byDepth.trans (mem_readersOf hcontext)
  refine Act.yields_read_bind.2 ?_
  rw [hsome, if_neg Bool.false_ne_true]
  refine Act.yields_step_bind.2 ?_
  dsimp only
  rw [hqueued, hreadersOf, ← hbyDepth, ← he]
  refine Act.yields_bind (updateLive_updates hb hre _ h
    (fun x hx => ⟨(hstale x hx).1, (hmem x).2 (hstale x hx).2⟩)
    (fun x hx => .inl (hreaders x ((hmem x).1 hx))) (h.pairwise_byDepth _))
    (fun _ => flush_keeps Engine.roomy_stable.closed hre.lays.operates limit rounds) fun _ e₂ hdone => ?_
  obtain ⟨g₂, hlaid₂, hevolves₂⟩ := hdone
  have hidle₂ : e₂.pending = .empty := (congrArg (·.pending) hevolves₂.setup).trans hidle
  exact (flush_idle hidle₂ limit rounds).imp fun _ e' he' => he' ▸ ⟨g₂, hlaid₂, hevolves₂⟩

/-- A write of a variable of the root is followed up: everything is shown as it is seen afterwards. -/
theorem flush_writeVar (hb : b.Suits Start) (hre : re.Updates b Start root) {name : String} {v : Value}
    (h : e.Laid b Start root g (fun _ => False) (fun _ => False)) (hidle : e.pending = .empty)
    (hreaders : ∀ x, e.Reads root name x → e.contains x = true) (he₁ : e₁ = e.writeVar root name v)
    (hstart : Start (e₁.outlook root none))
    (hplain : ∀ x w, (e₁.scopeOf root).bind (·.get? x) = some w → w.isCallable = false)
    (limit rounds : Nat) :
    (flush re limit (rounds + 1)).Yields e₁ fun _ e' => ∃ g',
      e'.Laid b Start root g' (fun _ => False) (fun _ => False) ∧ e'.setup = e.setup ∧
        e'.scopeOf root = e₁.scopeOf root ∧ e'.contextName root = e.contextName root := by
  obtain ⟨data, hdata, -⟩ := h.grounded.context?
  have hr := Rescoped.writeVar h.valid hdata name v
  have hqueue := pending_writeVar hdata name v hidle
  rw [← he₁] at hr hqueue
  -- either nobody has read the variable, or one round of updates reaches all who have
  rcases hqueue with ⟨hnone, hunread⟩ | hqueued
  · refine (flush_idle hnone limit (rounds + 1)).imp fun _ e' he' => ?_
    subst he'
    refine ⟨g, ?_, hr.setup_of_idle hidle hnone, rfl, hr.component⟩
    rcases hunread with hsame | hunread
    · rw [hsame]
      exact h
    · exact (h.rescoped hb hr hstart hplain).staler fun x _ hx => hunread x hx.2.2
  · obtain ⟨e₂, he₂⟩ : ∃ e₂, e₂ = { e₁ with pending := .empty } := ⟨_, rfl⟩
    have hr₂ : e.Rescoped root name e₂ := he₂ ▸ hr.queue .empty
    have hlaid₂ := h.rescoped hb hr₂ (he₂ ▸ hstart) (he₂ ▸ hplain)
    refine (flush_readers hb hre he₂ hlaid₂ hqueued
      (fun x hx => hr₂.contains_iff.2 (hreaders x (hr₂.reads.1 hx)))
      (fun x hx => ⟨hx.2.1, hr₂.reads.2 hx.2.2⟩) limit rounds).imp fun _ e' hdone => ?_
    obtain ⟨g', hlaid', hevolves⟩ := hdone
    have hcontext := hevolves.context? hlaid₂.live_root hlaid'.live_root
    have hscope : e₂.scopeOf root = e₁.scopeOf root := he₂ ▸ rfl
    have hidle₂ : e₂.pending = .empty := he₂ ▸ rfl
    exact ⟨g', hlaid', hevolves.setup.trans (hr₂.setup_of_idle hidle hidle₂),
      (scopeOf_congr hcontext).trans hscope, (contextName_congr hcontext).trans hr₂.component⟩

/-! ## Operations -/

/-- What comes of an operation is looked at. -/
theorem yields_attempt {α : Type} {x : Act α} {Q : α → Engine → Prop} (hx : x.Yields e Q) :
    Act.Yields (ExceptT.lift x.run) e fun r e' => ∃ a, r = .ok a ∧ Q a e' := by
  intro r e' hgives hroom
  obtain ⟨r', hr, hrun⟩ := Act.gives_lift.1 hgives
  exact ⟨r', hr, hx hrun hroom⟩

/-- An operation is run and its writes are followed up. -/
theorem batch_yields {α : Type} {x : Act α} {Q R : α → Engine → Prop} (hre : re.Operates)
    (hx : x.Yields e Q) (hflush : ∀ a e₁, Q a e₁ →
      (flush re e₁.options.maxUpdateDepth e₁.options.maxUpdateDepth).Yields e₁ fun _ e' => R a e') :
    (batch re x).Yields e R := by
  refine Act.yields_bind (yields_attempt hx)
    (fun outcome => Act.keeps_bind (Act.keeps_read _) fun limit => ?_) fun r e₁ hq => ?_
  · refine Act.keeps_bind (Act.keeps_lift (flush_keeps Engine.roomy_stable.closed hre limit limit))
      fun followed => ?_
    split
    · exact Act.keeps_throw _
    · exact Act.keeps_throw _
    · exact Act.keeps_pure _
  obtain ⟨a, rfl, hq⟩ := hq
  refine Act.yields_read_bind.2 (Act.yields_bind (yields_attempt (hflush a e₁ hq)) (fun followed => ?_)
    fun r e₂ hr => ?_)
  · split
    · exact Act.keeps_throw _
    · exact Act.keeps_throw _
    · exact Act.keeps_pure _
  · obtain ⟨⟨⟩, rfl, hr⟩ := hr
    exact Act.yields_pure hr

end Render

namespace Engine

open Render

variable {e : Engine} {g : Plan} {root : NodeId} {b : Body} {Start : Outlook → Prop} {name : String}
  {v : Value}

/-- A node that has read a variable is there. -/
theorem Booked.contains_of_reads (h : e.Booked) (hentries : e.entries = 0) (hroom : e.nodes.Roomy)
    {c x : NodeId} {k : String} (hreads : e.Reads c k x) : e.contains x = true := by
  obtain ⟨index, hindex, hmem⟩ := hreads
  obtain ⟨hcoherent, hmentioned⟩ := h.2 ⟨hentries, hroom⟩ hindex
  obtain ⟨n, hn, -⟩ := hmentioned ((hcoherent.dual k x).1 hmem)
  exact contains_iff.2 ⟨n, hn⟩

/-- Variables of a component instance that has its own are written there. -/
theorem checkedOwner_yields (h : e.Grounded root) :
    (checkedOwner root).Yields e fun owner e' => owner = root ∧ e' = e := by
  have howner := h.scopeOwner
  obtain ⟨n, data, hn, hkind, -⟩ := h
  have hcontext : n.isContext = true := by
    unfold RenderNode.isContext
    rw [hkind]
    rfl
  refine Act.yields_read_bind.2 ?_
  rw [hn]
  dsimp only
  rw [hcontext, if_pos rfl]
  intro r e' hgives _
  obtain ⟨rfl, rfl⟩ := Act.gives_read.1 hgives
  exact ⟨_, rfl, howner, rfl⟩

/-- When a variable of the root is written, everything is shown as it is seen afterwards. -/
theorem setVar_yields (hb : b.Suits Start) (depth : Nat)
    (h : e.Laid b Start root g (fun _ => False) (fun _ => False)) (hbooked : e.Booked)
    (hidle : e.pending = .empty) (hentries : e.entries = 0) (hlimit : 1 ≤ e.options.maxUpdateDepth)
    (hstart : Start ((e.writeVar root name v).outlook root none))
    (hplain : ∀ x w, ((e.writeVar root name v).scopeOf root).bind (·.get? x) = some w →
      w.isCallable = false) :
    (setVar depth root name v).Yields e fun _ e' => ∃ g',
      e'.Laid b Start root g' (fun _ => False) (fun _ => False) ∧ e'.setup = e.setup ∧
        e'.scopeOf root = (e.writeVar root name v).scopeOf root ∧
          e'.contextName root = e.contextName root := by
  refine Act.yields_of_roomy (setVar_keeps roomy_stable.closed depth root name v) fun hroom₀ => ?_
  obtain ⟨data, hdata, -⟩ := h.grounded.context?
  have hoptions : (e.writeVar root name v).options = e.options :=
    (Rescoped.writeVar h.valid hdata name v).setup_eq (·.options) fun _ => rfl
  have hre := Reentry.within_updates hb root depth
  refine Act.yields_bind (checkedOwner_yields h.grounded) (fun owner => batchChange_keeps roomy_stable.closed hre.lays.operates
    fun _ he => roomy_stable.evaluation.tracking.writeVar owner name v he) fun owner e₁ hsame => ?_
  obtain ⟨rfl, rfl⟩ := hsame
  refine batch_yields (Q := fun _ e' => e' = e₁.writeVar owner name v) hre.lays.operates
    (Act.yields_change rfl) fun _ e₂ he₂ => ?_
  rw [show e₂.options = e₁.options from he₂ ▸ hoptions]
  -- one round is enough, and one is allowed
  obtain ⟨rounds, hrounds⟩ : ∃ rounds, e₁.options.maxUpdateDepth = rounds + 1 :=
    ⟨e₁.options.maxUpdateDepth - 1, by omega⟩
  rw [hrounds, ← he₂]
  exact flush_writeVar hb hre h hidle (fun x hx => hbooked.contains_of_reads hentries hroom₀ hx) he₂
    (he₂ ▸ hstart) (he₂ ▸ hplain) _ rounds

end Engine
end ReactiveView
