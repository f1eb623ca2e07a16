import ReactiveView.Proofs.Keyed.Instances
import ReactiveView.Proofs.Keyed.Marking
import ReactiveView.Proofs.Keyed.Moments

/-!
# The stages of reconciliation

Bringing a loop with identities in line with its items goes through stages: the instances of before
are taken out, those that are not wanted are removed, the others are arranged and put into order,
what has another place is marked, and the loop is finished (`Render.reconcile_course`). A
`Render.Course` says what the loop is like at each of them. What the loop is like in the end is read
off its course.
-/

namespace ReactiveView

/-! ## Places in lists -/

/-- The place of an element of a list without repetitions. -/
theorem List.idxOf?_of_getElem? {α : Type} [DecidableEq α] {xs : List α} (hxs : xs.Nodup) {a : α}
    {i : Nat} (hi : xs[i]? = some a) : xs.idxOf? a = some i := by
  obtain ⟨hlt, rfl⟩ := List.getElem?_eq_some_iff.1 hi
  refine List.idxOf?_eq_some_iff.2 ⟨hlt, rfl, fun j hj heq => ?_⟩
  exact absurd (hxs.getElem_inj_iff.1 heq) (Nat.ne_of_lt hj)

/-- The entry of a key is at the place of the key. -/
theorem OrderedMap.getElem?_idxOf {κ α : Type} [DecidableEq κ] (m : OrderedMap κ α)
    (hm : m.Distinct) {k : κ} {v : α} (h : m.get? k = some v) :
    m.entries[m.keys.idxOf k]? = some (k, v) := by
  obtain ⟨i, hi⟩ := List.getElem?_of_mem (mem_of_find? h)
  have hkey : m.keys[i]? = some k := by
    unfold keys
    rw [List.getElem?_map, hi]
    rfl
  obtain ⟨hlt, hk⟩ := List.getElem?_eq_some_iff.1 hkey
  rw [← hk, hm.idxOf_getElem i hlt, hk, hi]

/-- An instance stays, and has another place among the wanted keys than it had before. -/
def OrderedMap.Moves (old : OrderedMap Key Instance) (w : List Key) (key : Key) (kept : Instance) :
    Prop :=
  old.get? key = some kept ∧ key ∈ w ∧ old.keys.idxOf? key ≠ w.idxOf? key

namespace Engine

variable {e : Engine} {root x y : NodeId} {instances : OrderedMap Key Instance} {c : Cursor}
  {busy : List NodeId} {spec : LoopSpec} {key key' : Key} {inst inst' : Instance}

/-! ## Marking what has another place -/

/-- Nodes of one instance are not outermost reportable nodes of another one. -/
theorem not_topmost_of_other (hw : e.view.Working root c busy spec instances)
    (hmem : (key, inst) ∈ instances.entries) (hx : x ∈ inst.nodes)
    (hy : y = x ∨ e.shape.Above x y) (hmem' : (key', inst') ∈ instances.entries)
    (hne : key ≠ key') {x' : NodeId} (hx' : x' ∈ inst'.nodes) : ¬e.Topmost x' y := by
  intro htop
  obtain ⟨n, hn, -, hlists⟩ := hw.node
  obtain ⟨ny, hny, -⟩ := isReportable_iff.1 htop.reportable
  have hlive {z : NodeId} (hz : y = z ∨ e.shape.Above z y) : e.view.live z = true := by
    rcases hz with rfl | ha
    · exact View.live_iff.2 ⟨_, shape_of_node? hny⟩
    · exact View.live_iff.2 (hw.tree.above_live ha)
  have hchild {z : NodeId} (hz : z ∈ instances.nodes) (hunder : y = z ∨ e.shape.Above z y) :
      e.shape.Parent c.parent z := by
    refine hw.tree.child c.parent n z hn ?_
    rw [hlists.children_eq]
    exact List.mem_filter.2 ⟨hz, hlive hunder⟩
  obtain rfl := hw.tree.siblings_disjoint (hchild (OrderedMap.mem_nodes hmem hx) hy)
    (hchild (OrderedMap.mem_nodes hmem' hx') htop.under) hy htop.under
  exact hne (hlists.key_unique (hw.tree.nodup c.parent n hn) (hlive hy) hmem hx hmem' hx')

end Engine

namespace View

variable {v v' : View} {r x : NodeId} {busy : List NodeId} {c : Cursor} {spec : LoopSpec}
  {old : OrderedMap Key Instance} {wanted : Key → Bool} {keys : List Key} {key : Key}
  {kept inst : Instance} {arranged : List (Key × Instance)}

/-- A loop that is worked on may be built at. -/
theorem Working.admits {instances : OrderedMap Key Instance}
    (hw : v.Working r c busy spec instances) : v.Admits c := by
  obtain ⟨n, hn, hloop, -⟩ := hw.node
  exact (admits_of_node hw.tree hn hloop.isContext c.frame c.ns).congr rfl hloop.context.symm

/-- Arranging leaves the nodes of the instances that stay. -/
theorem Working.survives (hw : v.Working r c busy spec (old.filter fun key _ => wanted key))
    (hwanted : ∀ key, wanted key = true ↔ key ∈ keys) (h : v.Arranges c old keys arranged v')
    (hkey : key ∈ keys) (hkept : old.get? key = some kept) (hx : x ∈ kept.nodes) :
    v'.live x = v.live x := by
  obtain ⟨n, hn, hloop, -, hready⟩ := hw.ready hwanted
  obtain ⟨hchanged, -, -, built, hn', -⟩ :=
    h r busy n hw.tree hn hw.sound hw.above hloop.isContext hloop.context hready
  rcases hready key hkey kept hkept x hx with hchild | hspent
  · rw [live_of_child hw.tree hn hchild,
      live_of_child hchanged.tree hn' (List.mem_append_left built hchild)]
  · rw [live_of_spent hspent, live_of_spent (hchanged.later.spent x hspent)]

/-- What arranging builds is new. -/
theorem Working.places (hw : v.Working r c busy spec (old.filter fun key _ => wanted key))
    (hwanted : ∀ key, wanted key = true ↔ key ∈ keys) (h : v.Places c old keys arranged v')
    (hmem : (key, inst) ∈ arranged) (hnone : old.get? key = none) (hx : x ∈ inst.nodes) :
    (v.live x = false ∧ ¬v.spent x) ∧ v'.live x = true := by
  obtain ⟨n, hn, hloop, -, hready⟩ := hw.ready hwanted
  obtain ⟨hdead, hfresh, hthere⟩ := h r busy n hw.tree hn hw.sound hw.above hloop.isContext
    hloop.context hready key inst hmem hnone x hx
  exact ⟨⟨hdead, hfresh⟩, hthere⟩

end View

namespace Render

open Act

variable {re : Reentry} {e e₁ e₂ e' : Engine} {id root x y : NodeId} {spec : LoopSpec} {c : Cursor}
  {old instances : OrderedMap Key Instance} {items : List Value} {recursive : Bool}
  {busy : List NodeId} {n : RenderNode} {data : LoopData} {state : LoopState}

/-! ## The stages -/

/-- A loop is brought in line with its items in stages. -/
theorem reconcile_gives (hparts : e.loopParts? id = some (spec, c))
    (h : (reconcile re id items recursive).Gives e (.ok ()) e') : ∃ wanted e₁ p e₂,
      (wantedItems re spec c items .empty).Gives (e.takeInstances id).2 (.ok wanted) e₁ ∧
      (arrangeInstances re spec c recursive (e.takeInstances id).1 0 wanted.entries).Gives
        (e₁.dropInstances (e.takeInstances id).1 wanted.contains) (.ok p) e₂ ∧
      (finishLoop re id spec c (.keyed ⟨p.1⟩)).Gives
        (p.2.foldl Engine.markRebind (e₂.orderChildren id ⟨p.1⟩)) (.ok ()) e' := by
  unfold reconcile at h
  rw [gives_read_bind, hparts] at h
  rw [gives_step_bind] at h
  obtain ⟨wanted, e₁, hwanted, h⟩ := of_gives_bind_ok h
  rw [gives_change_bind] at h
  obtain ⟨p, e₂, harranged, h⟩ := of_gives_bind_ok h
  exact ⟨wanted, e₁, p, e₂, hwanted, harranged, h⟩

/-- A loop is finished after its empty case was built, if there is one to be built. -/
theorem finishLoop_gives (h : (finishLoop re id spec c state).Gives e (.ok ()) e') :
    ∃ e₁, e' = e₁.modifyKind id (keepState spec state) ∧ (state.isEmpty = false → e₁ = e) ∧
      (spec.empty = none → e₁ = e) ∧
        ∀ body, state.isEmpty = true → spec.empty = some body →
          (re.build body c).Gives e (.ok ()) e₁ := by
  unfold finishLoop at h
  split at h
  · rename_i hempty
    split at h
    · rename_i body hbody
      obtain ⟨_, e₁, hbuilt, hset⟩ := of_gives_bind_ok h
      refine ⟨e₁, (gives_change.1 hset).2, fun h => ?_, fun hnone => ?_, fun body' _ hbody' => ?_⟩
      · exact absurd (hempty.symm.trans h) Bool.noConfusion
      · exact absurd (hbody.symm.trans hnone) (Option.some_ne_none body)
      · rwa [← Option.some.inj (hbody.symm.trans hbody')]
    · rename_i hnone
      refine ⟨e, (gives_change.1 h).2, fun _ => rfl, fun _ => rfl, fun body _ hbody => ?_⟩
      exact absurd (hbody.symm.trans hnone) (Option.some_ne_none body)
  · rename_i hempty
    exact ⟨e, (gives_change.1 h).2, fun _ => rfl, fun _ => rfl, fun _ h => absurd h hempty⟩

/-- The stages of bringing a loop in line with its items, and what the loop is like at them. -/
structure Course (re : Reentry) (recursive : Bool) (spec : LoopSpec) (c : Cursor) (root : NodeId)
    (busy : List NodeId) (old : OrderedMap Key Instance) (wanted : OrderedMap Key (Value × Value))
    (instances : OrderedMap Key Instance) (moved : List NodeId) (e₁ e₂ e₃ e' : Engine) : Prop where
  /-- When the keys of the items were found, the instances of before are taken out. -/
  taken : e₁.nodes.Valid ∧ e₁.view.Working root c busy spec old
  /-- The keys are different from each other. -/
  distinct : wanted.Distinct
  /-- Then the instances that are not wanted are removed. -/
  dropped : (e₁.dropInstances old wanted.contains).view.Working root c busy spec
    (old.filter fun key _ => wanted.contains key)
  /-- Then the others are arranged. -/
  arranged : (arrangeInstances re spec c recursive old 0 wanted.entries).Gives
    (e₁.dropInstances old wanted.contains) (.ok (instances.entries, moved)) e₂
  /-- Those that were there are kept. -/
  arranges : (e₁.dropInstances old wanted.contains).view.Arranges c old wanted.keys
    instances.entries e₂.view
  /-- The others are built. -/
  places : (e₁.dropInstances old wanted.contains).view.Places c old wanted.keys
    instances.entries e₂.view
  /-- Then the children are put into order. -/
  ordered : e₃ = e₂.orderChildren c.parent instances ∧ e₃.Buried ∧
    e₃.view.Working root c busy spec instances
  /-- Then what has another place is marked. -/
  marked : e₃.Marked (fun y => ∃ x ∈ moved, e₃.Topmost x y) (moved.foldl Engine.markRebind e₃)
  /-- The view does not show marks. -/
  unseen : (moved.foldl Engine.markRebind e₃).nodes.Valid ∧
    (moved.foldl Engine.markRebind e₃).view = e₃.view
  /-- Then the loop is finished. -/
  finished : (finishLoop re c.parent spec c (.keyed instances)).Gives
    (moved.foldl Engine.markRebind e₃) (.ok ()) e'
  /-- What was gone when the instances were removed is gone in the end. -/
  later : (e₁.dropInstances old wanted.contains).view.Later e₃.view ∧ e₃.view.Later e'.view
  /-- There was no entry from inside, and the slots suffice. -/
  calm : e'.Calm

/-- No node that is there is reported as gone while the instances are put into order. -/
theorem orderChildren_buried (hre : re.Grounded) (hburied : e.Buried)
    {wanted : OrderedMap Key (Value × Value)} {p : List (Key × Instance) × List NodeId}
    (hwanted : (wantedItems re spec c items .empty).Gives (e.takeInstances id).2 (.ok wanted) e₁)
    (harranged : (arrangeInstances re spec c recursive old 0 wanted.entries).Gives
      (e₁.dropInstances old wanted.contains) (.ok p) e₂) :
    (e₂.orderChildren id ⟨p.1⟩).Buried := by
  have hclosed := Engine.buried_stable.closed
  have hburied₀ : (e.takeInstances id).2.Buried := hclosed.takeInstances id hburied
  have hburied₁ : e₁.Buried := wantedItems_keeps hclosed.evaluation (hre.operates.enters hclosed)
    spec c items .empty hwanted hburied₀
  have hburied₂ := hclosed.dropInstances old wanted.contains hburied₁
  have hburied₃ : e₂.Buried := arrangeInstances_keeps hclosed hre.operates spec c recursive old
    wanted.entries 0 harranged hburied₂
  exact hclosed.orderChildren id ⟨p.1⟩ hburied₃

/-- Bringing a loop in line with its items goes through the stages. -/
theorem reconcile_course (hre : re.Grounded) (hvalid : e.nodes.Valid) (hburied : e.Buried)
    (ht : e.shape.Tree root) (hsound : e.view.Sound busy) (habove : ∀ b ∈ busy, e.shape.Above b id)
    (hn : e.node? id = some n) (hkind : n.kind = .loop data) (hkeyed : data.isKeyed = true)
    (hold : (e.takeInstances id).1 = old)
    (h : (reconcile re id items recursive).Gives e (.ok ()) e') (hcalm : e'.Calm) :
    let c : Cursor := ⟨id, n.context, n.frame, e.namespaceAt id⟩
    ∃ wanted e₁ instances moved e₂ e₃,
      (wantedItems re data.spec c items .empty).Gives (e.takeInstances id).2 (.ok wanted) e₁ ∧
      e.view.Later e₁.view ∧ e₁.view = (e.takeInstances id).2.view ∧
        Course re recursive data.spec c root busy old wanted instances moved e₁ e₂ e₃ e' := by
  intro c
  have hview : e.view.shape id = some n.shape := Engine.view_of_node? hn
  have hparts : e.loopParts? id = some (data.spec, c) := by
    unfold Engine.loopParts?
    rw [hn, Option.bind_some, hkind]
  have hloop : n.shape.Repeats data.spec c :=
    ⟨⟨data, RenderNode.kind_shape_loop.2 hkind, rfl⟩, rfl⟩
  have hkeyed : n.shape.isKeyed = true := by
    rw [RenderNode.isKeyed_shape, RenderNode.isKeyed, hkind]
    exact hkeyed
  obtain ⟨wanted, e₁, ⟨arranged, moved⟩, e₂, hwanted, harranged, hfinished⟩ :=
    reconcile_gives hparts h
  rw [hold] at harranged
  have htaken : (step (·.takeInstances id)).Gives e (.ok old) (e.takeInstances id).2 :=
    gives_step.2 ⟨by rw [hold], rfl⟩
  -- the operations, one after another, keep the arena valid
  obtain ⟨hvalid₀, htake⟩ := (takeInstances_does data.spec c).gives htaken hvalid
  obtain ⟨hvalid₁, hfind⟩ := (wantedItems_does hre data.spec c items).gives hwanted hvalid₀
  obtain ⟨hvalid₂, hdrop⟩ := (dropInstances_does c data.spec old wanted.contains).gives
    (gives_change.2 ⟨rfl, rfl⟩) hvalid₁
  obtain ⟨hvalid₃, harrange⟩ := ((arrangeInstances_does hre data.spec c recursive old wanted.entries
    0).and (arrangeInstances_places hre data.spec c recursive old wanted.entries 0)).gives harranged
      hvalid₂
  obtain ⟨hvalid₄, horder⟩ := (orderChildren_does c data.spec ⟨arranged⟩).gives
    (gives_change.2 ⟨rfl, rfl⟩) hvalid₃
  obtain ⟨hvalid₅, hmark⟩ := (markRebind_does moved).gives (gives_change.2 ⟨rfl, rfl⟩) hvalid₄
  obtain ⟨-, hend⟩ := (endLoop_does hre data.spec c ⟨arranged⟩).gives hfinished hvalid₅
  -- as there is no entry from inside in the end, there was none before
  obtain ⟨hcalm₅, hend⟩ := hend hcalm
  obtain ⟨hcalm₄, hsame₅⟩ := hmark hcalm₅
  obtain ⟨hcalm₃, horder⟩ := horder hcalm₄
  obtain ⟨hcalm₂, harrange⟩ := harrange hcalm₃
  obtain ⟨hcalm₁, hdrop⟩ := hdrop hcalm₂
  obtain ⟨hcalm₀, hsame₁, hdistinct⟩ := hfind hcalm₁
  obtain ⟨-, htake⟩ := htake hcalm₀
  -- the loop is worked on from stage to stage
  obtain ⟨hchanged₁, hw₁⟩ := htake old rfl root busy n.shape ht hview hloop hkeyed hsound habove
  rw [← hsame₁] at hchanged₁ hw₁
  obtain ⟨-, hw₂⟩ := hdrop () rfl root busy hw₁
  obtain ⟨_, -, -, hlists⟩ := hw₁.node
  obtain ⟨hkept, hplaced⟩ := harrange _ rfl
  obtain ⟨hchanged₃, ha₃⟩ := hw₂.arranged hlists.distinct (hdistinct wanted rfl)
    (OrderedMap.contains_iff wanted) hkept
  obtain ⟨hchanged₄, hw₄⟩ := horder () rfl root busy ha₃
  have hw₅ := hw₄
  rw [← hsame₅] at hw₅
  obtain ⟨hchanged₆, -⟩ := hend () rfl root busy hw₅
  have hlater₆ := hchanged₆.later
  rw [hsame₅] at hlater₆
  have hburied₄ := orderChildren_buried hre hburied hwanted harranged
  exact ⟨wanted, e₁, ⟨arranged⟩, moved, e₂, e₂.orderChildren id ⟨arranged⟩, hwanted,
    hchanged₁.later, hsame₁, ⟨hvalid₁, hw₁⟩, hdistinct wanted rfl, hw₂, harranged, hkept, hplaced,
    ⟨rfl, hburied₄, hw₄⟩, Engine.marked_foldl_markRebind hvalid₄ hw₄.tree hburied₄.2 moved,
    ⟨hvalid₅, hsame₅⟩, hfinished, ⟨hchanged₃.later.trans hchanged₄.later, hlater₆⟩, hcalm⟩

/-! ## What the stages lead to -/

namespace Course

variable {wanted : OrderedMap Key (Value × Value)} {moved : List NodeId} {e₃ : Engine} {key : Key}
  {kept inst : Instance}

variable (h : Course re recursive spec c root busy old wanted instances moved e₁ e₂ e₃ e')
include h

/-- There is an instance for each key. -/
theorem keys : instances.keys = wanted.keys := (arrangeInstances_gives recursive _ h.arranged).keys

/-- No two instances have one key. -/
theorem distinct_instances : instances.Distinct := by
  unfold OrderedMap.Distinct
  rw [h.keys]
  exact h.distinct

/-- There are instances if there are keys. -/
theorem isEmpty_instances : (LoopState.keyed instances).isEmpty = wanted.keys.isEmpty := by
  rw [← h.keys]
  exact List.isEmpty_map.symm

/-- The loop is finished after its empty case was built, if it has one and there is no key. -/
theorem closing (hre : re.Grounded) : ∃ e₄,
    e' = e₄.modifyKind c.parent (keepState spec (.keyed instances)) ∧
    View.Grown root c.parent e₃.view e₄.view ∧
    (wanted.keys ≠ [] ∨ spec.empty = none → e₄ = moved.foldl Engine.markRebind e₃) ∧
    ∀ body, wanted.keys = [] → spec.empty = some body →
      (re.build body c).Gives (moved.foldl Engine.markRebind e₃) (.ok ()) e₄ := by
  obtain ⟨e₄, hset, hkey, hnone, hbuild⟩ := finishLoop_gives h.finished
  rw [h.isEmpty_instances] at hkey hbuild
  obtain ⟨hvalid, hview⟩ := h.unseen
  obtain ⟨-, -, hw⟩ := h.ordered
  have hsame (he : e₄ = moved.foldl Engine.markRebind e₃) :
      View.Grown root c.parent e₃.view e₄.view := by
    rw [he, hview]
    exact .refl hw.tree c.parent
  refine ⟨e₄, hset, ?_, fun hcase => ?_, fun body hkeys => hbuild body (List.isEmpty_iff.2 hkeys)⟩
  · cases hkeys : wanted.keys.isEmpty with
    | false => exact hsame (hkey hkeys)
    | true =>
      cases hbody : spec.empty with
      | none => exact hsame (hnone hbody)
      | some body =>
        have hcalm : e₄.Calm := by
          have hcalm := h.calm
          rw [hset] at hcalm
          exact ⟨hcalm.1, (Arena.roomy_modify c.parent _).1 hcalm.2⟩
        have hgrows := (hre.build body c).spec (hbuild body hkeys hbody) hcalm hvalid
        rw [hview] at hgrows
        exact (hgrows hw.admits root hw.tree).1
  · rcases hcase with hkeys | hnobody
    · exact hkey (Bool.eq_false_iff.2 fun hempty => hkeys (List.isEmpty_iff.1 hempty))
    · exact hnone hnobody

/-- With a key, finishing the loop changes its data only. -/
theorem finish (hre : re.Grounded) (hkey : wanted.keys ≠ []) :
    e' = (moved.foldl Engine.markRebind e₃).modifyKind c.parent
      (keepState spec (.keyed instances)) := by
  obtain ⟨e₄, hset, -, hsame, -⟩ := h.closing hre
  rw [hset, hsame (.inl hkey)]

/-- The loop keeps the instances. -/
theorem node (hre : re.Grounded) : ∃ n, e'.node? c.parent = some n ∧
    n.kind = .loop ⟨spec, .keyed instances, wanted.keys.isEmpty && spec.empty.isSome⟩ := by
  obtain ⟨e₄, hset, hgrown, -⟩ := h.closing hre
  obtain ⟨-, -, hw⟩ := h.ordered
  obtain ⟨n, hn, hloop, -⟩ := hw.node
  obtain ⟨data, hdata, rfl⟩ := hloop.data
  obtain ⟨n', hn', hkind, -⟩ := hgrown.node hn
  obtain ⟨m, hm, rfl⟩ := Engine.node?_of_shape hn'
  have hkind : m.kind = .loop data := RenderNode.kind_shape_loop.1 (hkind.trans hdata)
  rw [hset, Engine.modifyKind, Engine.node?_modifyNode, if_pos rfl, hm]
  refine ⟨_, rfl, ?_⟩
  dsimp only
  rw [hkind, ← h.isEmpty_instances]
  rfl

/-- With a key, the nodes that are there in the end are those that are there when the instances are in
order. -/
theorem contains (hre : re.Grounded) (hkey : wanted.keys ≠ []) (x : NodeId) :
    e'.contains x = e₃.contains x := by
  rw [h.finish hre hkey, ← h.marked.contains x, Engine.contains_modifyKind]

/-- With a key, the children are what is left of the nodes of the instances. -/
theorem children (hre : re.Grounded) (hkey : wanted.keys ≠ []) :
    e'.childrenOf c.parent = instances.nodes.filter e'.contains := by
  obtain ⟨-, -, hw⟩ := h.ordered
  obtain ⟨n, hn, -, hlists⟩ := hw.node
  have hlive : e'.contains = e₃.view.live :=
    funext fun x => (h.contains hre hkey x).trans (Engine.live_view e₃ x).symm
  rw [hlive, ← hlists.children_eq, h.finish hre hkey, Engine.childrenOf_modifyKind]
  rw [← h.unseen.2] at hn
  exact Engine.childrenOf_view hn

/-- Without a key, there are no children when the instances are in order. -/
theorem no_children (hkeys : wanted.keys = []) :
    (moved.foldl Engine.markRebind e₃).childrenOf c.parent = [] := by
  obtain ⟨-, -, hw⟩ := h.ordered
  obtain ⟨n, hn, -, hlists⟩ := hw.node
  have hnone : instances.entries = [] := by
    rw [← h.keys] at hkeys
    exact List.map_eq_nil_iff.1 hkeys
  rw [← h.unseen.2] at hn
  rw [Engine.childrenOf_view hn, hlists.children_eq, OrderedMap.nodes, OrderedMap.values, hnone]
  rfl

/-- What is built new at the end was not there when the instances of before were taken out. -/
theorem later₃ : e₁.view.Later e₃.view :=
  (Engine.Operates.later (fun _ hI he => hI.closed.dropInstances old wanted.contains he)
    h.taken.1).trans h.later.1

/-- Without a key, the children are those of the empty case, which are new. -/
theorem shown (hre : re.Grounded) (hkeys : wanted.keys = []) {body : Body}
    (hbody : spec.empty = some body) : ∃ e₄,
      (re.build body c).Gives (moved.foldl Engine.markRebind e₃) (.ok ()) e₄ ∧
      e'.childrenOf c.parent = e₄.childrenOf c.parent ∧
      ∀ x ∈ e'.childrenOf c.parent, (e₁.view.live x = false ∧ ¬e₁.view.spent x) ∧
        e'.contains x = true := by
  obtain ⟨e₄, hset, hgrown, -, hbuild⟩ := h.closing hre
  have hsame : e'.childrenOf c.parent = e₄.childrenOf c.parent := by
    rw [hset, Engine.childrenOf_modifyKind]
  refine ⟨e₄, hbuild body hkeys hbody, hsame, fun x hx => ?_⟩
  obtain ⟨-, -, hw⟩ := h.ordered
  obtain ⟨n, hn, -⟩ := hw.node
  obtain ⟨new, hnew⟩ := hgrown.extends_children
  have hn₄ := hnew.old c.parent n hn
  have hnone : n.children = [] := by
    rw [← Engine.childrenOf_view (h.unseen.2 ▸ hn : (moved.foldl Engine.markRebind e₃).view.shape
      c.parent = some n)]
    exact h.no_children hkeys
  rw [if_pos rfl, hnone, List.nil_append] at hn₄
  rw [hsame, Engine.childrenOf_view hn₄] at hx
  have hlive : e₄.view.live x = true := View.live_of_child hgrown.tree hn₄ hx
  refine ⟨h.later₃.fresh ⟨?_, fun hspent => ?_⟩, ?_⟩
  · rw [View.live, hnew.fresh hw.tree hgrown.tree hn hx]
    rfl
  · rw [View.live_of_spent (hgrown.later.spent x hspent)] at hlive
    cases hlive
  · rw [hset, Engine.contains_modifyKind, ← Engine.live_view]
    exact hlive

/-- An instance whose key is wanted keeps its nodes. -/
theorem survives (hre : re.Grounded) (hkept : old.get? key = some kept)
    (hkey : key ∈ wanted.keys) (hx : x ∈ kept.nodes) : e'.contains x = e₁.contains x := by
  have hwanted := OrderedMap.contains_iff wanted
  obtain ⟨hordered, -, -⟩ := h.ordered
  rw [h.contains hre (List.ne_nil_of_mem hkey), hordered]
  calc (e₂.orderChildren c.parent instances).contains x
    _ = e₂.view.live x := by
      rw [Engine.live_view]
      exact Arena.contains_modify c.parent x _
    _ = (e₁.dropInstances old wanted.contains).view.live x :=
      h.dropped.survives hwanted h.arranges hkey hkept hx
    _ = e₁.view.live x := Engine.dropInstances_survives h.taken.1 h.taken.2 wanted.contains
      (OrderedMap.mem_of_find? hkept) ((hwanted key).2 hkey) hx
    _ = e₁.contains x := Engine.live_view e₁ x

/-- The other instances go with everything under their nodes. -/
theorem gone (hinst : old.get? key = some inst) (hkey : key ∉ wanted.keys) (hx : x ∈ inst.nodes)
    (hy : y = x ∨ e₁.shape.Above x y) : e'.contains y = false := by
  have hmem := OrderedMap.mem_of_find? hinst
  have hunwanted : wanted.contains key = false :=
    Bool.eq_false_iff.2 fun hc => hkey ((OrderedMap.contains_iff wanted key).1 hc)
  obtain ⟨hvalid, hw⟩ := h.taken
  obtain ⟨n, -, -, hlists⟩ := hw.node
  have hknown : e₁.view.live y = true ∨ e₁.view.spent y := by
    rcases hy with rfl | ha
    · exact hlists.known y (OrderedMap.mem_nodes hmem hx)
    · exact .inl (View.live_iff.2 (Forest.Above.live ha))
  have hdead : (e₁.dropInstances old wanted.contains).view.live y ≠ true := fun hlive =>
    ((Engine.live_dropInstances hvalid hw wanted.contains y).1 hlive).2 key inst hmem hunwanted x hx
      hy
  have hlater : e₁.view.Later (e₁.dropInstances old wanted.contains).view :=
    Engine.Operates.later (fun I hI he => hI.closed.dropInstances old wanted.contains he) hvalid
  have hspent : (e₁.dropInstances old wanted.contains).view.spent y := by
    rcases hknown with hlive | hspent
    · exact (hlater.known y hlive).resolve_left hdead
    · exact hlater.spent y hspent
  rw [← Engine.live_view]
  exact View.live_of_spent (h.later.2.spent y (h.later.1.spent y hspent))

/-- The nodes that are built for a key are new. -/
theorem fresh (hre : re.Grounded) (hinst : instances.get? key = some inst)
    (hnone : old.get? key = none) (hx : x ∈ inst.nodes) :
    (e₁.view.live x = false ∧ ¬e₁.view.spent x) ∧ e'.contains x = true := by
  have hmem := OrderedMap.mem_of_find? hinst
  have hkey : wanted.keys ≠ [] := by
    rw [← h.keys]
    exact List.ne_nil_of_mem (List.mem_map_of_mem (f := (·.1)) hmem)
  obtain ⟨hordered, -, -⟩ := h.ordered
  obtain ⟨hfresh, hlive⟩ := h.dropped.places (OrderedMap.contains_iff wanted) h.places hmem hnone hx
  have hlater : e₁.view.Later (e₁.dropInstances old wanted.contains).view :=
    Engine.Operates.later (fun I hI he => hI.closed.dropInstances old wanted.contains he) h.taken.1
  refine ⟨hlater.fresh hfresh, ?_⟩
  rw [h.contains hre hkey, hordered, ← hlive, Engine.live_view]
  exact Arena.contains_modify c.parent x _

/-- An instance whose key is wanted is kept. -/
theorem get?_kept (hkept : old.get? key = some kept) (hkey : key ∈ wanted.keys) :
    instances.get? key = some kept := by
  rw [← h.keys] at hkey
  obtain ⟨⟨_, inst⟩, hmem, rfl⟩ := List.mem_map.1 hkey
  rw [← (arrangeInstances_gives recursive _ h.arranged).kept _ inst kept hmem hkept]
  exact OrderedMap.find?_of_mem h.distinct_instances hmem

/-- The instance of a key that had none was built from the item of the key. -/
theorem built (hinst : instances.get? key = some inst) (hnone : old.get? key = none) :
    ∃ identity item e₁ e₂, wanted.get? key = some (identity, item) ∧
      (buildInstance re spec c item (wanted.keys.idxOf key) (some identity)).Gives e₁ (.ok inst)
        e₂ := by
  have hkey : key ∈ wanted.keys := by
    rw [← h.keys]
    exact List.mem_map_of_mem (f := (·.1)) (OrderedMap.mem_of_find? hinst)
  obtain ⟨⟨identity, item⟩, hfound⟩ :=
    Option.isSome_iff_exists.1 ((OrderedMap.contains_iff wanted key).2 hkey)
  obtain ⟨inst', e₃, e₄, hmem, hbuilt⟩ := (arrangeInstances_gives recursive _ h.arranged).built
    (wanted.keys.idxOf key) key identity item (wanted.getElem?_idxOf h.distinct hfound) hnone
  have hsame : instances.get? key = some inst' := OrderedMap.find?_of_mem h.distinct_instances hmem
  obtain rfl := Option.some.inj (hinst.symm.trans hsame)
  rw [Nat.zero_add] at hbuilt
  exact ⟨identity, item, e₃, e₄, hfound, hbuilt⟩

/-- The nodes that are marked stand for the instances that have another place. -/
theorem mem_moved : x ∈ moved ↔ ∃ key kept, old.Moves wanted.keys key kept ∧ x ∈ kept.nodes := by
  rw [(arrangeInstances_gives recursive _ h.arranged).mem_moved]
  constructor
  · rintro ⟨i, key, kept, hi, hkept, hplace, hx⟩
    rw [Nat.zero_add, ← List.idxOf?_of_getElem? h.distinct hi] at hplace
    exact ⟨key, kept, ⟨hkept, List.mem_of_getElem? hi, hplace⟩, hx⟩
  · rintro ⟨key, kept, ⟨hkept, hkey, hplace⟩, hx⟩
    obtain ⟨i, hi⟩ := List.getElem?_of_mem hkey
    rw [List.idxOf?_of_getElem? h.distinct hi] at hplace
    exact ⟨i, key, kept, hi, hkept, by rwa [Nat.zero_add], hx⟩

/-- What is marked are the outermost reportable nodes of the instances that have another place. -/
theorem marked_moves : e₃.Marked (fun y => ∃ key kept, old.Moves wanted.keys key kept ∧
    ∃ x ∈ kept.nodes, e₃.Topmost x y) (moved.foldl Engine.markRebind e₃) := by
  refine h.marked.congr fun y => ?_
  constructor
  · rintro ⟨x, hx, htop⟩
    obtain ⟨key, kept, hmoves, hx⟩ := h.mem_moved.1 hx
    exact ⟨key, kept, hmoves, x, hx, htop⟩
  · rintro ⟨key, kept, hmoves, x, hx, htop⟩
    exact ⟨x, h.mem_moved.2 ⟨key, kept, hmoves, hx⟩, htop⟩

/-- No node of an instance that has its place is marked. -/
theorem spared (hinst : instances.get? key = some inst) (hstays : ¬old.Moves wanted.keys key inst)
    (hx : x ∈ inst.nodes) (hy : y = x ∨ e₃.shape.Above x y) :
    (moved.foldl Engine.markRebind e₃).node? y = e₃.node? y := by
  refine h.marked_moves.other y ?_
  rintro ⟨key', kept, hmoves, x', hx', htop⟩
  have hkept := h.get?_kept hmoves.1 hmoves.2.1
  have hne : key ≠ key' := by
    rintro rfl
    rw [Option.some.inj (hinst.symm.trans hkept)] at hstays
    exact hstays hmoves
  exact Engine.not_topmost_of_other h.ordered.2.2 (OrderedMap.mem_of_find? hinst) hx hy
    (OrderedMap.mem_of_find? hkept) hne hx' htop

/-- The outermost reportable nodes of an instance that has another place are reported as moved. -/
theorem reported (hre : re.Grounded) (hmoves : old.Moves wanted.keys key kept)
    (hx : x ∈ kept.nodes) (htop : e'.Topmost x y) :
    (∃ n, e'.node? y = some n ∧ n.flags.rebind = true) ∧
      (y ∈ e'.shot.updated.toList ∨ y ∈ e'.shot.created.toList) := by
  have hfinish := h.finish hre (List.ne_nil_of_mem hmoves.2.1)
  have hmarked := h.marked_moves
  generalize moved.foldl Engine.markRebind e₃ = e₄ at hfinish hmarked
  subst hfinish
  -- finishing the loop and marking leave the outermost reportable nodes
  have htop₄ : e₄.Topmost x y := htop.congr
    (fun a z => (Engine.above_modifyKind e₄ c.parent a z _).symm)
    fun z => (Engine.isReportable_modifyKind e₄ c.parent z _).symm
  have htop₃ : e₃.Topmost x y := htop₄.congr (fun a z => by rw [hmarked.shape])
    fun z => (hmarked.isReportable z).symm
  obtain ⟨n, hn, -⟩ := Engine.isReportable_iff.1 htop₃.reportable
  have hn₄ := hmarked.marked y n ⟨key, kept, hmoves, x, hx, htop₃⟩ hn
  constructor
  · rw [Engine.modifyKind, Engine.node?_modifyNode]
    split
    · rename_i hy
      rw [← hy, hn₄]
      exact ⟨_, rfl, rfl⟩
    · exact ⟨_, hn₄, rfl⟩
  · change y ∈ e₄.shot.updated.toList ∨ y ∈ e₄.shot.created.toList
    rw [hmarked.updated, hmarked.created]
    by_cases hnew : y ∈ e₃.shot.created.toList
    · exact .inr hnew
    · exact .inl (.inr ⟨⟨key, kept, hmoves, x, hx, htop₃⟩, hnew⟩)

/-- Without a key and an empty case there are no children. -/
theorem vacant (hre : re.Grounded) (hkeys : wanted.keys = []) (hbody : spec.empty = none) :
    e'.childrenOf c.parent = [] := by
  obtain ⟨e₄, hset, -, hsame, -⟩ := h.closing hre
  rw [hset, Engine.childrenOf_modifyKind, hsame (.inr hbody)]
  exact h.no_children hkeys

/-- What goes when the instances of before are taken out is gone. -/
theorem dead (hlater : e.view.Later e₁.view) (hx : e.view.live x = true)
    (hdead : e₁.view.live x = false) : e'.contains x = false := by
  have hspent := (hlater.known x hx).resolve_left (ne_true_of_eq_false hdead)
  rw [← Engine.live_view]
  exact View.live_of_spent (h.later.2.spent x (h.later₃.spent x hspent))

end Course

end Render
end ReactiveView
