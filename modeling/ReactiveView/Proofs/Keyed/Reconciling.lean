import ReactiveView.Proofs.Keyed.Stages

/-!
# Bringing loops in line with their items

What reconciliation leaves behind (`Reconciled`), whatever the items are and whenever it happens
(`Engine.Stands.reconciled`).
-/

namespace ReactiveView

/-- What bringing a loop in line with its items does. The loop builds at the cursor `c`, it had the
instances `old` and has the instances `instances` afterwards; `found` are its items with their keys and
identities, and `w` are the keys, each at its first place. -/
structure Reconciled (re : Reentry) (recursive : Bool) (spec : LoopSpec) (c : Cursor)
    (old : OrderedMap Key Instance) (showing : Bool) (found : List ((Key × Value) × Value))
    (w : List Key) (instances : OrderedMap Key Instance) (e e' : Engine) : Prop where
  /-- There is an instance for each key, in the order of the keys. -/
  keys : instances.keys = w
  /-- The loop keeps the instances. -/
  state : ∃ n, e'.node? c.parent = some n ∧
    n.kind = .loop ⟨spec, .keyed instances, w.isEmpty && spec.empty.isSome⟩
  /-- Its children are what is left of the nodes of the instances, in their order. -/
  children : w ≠ [] → e'.childrenOf c.parent = instances.nodes.filter e'.contains
  /-- An instance whose key is wanted stays with its nodes, none of which goes or is new. -/
  kept : ∀ key kept, old.get? key = some kept → key ∈ w → instances.get? key = some kept ∧
    ∀ x ∈ kept.nodes, e'.contains x = e.contains x ∧
      (x ∈ e'.shot.created.toList → x ∈ e.shot.created.toList) ∧
        (x ∈ e'.shot.deleted.toList → x ∈ e.shot.deleted.toList)
  /-- The nodes of the other instances are gone, with everything that was under them. -/
  gone : ∀ key inst, old.get? key = some inst → key ∉ w → ∀ x ∈ inst.nodes,
    ∀ y, y = x ∨ e.shape.Above x y → e'.contains y = false
  /-- A key that had no instance has one that was built from the first item of the key, at the place
  of the key. Its nodes are new. -/
  built : ∀ key inst, instances.get? key = some inst → old.get? key = none →
    (∃ identity item e₁ e₂, found.find? (·.1.1 == key) = some ((key, identity), item) ∧
      (Render.buildInstance re spec c item (w.idxOf key) (some identity)).Gives e₁ (.ok inst) e₂) ∧
        ∀ x ∈ inst.nodes, e.IsNew x ∧ e'.contains x = true
  /-- The outermost reportable nodes of an instance that has another place are reported as moved. -/
  moved : ∀ key kept, old.Moves w key kept → ∀ x ∈ kept.nodes, ∀ y, e'.Topmost x y →
    (∃ n, e'.node? y = some n ∧ n.flags.rebind = true) ∧
      (y ∈ e'.shot.updated.toList ∨ y ∈ e'.shot.created.toList)
  /-- They are marked once the instances are arranged and in order, before the loop is finished. This
  marks no other node, and none of another instance. -/
  marking : ∃ wanted e₁ nodes e₂ e₃ e₄,
    (Render.arrangeInstances re spec c recursive old 0 wanted).Gives e₁
      (.ok (instances.entries, nodes)) e₂ ∧
    e₃ = e₂.orderChildren c.parent instances ∧ e₄ = nodes.foldl Engine.markRebind e₃ ∧
    e₃.Marked (fun y => ∃ key kept, old.Moves w key kept ∧ ∃ x ∈ kept.nodes, e₃.Topmost x y) e₄ ∧
    (∀ key inst, instances.get? key = some inst → ¬old.Moves w key inst → ∀ x ∈ inst.nodes, ∀ y,
      y = x ∨ e₃.shape.Above x y → e₄.node? y = e₃.node? y) ∧
    (Render.finishLoop re c.parent spec c (.keyed instances)).Gives e₄ (.ok ()) e'
  /-- Without an item the children are one build of the empty case, of which all nodes are new. -/
  empty : w = [] → ∀ body, spec.empty = some body → ∃ e₁ e₂, e₁.childrenOf c.parent = [] ∧
    (re.build body c).Gives e₁ (.ok ()) e₂ ∧ e'.childrenOf c.parent = e₂.childrenOf c.parent ∧
      ∀ x ∈ e'.childrenOf c.parent, e.IsNew x ∧ e'.contains x = true
  /-- Without an item and an empty case there are no children. -/
  vacant : w = [] → spec.empty = none → e'.childrenOf c.parent = []
  /-- An empty case that was shown is gone, with everything that was under the loop. -/
  unshown : showing = true → ∀ y, e.shape.Above c.parent y → e'.contains y = false

namespace Render

variable {e e' : Engine} {id x : NodeId} {items : List Value} {recursive : Bool}

/-- A node that is known, and stays there or stays gone, is reported neither as new nor as gone. -/
theorem reconcile_spares {depth : Nat} (hburied : e.Buried)
    (hgives : (reconcile (.within depth) id items recursive).Gives e (.ok ()) e')
    (hroom : e'.nodes.Roomy) (hknown : e.contains x = true ∨ e.nodes.Spent x)
    (hsame : e'.contains x = e.contains x) :
    (x ∈ e'.shot.created.toList → x ∈ e.shot.created.toList) ∧
      (x ∈ e'.shot.deleted.toList → x ∈ e.shot.deleted.toList) := by
  have hkeeps {I : Engine → Prop} (hI : Engine.OperationStable I) : I e → I e' :=
    reconcile_keeps hI.closed (Reentry.within_grounded depth).operates id items recursive hgives
  constructor
  · refine fun hnew' => by_contra fun hold => ?_
    have hstays := hkeeps (Engine.notNew_stable x) fun _ => ⟨⟨hburied.1, hknown⟩, hold⟩
    exact (hstays hroom).2 hnew'
  · refine fun hgone' => by_contra fun hold => ?_
    have hspent' : e'.nodes.Spent x := (hkeeps Engine.buried_stable hburied).2 x hgone'
    have hdead : e'.contains x = false := by
      rw [← Engine.live_view]
      exact View.live_of_spent hspent'
    rcases hknown with hlive | hspent
    · exact Bool.false_ne_true (hdead.symm.trans (hsame.trans hlive))
    · exact (hkeeps (Engine.gone_stable x) ⟨⟨hburied.1, hspent⟩, hold⟩).2 hgone'

end Render

/-! ## Reconciliation -/

/-- A poll that does not fail changes the token only. -/
theorem Act.of_gives_poll_ok {e e' : Engine} (h : Act.Gives Act.poll e (.ok ()) e') :
    e' = e.poll.2 := by
  unfold Act.poll at h
  rw [Act.gives_step_bind] at h
  split at h
  · cases (Act.gives_throw.1 h).1
  · exact (Act.gives_pure.1 h).2

/-- Evaluate the items of a loop that is updated. -/
def Render.updatedItems (re : Reentry) (id : NodeId) : Act (List Value) := do
  Act.poll
  Act.change (·.purge id)
  loopItems re id

/-- Evaluating the items of a loop only evaluates. -/
theorem Render.evaluates_updatedItems (re : Reentry) (id : NodeId) :
    (updatedItems re id).Evaluates re := fun _ h hen =>
  Act.keeps_bind (Act.keeps_poll fun _ he => h.tracking.poll he) fun _ =>
    Act.keeps_bind (Act.keeps_change fun _ he => h.purge id he) fun _ =>
      loopItems_keeps h.tracking hen trivial

namespace Engine

variable {e e' : Engine} {id : NodeId} {n : RenderNode} {data : LoopData}
  {depth : Nat} {items : List Value} {recursive : Bool}

/-- Bringing a loop with identities in line with items leaves it as it should be. -/
theorem InOrder.reconciles (h : e.InOrder id) (hn : e.node? id = some n)
    (hkind : n.kind = .loop data) (hidentity : data.isKeyed = true)
    (hgives : (Render.reconcile (.within depth) id items recursive).Gives e (.ok ()) e')
    (hcalm : e'.Calm) :
    let c : Cursor := ⟨id, n.context, n.frame, e.namespaceAt id⟩
    ∃ old keyed e₀ instances, data.state = .keyed old ∧
      (items.mapM (Render.loopKey (.within depth) data.spec c)).Gives (e.takeInstances id).2
        (.ok keyed) e₀ ∧ keyed.length = items.length ∧
      Reconciled (.within depth) recursive data.spec c old data.showingEmpty (keyed.zip items)
        (keyed.map (·.1)).eraseDups instances e e' := by
  intro c
  have hre := Reentry.within_grounded depth
  obtain ⟨hburied, root, busy, ht, hsound, habove⟩ := h
  have hkept : e.view.Kept n.shape := hsound id n.shape (Engine.view_of_node? hn)
    fun hb => ht.above_irrefl (habove id hb)
  obtain ⟨old, hstate, -⟩ := hkept data (RenderNode.kind_shape_loop.2 hkind) hidentity
  obtain ⟨hold, htaken⟩ := Engine.takeInstances_taken hburied.1 ht hn hkind hidentity hstate hkept
  obtain ⟨wanted, e₁, instances, moved, e₂, e₃, hwanted, hlater, hview, h⟩ :=
    Render.reconcile_course hre hburied.1 hburied ht hsound habove hn hkind hidentity hold hgives
      hcalm
  obtain ⟨keyed, hkeyed, hlength, hkeys, hfound⟩ := Render.wantedItems_firsts hwanted
  rw [← hview] at htaken
  refine ⟨old, keyed, e₁, instances, hstate, hkeyed, hlength, ?_⟩
  rw [← hkeys]
  -- with an instance of before, taking the instances out leaves the nodes
  have hquiet {key : Key} {kept : Instance} (hget : old.get? key = some kept) :
      (∀ y, e₁.view.live y = e.view.live y) ∧
        ∀ a y, e₁.view.shape.Above a y ↔ e.view.shape.Above a y := by
    split at htaken
    · rw [htaken.1] at hget
      cases hget
    · exact htaken
  exact {
    keys := h.keys
    state := h.node hre
    children := h.children hre
    kept := by
      intro key kept hget hkey
      refine ⟨h.get?_kept hget hkey, fun x hx => ?_⟩
      have hsame : e'.contains x = e.contains x := by
        rw [h.survives hre hget hkey hx, ← Engine.live_view, (hquiet hget).1, Engine.live_view]
      have hknown := hkept.known (RenderNode.kind_shape_loop.2 hkind) hidentity hstate
        (OrderedMap.mem_nodes (OrderedMap.mem_of_find? hget) hx)
      rw [Engine.live_view] at hknown
      exact ⟨hsame, Render.reconcile_spares hburied hgives hcalm.2 hknown hsame⟩
    gone := fun key inst hget hkey x hx y hy =>
      h.gone hget hkey hx (hy.imp_right ((hquiet hget).2 x y).2)
    built := by
      intro key inst hget hnone
      refine ⟨?_, fun x hx => ?_⟩
      · obtain ⟨identity, item, e₄, e₅, hitem, hbuilt⟩ := h.built hget hnone
        exact ⟨identity, item, e₄, e₅, hfound key identity item hitem, hbuilt⟩
      · obtain ⟨hfresh, hlive⟩ := h.fresh hre hget hnone hx
        exact ⟨Engine.isNew_view.2 (hlater.fresh hfresh), hlive⟩
    moved := fun key kept hmoves x hx y htop => h.reported hre hmoves hx htop
    marking := by
      obtain ⟨hordered, -, -⟩ := h.ordered
      exact ⟨wanted.entries, e₁.dropInstances old wanted.contains, moved, e₂, e₃, _, h.arranged,
        hordered, rfl, h.marked_moves,
        fun key inst hget hstays x hx y hy => h.spared hget hstays hx hy, h.finished⟩
    empty := by
      intro hnone body hbody
      obtain ⟨e₄, hbuilt, hsame, hnew⟩ := h.shown hre hnone hbody
      exact ⟨_, e₄, h.no_children hnone, hbuilt, hsame, fun x hx =>
        ⟨Engine.isNew_view.2 (hlater.fresh (hnew x hx).1), (hnew x hx).2⟩⟩
    vacant := h.vacant hre
    unshown := by
      intro hshowing y hy
      rw [if_pos hshowing] at htaken
      refine h.dead hlater ?_ (htaken.2 y hy)
      exact View.live_iff.2 (Forest.Above.live hy)
  }

/-- An update of a loop with identities evaluates its items, which leaves the tree in order, and
brings it in line with them. -/
theorem InOrder.updateNode_reconciles (h : e.InOrder id) (hn : e.node? id = some n)
    (hkind : n.kind = .loop data) (hidentity : data.isKeyed = true)
    (hgives : (Render.updateNode (.within depth) id recursive).Gives e (.ok ()) e')
    (hcalm : e'.Calm) : ∃ items e₁ n₁,
      (Render.updatedItems (.within depth) id).Gives e (.ok items) e₁ ∧
      e₁.view = e.view ∧ e₁.InOrder id ∧ e₁.node? id = some n₁ ∧ n₁.kind = .loop data ∧
        (Render.reconcile (.within depth) id items recursive).Gives e₁ (.ok ()) e' := by
  have hre := Reentry.within_grounded depth
  obtain ⟨hburied, root, busy, ht, hsound, habove⟩ := h
  obtain ⟨_, e₀, hpoll, hgives⟩ := Act.of_gives_bind_ok hgives
  obtain rfl := Act.of_gives_poll_ok hpoll
  rw [Act.gives_read_bind, show e.poll.2.node? id = some n from hn] at hgives
  dsimp only at hgives
  rw [hkind] at hgives
  dsimp only at hgives
  rw [Act.gives_change_bind] at hgives
  obtain ⟨items, e₁, hitems, hgives⟩ := Act.of_gives_bind_ok hgives
  rw [if_pos hidentity] at hgives
  -- evaluating leaves the view, and reports nothing as gone
  have hevaluates := Render.evaluates_updatedItems (.within depth) id
  have hevaluated : (Render.updatedItems (.within depth) id).Gives e (.ok items) e₁ := by
    refine Act.gives_bind.2 (.inl ⟨_, _, hpoll, ?_⟩)
    rwa [Act.gives_change_bind]
  obtain ⟨hvalid₁, hsame⟩ := (Act.does_evaluation hre.operates hevaluates).gives hevaluated hburied.1
  obtain ⟨hcalm₁, -⟩ := ((Render.reconcile_does hre id items recursive).gives hgives hvalid₁).2 hcalm
  obtain ⟨-, hview⟩ := hsame hcalm₁
  have hburied₁ : e₁.Buried := hevaluates _ buried_stable.evaluation
    (hre.operates.enters buried_stable.closed) hevaluated hburied
  have hn₁ : e₁.view.shape id = some n.shape := by
    rw [hview]
    exact view_of_node? hn
  obtain ⟨n₁, hn₁, hshape⟩ := node?_of_shape hn₁
  have hkind₁ : n₁.kind = .loop data := by
    rw [← RenderNode.kind_shape_loop, hshape]
    exact RenderNode.kind_shape_loop.2 hkind
  refine ⟨items, e₁, n₁, hevaluated, hview, ⟨hburied₁, root, busy, ?_⟩, hn₁, hkind₁, hgives⟩
  rw [show e₁.shape = e.shape from congrArg View.shape hview, hview]
  exact ⟨ht, hsound, habove⟩

/-- Whatever the items of a loop with identities are, bringing the loop in line with them leaves it
as it should be. -/
theorem Stands.reconciled (hstands : e.Stands id) (hn : e.node? id = some n)
    (hkind : n.kind = .loop data) (hidentity : data.isKeyed = true)
    (hgives : (Render.reconcile (.within depth) id items recursive).Gives e (.ok ()) e')
    (hentries : e'.entries = 0) (hroom : e'.nodes.Roomy) :
    let c : Cursor := ⟨id, n.context, n.frame, e.namespaceAt id⟩
    ∃ old keyed e₀ instances, data.state = .keyed old ∧
      (items.mapM (Render.loopKey (.within depth) data.spec c)).Gives (e.takeInstances id).2
        (.ok keyed) e₀ ∧ keyed.length = items.length ∧
      Reconciled (.within depth) recursive data.spec c old data.showingEmpty (keyed.zip items)
        (keyed.map (·.1)).eraseDups instances e e' := by
  have hcalm : e.Calm := Classical.byContradiction fun hwild =>
    (Render.reconcile_does (Reentry.within_grounded depth) id items recursive).calm hgives hwild
      ⟨hentries, hroom⟩
  exact (hstands.order hcalm).reconciles hn hkind hidentity hgives ⟨hentries, hroom⟩

/-- Of two items the first goes, the second moves to the front, and a third comes. -/
theorem Stands.reconciled_list :
    let host : Host :=
      { library :=
        { registry :=
          { sources := .ofList
              [("Main", "\x7b\x7b!#for x in xs # x\x7d\x7d<b>{{!x}}</b>{{!/for}}")] } } }
    let e := host.start.after 9 [.mount "Main" (.ofList [("xs", .list [.str "a", .str "b"])])]
    let items : List Value := [.str "b", .str "c", .str "b"]
    e.childrenOf ⟨1, 0⟩ = [⟨2, 0⟩, ⟨3, 0⟩] ∧ ∃ e',
      (Render.reconcile (.within 9) ⟨1, 0⟩ items false).Gives e (.ok ()) e' ∧
      e'.childrenOf ⟨1, 0⟩ = [⟨3, 0⟩, ⟨2, 1⟩] ∧
        ∃ spec c old showing found w instances,
          Reconciled (.within 9) false spec c old showing found w instances e e' := by
  intro host e items
  obtain ⟨rs, hrun, hok⟩ := runs_after_ok 9
    [.mount "Main" (.ofList [("xs", .list [.str "a", .str "b"])])] host.start (by decide +kernel)
  have hchildren : e.childrenOf ⟨1, 0⟩ = [⟨2, 0⟩, ⟨3, 0⟩] := by decide +kernel
  have hloop : (e.node? ⟨1, 0⟩).any (·.isKeyed) = true := by decide +kernel
  have hgood : ((Render.reconcile (.within 9) ⟨1, 0⟩ items false).runOn e).any (fun p =>
      p.1.isOk && (p.2.childrenOf ⟨1, 0⟩ == [⟨3, 0⟩, ⟨2, 1⟩] && (p.2.entries == 0 &&
        p.2.nodes.slots.size < UInt32.size))) = true := by decide +kernel
  change host.start.Runs _ rs e at hrun
  clear_value e
  obtain ⟨n, hn, hdata⟩ := (Option.any_eq_true _ _).1 hloop
  obtain ⟨⟨r, e'⟩, hgives, hgood⟩ := (Option.any_eq_true _ _).1 hgood
  simp only [Bool.and_eq_true, beq_iff_eq, decide_eq_true_eq] at hgood
  obtain ⟨hr, hchildren', hentries, hroom⟩ := hgood
  unfold RenderNode.isKeyed at hdata
  split at hdata
  · rename_i data hkind
    obtain _ | ⟨⟨⟩⟩ := r
    · cases hr
    obtain ⟨old, keyed, e₀, instances, -, -, -, hreconciled⟩ := Stands.reconciled
      (.reached hrun (by simp [Operation.builds]) hok) hn hkind hdata hgives hentries hroom
    exact ⟨hchildren, e', hgives, hchildren', _, _, _, _, _, _, _, hreconciled⟩
  · cases hdata

/-! ## Trees that are not in order -/

/-- The instances that a node keeps, if it is a loop with identities. -/
def instancesOf? (e : Engine) (id : NodeId) : Option (OrderedMap Key Instance) :=
  match (e.node? id).map (·.kind) with
  | some (RenderKind.loop data) =>
    match data.state with
    | .keyed instances => some instances
    | _ => none
  | _ => none

/-- After operations, bringing a loop in line with no items leaves a node that was under a node of
one of its instances. -/
def LeavesBehind (host : Host) (ops : List Operation) (y : NodeId) : Prop :=
  ∃ rs e e' old x, host.start.Runs ops rs e ∧
    (Render.reconcile (.within 9) ⟨1, 0⟩ [] false).Gives e (.ok ()) e' ∧ e'.entries = 0 ∧
      e.instancesOf? ⟨1, 0⟩ = some old ∧ x ∈ old.nodes ∧ e.shape.Above x y ∧
        e'.contains y = true

/-- A node that is left behind is found by running the operations. -/
theorem leavesBehind_of_run {host : Host} {ops : List Operation} {x y : NodeId}
    (h : (host.start.runAt 9 ops).any (fun p =>
      (p.2.instancesOf? ⟨1, 0⟩).any (fun old => x ∈ old.nodes) &&
        (p.2.node? y).any (fun n => n.parent == some x) &&
          ((Render.reconcile (.within 9) ⟨1, 0⟩ [] false).runOn p.2).any (fun q =>
            q.1.isOk && q.2.entries == 0 && q.2.contains y)) = true) :
    LeavesBehind host ops y := by
  obtain ⟨⟨rs, e⟩, hrun, h⟩ := (Option.any_eq_true _ _).1 h
  simp only [Bool.and_eq_true, Option.any_eq_true, decide_eq_true_eq, beq_iff_eq] at h
  obtain ⟨⟨⟨old, hold, hx⟩, n, hn, hparent⟩, ⟨r, e'⟩, hgives, ⟨hr, hentries⟩, hleft⟩ := h
  obtain _ | ⟨⟨⟩⟩ := r
  · cases hr
  exact ⟨rs, e, e', old, x, runs_of_runAt hrun, hgives, hentries, hold, hx,
    .single ⟨n.shape, shape_of_node? hn, hparent⟩, hleft⟩

/-- A loop lists nodes of its instances that a host has removed, but does not have them among its
children. Nodes that a cancelled operation has left under a loop, and nodes that a host has built
there, outlive the loop. -/
theorem Runs.reconcile_departs :
    let list : Host :=
      { library :=
        { registry :=
          { sources := .ofList
              [("Main", "\x7b\x7b!#for x in xs # x\x7d\x7d<b>{{!x}}</b>{{!/for}}")] } } }
    let nested : Host :=
      { library :=
        { registry :=
          { sources := .ofList
              [("Main", "\x7b\x7b!#for y in ys # y\x7d\x7d\x7b\x7b!#for x in xs # x\x7d\x7d<b>{{!x}}</b><i></i>{{!/for}}{{!/for}}")] } } }
    let place : Position := ⟨0, 1, 1⟩
    let body : Body := .nodes [.element ⟨"i", [], ⟨place, place⟩, 0⟩ []]
    (∃ rs e e' instances, list.start.Runs
        [.mount "Main" (.ofList [("xs", .list [.str "a", .str "b"])]), .remove ⟨2, 0⟩] rs e ∧
      (∀ r ∈ rs, ∃ outcome, r = .ok outcome) ∧
      (Render.reconcile (.within 9) ⟨1, 0⟩ [.str "b", .str "a"] false).Gives e (.ok ()) e' ∧
      e'.entries = 0 ∧ e'.instancesOf? ⟨1, 0⟩ = some instances ∧
        e'.childrenOf ⟨1, 0⟩ ≠ instances.nodes) ∧
    LeavesBehind nested
      [.mount "Main" (.ofList [("xs", .list []), ("ys", .list [.str "p"])]),
        .setCancel { fuse := some 3 }, .setVar ⟨0, 0⟩ "xs" (.list [.str "q"]), .setCancel {},
        .setVar ⟨0, 0⟩ "xs" (.list [])] ⟨3, 0⟩ ∧
    LeavesBehind nested
      [.mount "Main" (.ofList [("xs", .list [.str "u"]), ("ys", .list [.str "p"])]),
        .build body ⟨⟨2, 0⟩, ⟨0, 0⟩, none, .html⟩,
        .setVar ⟨0, 0⟩ "xs" (.list [.str "u", .str "v"])] ⟨5, 0⟩ := by
  intro list nested place body
  refine ⟨?_, leavesBehind_of_run (x := ⟨2, 0⟩) (by decide +kernel),
    leavesBehind_of_run (x := ⟨2, 0⟩) (by decide +kernel)⟩
  have hrun : (list.start.runAt 9
      [.mount "Main" (.ofList [("xs", .list [.str "a", .str "b"])]), .remove ⟨2, 0⟩]).any (fun p =>
        p.1.all (·.isOk) &&
          ((Render.reconcile (.within 9) ⟨1, 0⟩ [.str "b", .str "a"] false).runOn p.2).any (fun q =>
            q.1.isOk && q.2.entries == 0 && (q.2.instancesOf? ⟨1, 0⟩).any (fun instances =>
              q.2.childrenOf ⟨1, 0⟩ != instances.nodes))) = true := by
    decide +kernel
  obtain ⟨⟨rs, e⟩, hrun, h⟩ := (Option.any_eq_true _ _).1 hrun
  simp only [Bool.and_eq_true, Option.any_eq_true, List.all_eq_true, bne_iff_ne, beq_iff_eq] at h
  obtain ⟨hok, ⟨r, e'⟩, hgives, ⟨hr, hentries⟩, instances, hinstances, hne⟩ := h
  obtain _ | ⟨⟨⟩⟩ := r
  · cases hr
  refine ⟨rs, e, e', instances, runs_of_runAt hrun, fun r hmem => ?_, hgives, hentries, hinstances,
    hne⟩
  have hr := hok r hmem
  cases r with
  | error err => cases hr
  | ok outcome => exact ⟨outcome, rfl⟩

end Engine
end ReactiveView
