import ReactiveView.Proofs.Operation

/-!
# Registrations

A read is recorded twice: the context whose variable was read has the reader in its index, and the
reader has the context among its watchers, by which the record is found again when the reader is
evaluated anew or goes. Both sides stay in step (`Engine.Registered`): the two directions of every
index say the same, and whoever an index mentions is a live node that the context watches. So a node
that is gone is mentioned nowhere.

Each kind of change keeps the two sides in step as long as reads are recorded for live nodes only,
which is so until code enters an operation from inside, as that may take the node away that is being
evaluated. Runs of operations keep them in step therefore (`Engine.Runs.registered`), whether the
operations succeed, fail or are cut short.
-/

namespace ReactiveView
namespace Engine

/-- Who has read the variables of a component instance. -/
def index? (e : Engine) (c : NodeId) : Option (ReactiveIndex NodeId) :=
  (e.node? c).bind (·.kind.index?)

/-- A live node has a context among those that watch it. -/
def Watches (e : Engine) (c id : NodeId) : Prop := ∃ n, e.node? id = some n ∧ c ∈ n.watchers

/-- Every index is coherent, and whoever it mentions is watched. -/
def RegisteredBy (watches : NodeId → NodeId → Prop) (e : Engine) : Prop :=
  ∀ ⦃c index⦄, e.index? c = some index →
    index.Coherent ∧ ∀ ⦃id k⦄, k ∈ index.keysOf id → watches c id

/-- Every index is coherent, and whoever it mentions is a live node that the context watches. -/
def Registered (e : Engine) : Prop := e.RegisteredBy e.Watches

variable {e e' : Engine} {c id : NodeId}

/-- What is registered in an engine is registered in one that has no other indices. -/
theorem RegisteredBy.mono {P Q : NodeId → NodeId → Prop} (h : e.RegisteredBy P)
    (hindex : ∀ c index, e'.index? c = some index → e.index? c = some index)
    (hwatches : ∀ c id, P c id → (e'.index? c).isSome = true → Q c id) : e'.RegisteredBy Q := by
  intro c index hc
  obtain ⟨hcoherent, hmentioned⟩ := h (hindex c index hc)
  exact ⟨hcoherent, fun id k hk => hwatches c id (hmentioned hk) (by rw [hc]; rfl)⟩

/-! ### Indices and watchers after a change -/

/-- Changing a node changes the index of no other one. -/
theorem index?_modifyNode (f : RenderNode → RenderNode) : (e.modifyNode id f).index? c =
    if c = id then (e.node? id).bind fun n => (f n).kind.index? else e.index? c := by
  unfold index?
  rw [node?_modifyNode]
  split
  · exact Option.bind_map
  · rfl

/-- Changing a node without its index changes no index. -/
theorem index?_modifyNode_of_same {f : RenderNode → RenderNode}
    (hf : ∀ n, e.node? id = some n → (f n).kind.index? = n.kind.index?) :
    (e.modifyNode id f).index? c = e.index? c := by
  rw [index?_modifyNode]
  split
  · rename_i h
    unfold index?
    rw [h]
    cases hn : e.node? id with
    | none => rfl
    | some n => exact hf n hn
  · rfl

/-- Changing a node that keeps its watchers changes no watching. -/
theorem watches_modifyNode {f : RenderNode → RenderNode}
    (hf : ∀ n, e.node? id = some n → ∀ c ∈ n.watchers, c ∈ (f n).watchers) {id' : NodeId}
    (h : e.Watches c id') : (e.modifyNode id f).Watches c id' := by
  obtain ⟨n, hn, hc⟩ := h
  unfold Watches
  rw [node?_modifyNode]
  split
  · rename_i hid
    subst hid
    exact ⟨f n, by rw [hn]; rfl, hf n hn c hc⟩
  · exact ⟨n, hn, hc⟩

/-- Change the index of a component instance. -/
def modifyIndex (e : Engine) (owner : NodeId) (f : ReactiveIndex NodeId → ReactiveIndex NodeId) :
    Engine :=
  e.modifyContext owner fun data => { data with index := f data.index }

/-- Changing an index. -/
theorem index?_modifyIndex (owner : NodeId) (f : ReactiveIndex NodeId → ReactiveIndex NodeId) :
    (e.modifyIndex owner f).index? c =
      if c = owner then (e.index? owner).map f else e.index? c := by
  unfold modifyIndex modifyContext modifyKind
  rw [index?_modifyNode]
  split
  · unfold index?
    cases e.node? owner with
    | none => rfl
    | some n =>
      simp only [Option.bind_some]
      cases n.kind <;> rfl
  · rfl

/-- Changing an index changes no watching. -/
theorem watches_modifyIndex (owner : NodeId) (f : ReactiveIndex NodeId → ReactiveIndex NodeId)
    (h : e.Watches c id) : (e.modifyIndex owner f).Watches c id := by
  unfold modifyIndex modifyContext modifyKind
  exact watches_modifyNode (by exact fun _ _ _ hc => hc) h

/-- Let a context watch a node. -/
def addWatcher (e : Engine) (owner node : NodeId) : Engine :=
  e.modifyNode node fun n =>
    if n.watchers.contains owner then n else { n with watchers := n.watchers ++ [owner] }

/-- Letting a context watch a node changes no index. -/
theorem index?_addWatcher (owner node : NodeId) : (e.addWatcher owner node).index? c = e.index? c :=
  index?_modifyNode_of_same fun n _ => by split <;> rfl

/-- Letting a context watch a node ends no watching. -/
theorem watches_addWatcher (owner node : NodeId) (h : e.Watches c id) :
    (e.addWatcher owner node).Watches c id := by
  refine watches_modifyNode (fun n _ c hc => ?_) h
  split
  · exact hc
  · exact List.mem_append_left _ hc

/-- A live node is watched by the context that is let watch it. -/
theorem watches_addWatcher_self (owner : NodeId) {node : NodeId} (h : e.contains node = true) :
    (e.addWatcher owner node).Watches owner node := by
  obtain ⟨n, hn⟩ := Option.isSome_iff_exists.1 h
  have hn : e.node? node = some n := hn
  unfold Watches addWatcher
  rw [node?_modifyNode, if_pos rfl, hn]
  refine ⟨_, rfl, ?_⟩
  dsimp only
  split
  · rename_i hc
    exact List.contains_iff_mem.1 hc
  · exact List.mem_append_right _ List.mem_cons_self

/-- A read is recorded in the index first and with the reader then. -/
theorem track_eq (e : Engine) (owner : NodeId) (name : String) (node : NodeId) :
    e.track owner name node =
      if (e.context? owner).isSome && isTrackedKey name then
        (e.modifyIndex owner (·.track name node)).addWatcher owner node
      else e := rfl

/-- A node that is purged forgets its watchers, and then they forget it. -/
theorem purge_eq (e : Engine) (node : NodeId) :
    e.purge node = match e.node? node with
      | none => e
      | some n => n.watchers.foldl (fun e owner => e.modifyIndex owner (·.purge node))
          (e.modifyNode node fun n => { n with watchers := [] }) := rfl

/-! ### Changes of the tree -/

/-- The two sides are in step where the indices and the watchers are the same. -/
theorem Registered.congr (h : e.Registered) (hnodes : e'.nodes = e.nodes) : e'.Registered := by
  unfold Registered RegisteredBy index? Watches node? at *
  rwa [hnodes]

/-- Changes of a node that leave its registrations. -/
theorem Registered.modifyNode (h : e.Registered) {f : RenderNode → RenderNode}
    (hf : ∀ n, e.node? id = some n →
      (f n).watchers = n.watchers ∧ (f n).kind.index? = n.kind.index?) :
    (e.modifyNode id f).Registered := by
  refine RegisteredBy.mono h (fun c index hc => ?_) fun c id' hc _ => ?_
  · rwa [index?_modifyNode_of_same fun n hn => (hf n hn).2] at hc
  · refine watches_modifyNode (fun n hn c hc => ?_) hc
    rwa [(hf n hn).1]

/-- Recording a read of a live node. -/
theorem Registered.track (h : e.Registered) (owner : NodeId) (name : String) {node : NodeId}
    (hlive : e.contains node = true) : (e.track owner name node).Registered := by
  rw [track_eq]
  split
  · have hlive' : (e.modifyIndex owner (·.track name node)).contains node = true :=
      (Arena.contains_modify owner node _).trans hlive
    have hkept (c id : NodeId) (hid : e.Watches c id) :
        ((e.modifyIndex owner (·.track name node)).addWatcher owner node).Watches c id :=
      watches_addWatcher owner node (watches_modifyIndex owner _ hid)
    intro c index hc
    rw [index?_addWatcher, index?_modifyIndex] at hc
    split at hc
    · rename_i howner
      subst howner
      obtain ⟨index₀, hindex₀, rfl⟩ := Option.map_eq_some_iff.1 hc
      obtain ⟨hcoherent, hmentioned⟩ := h hindex₀
      refine ⟨hcoherent.track name node, fun id k hk => ?_⟩
      rcases (ReactiveIndex.mem_keysOf_track index₀ name k node id).1 hk with hk | ⟨-, rfl, -⟩
      · exact hkept c id (hmentioned hk)
      · exact watches_addWatcher_self c hlive'
    · obtain ⟨hcoherent, hmentioned⟩ := h hc
      exact ⟨hcoherent, fun id k hk => hkept c id (hmentioned hk)⟩
  · exact h

/-- Going through contexts that watch a node, and purging it from their indices. -/
theorem RegisteredBy.purge {node : NodeId} {P : NodeId → NodeId → Prop} {watchers : List NodeId}
    (h : e.RegisteredBy fun c id => (id = node → c ∈ watchers) ∧ (id ≠ node → P c id)) :
    (watchers.foldl (fun e owner => e.modifyIndex owner (·.purge node)) e).RegisteredBy
      fun c id => id ≠ node ∧ P c id := by
  induction watchers generalizing e with
  | nil =>
    refine RegisteredBy.mono h (fun _ _ hc => hc) fun c id hid _ => ?_
    have hne : id ≠ node := fun heq => List.not_mem_nil (hid.1 heq)
    exact ⟨hne, hid.2 hne⟩
  | cons owner watchers ih =>
    refine ih fun c index hc => ?_
    dsimp only at hc
    rw [index?_modifyIndex] at hc
    split at hc
    · rename_i howner
      obtain ⟨index₀, hindex₀, rfl⟩ := Option.map_eq_some_iff.1 hc
      rw [← howner] at hindex₀
      obtain ⟨hcoherent, hmentioned⟩ := h hindex₀
      refine ⟨hcoherent.purge node, fun id k hk => ?_⟩
      obtain ⟨hk, hne⟩ := (ReactiveIndex.mem_keysOf_purge index₀ k node id).1 hk
      exact ⟨fun heq => absurd heq hne, (hmentioned hk).2⟩
    · rename_i howner
      obtain ⟨hcoherent, hmentioned⟩ := h hc
      refine ⟨hcoherent, fun id k hk => ⟨fun hid => ?_, (hmentioned hk).2⟩⟩
      exact (List.mem_cons.1 ((hmentioned hk).1 hid)).resolve_left howner

/-- Purging a node takes it out of every index, and nobody else. -/
theorem Registered.purged (h : e.Registered) (node : NodeId) :
    (e.purge node).RegisteredBy fun c id => id ≠ node ∧ e.Watches c id := by
  rw [purge_eq]
  cases hn : e.node? node with
  | none =>
    refine RegisteredBy.mono h (fun _ _ hc => hc) fun c id hid _ => ⟨?_, hid⟩
    rintro rfl
    obtain ⟨n, hn', -⟩ := hid
    rw [hn] at hn'
    cases hn'
  | some n =>
    refine RegisteredBy.purge (RegisteredBy.mono h (fun c index hc => ?_) fun c id hid _ => ?_)
    · rwa [index?_modifyNode_of_same (by exact fun _ _ => rfl)] at hc
    · refine ⟨?_, fun _ => hid⟩
      rintro rfl
      obtain ⟨n', hn', hc⟩ := hid
      obtain rfl : n' = n := Option.some.inj (hn'.symm.trans hn)
      exact hc

/-- Purging a node leaves the watchers of others. -/
theorem Watches.purge {node : NodeId} (h : e.Watches c id) (hne : id ≠ node) :
    (e.purge node).Watches c id := by
  rw [purge_eq]
  split
  · exact h
  · refine List.foldlRecOn (motive := fun e : Engine => e.Watches c id) _ _ ?_
      fun _ he owner _ => watches_modifyIndex owner _ he
    obtain ⟨n, hn, hc⟩ := h
    exact ⟨n, by rw [node?_modifyNode, if_neg hne]; exact hn, hc⟩

/-- Dropping the records of the reads of a node. -/
theorem Registered.purge (h : e.Registered) (node : NodeId) : (e.purge node).Registered :=
  RegisteredBy.mono (h.purged node) (fun _ _ hc => hc) fun _ _ hid _ => hid.2.purge hid.1

/-- A node that goes. -/
theorem Registered.dropNode (h : e.Registered) (node : NodeId) : (e.dropNode node).Registered := by
  let e₁ : Engine := { e.purge node with nodes := ((e.purge node).nodes.remove node).2 }
  have hnode (x : NodeId) : e₁.node? x = if x = node then none else (e.purge node).node? x :=
    Arena.get?_remove node x
  have hremoved : e₁.Registered := by
    refine RegisteredBy.mono (h.purged node) (fun c index hc => ?_) fun c id hid _ => ?_
    · unfold index? at hc ⊢
      rw [hnode] at hc
      split at hc
      · cases hc
      · exact hc
    · obtain ⟨n, hn, hc⟩ := hid.2.purge hid.1
      exact ⟨n, by rw [hnode, if_neg hid.1]; exact hn, hc⟩
  have hunbound (n : RenderNode) : (e₁.unbindRef n node).Registered := by
    unfold unbindRef
    split
    · exact hremoved
    · refine hremoved.modifyNode fun m _ => ⟨rfl, RenderKind.index?_modifyContext (fun data => ?_) _⟩
      split <;> rfl
  unfold Engine.dropNode
  dsimp only
  split
  · exact hremoved
  · rename_i n _
    split
    · exact (hunbound n).congr rfl
    · exact hunbound n

/-- A new node. -/
theorem Registered.insert (h : e.Registered) (hvalid : e.nodes.Valid) (hroom : e.nodes.Roomy)
    {n : RenderNode} (hnew : n.New) (hnodes : e'.nodes = (e.nodes.insert n).2) : e'.Registered := by
  have hnode (x : NodeId) : e'.node? x =
      if x = (e.nodes.insert n).1 then some n else e.node? x := by
    unfold node?
    rw [hnodes, Arena.get?_insert hvalid hroom]
  have hwatches (c id : NodeId) (hid : e.Watches c id) : e'.Watches c id := by
    obtain ⟨m, hm, hc⟩ := hid
    refine ⟨m, ?_, hc⟩
    unfold node?
    rw [hnodes]
    exact Arena.get?_insert_of_some hvalid hm n
  intro c index hc
  unfold index? at hc
  rw [hnode] at hc
  split at hc
  · -- the index of a new component instance is empty
    have hempty : index = .empty := by
      have hkind := hnew.kind
      rw [Option.bind_some] at hc
      cases hk : n.kind with
      | context data =>
        rw [hk] at hc hkind
        rw [← Option.some.inj hc]
        exact hkind
      | _ =>
        rw [hk] at hc
        cases hc
    rw [hempty]
    exact ⟨ReactiveIndex.coherent_empty, nofun⟩
  · obtain ⟨hcoherent, hmentioned⟩ := h hc
    exact ⟨hcoherent, fun id k hk => hwatches c id (hmentioned hk)⟩

/-! ### Runs -/

/-- As long as code has entered no operation from inside, the two sides are in step. -/
def Booked (e : Engine) : Prop := e.nodes.Valid ∧ (e.Calm → e.Registered)

/-- A change that keeps the two sides in step. -/
theorem Booked.step (he : e.Booked) (hkeeps : ∀ I : Engine → Prop, OperationStable I → I e → I e')
    (h : e.nodes.Valid → e.Calm → e'.Calm → e.Registered → e'.Registered) : e'.Booked := by
  refine ⟨hkeeps _ valid_stable he.1, fun hcalm' => ?_⟩
  have hcalm : e.Calm := Classical.byContradiction fun hwild => hkeeps _ calm_stable hwild hcalm'
  exact h he.1 hcalm hcalm' (he.2 hcalm)

/-- Painting nodes anew keeps the two sides in step. -/
theorem booked_paint : PaintClosed Booked where
  change id f hf he := he.step
    (fun _ h he => h.change id f (fun n hn => (hf n hn).reportable) he)
    fun _ _ _ h => h.modifyNode fun n hn => ⟨(hf n hn).watchers, (hf n hn).index⟩
  update hr he := he.step (fun _ h he => h.update hr he) fun _ _ _ h => h.congr rfl

/-- No operation brings the two sides out of step. -/
theorem booked_closed : OperationClosed Booked where
  outside he hnodes hshot hroot hentries :=
    he.step (fun _ h he => h.outside he hnodes hshot hroot hentries) fun _ _ _ h => h.congr hnodes
  enter he := he.step (fun _ h he => h.enter he) fun _ _ hcalm _ =>
    absurd hcalm.1 (Nat.succ_ne_zero _)
  quiet id f hf he := booked_paint.change id f (fun n hn => (hf n hn).drawn.repainted) he
  drop id he := he.step (fun _ h he => h.closed.drop id he) fun _ _ _ h => h.dropNode id
  track owner name hearlier hattends he :=
    he.step (fun _ h he => h.evaluation.track owner name _ he) fun _ hcalm _ h =>
      h.track owner name (hattends hearlier.1 hcalm)
  purge id he := he.step (fun _ h he => h.closed.purge id he) fun _ _ _ h => h.purge id
  edit id _ hf he := booked_paint.editElement id (fun data => (hf data).skeleton) he
  text id text he := booked_paint.setNodeText id text he
  redraw _ _ he := booked_paint.redraw _ _ he
  present _ _ _ he := booked_paint.showState _ _ he
  draw f _ hf he := booked_paint.change _ f (fun n hn => (hf n hn).repainted) he
  update hr he := booked_paint.update hr he
  insert n hn he := he.step (fun _ h he => h.insert n he) fun hvalid hcalm _ h =>
    h.insert hvalid hcalm.2 hn rfl

/-- A run keeps the two sides in step. -/
theorem Runs.booked {ops : List Operation} {rs : List (Except EngineError Outcome)}
    (hrun : e.Runs ops rs e') (he : e.Booked) : e'.Booked := by
  refine hrun.keeps booked_closed (fun e root he => ?_) (fun _ _ _ e he => ?_)
    (fun _ _ _ e he => ?_) he
  · exact ⟨he.1, fun hcalm => (he.2 hcalm).congr rfl⟩
  · unfold refresh
    split
    · exact he
    · exact ⟨he.1, fun hcalm => (he.2 hcalm).congr rfl⟩
  · exact ⟨he.1, fun hcalm => (he.2 hcalm).congr rfl⟩

/-- After any run in which code has entered no operation from inside, whether the operations have
succeeded or not, the two directions of the index of a live context agree on who has read what. Whoever
they mention is a live node that the context watches, and the variable is no private one. So a node
that is gone is in no index. -/
theorem Runs.registered {host : Host} {ops : List Operation}
    {rs : List (Except EngineError Outcome)} (hrun : host.start.Runs ops rs e)
    (hentries : e.entries = 0) (hroom : e.nodes.Roomy) {data : ContextData}
    (hc : e.context? c = some data) (k : String) (id : NodeId) :
    (id ∈ data.index.dependents k ↔ k ∈ data.index.keysOf id) ∧
    (id ∈ data.index.dependents k → e.Watches c id ∧ k.startsWith "_" = false) ∧
    (e.contains id = false → id ∉ data.index.dependents k ∧ id ∉ data.index.readers) := by
  have hstart : host.start.Booked := ⟨Arena.valid_empty, fun _ c index hc => by cases hc⟩
  have hindex : e.index? c = some data.index := by
    obtain ⟨n, hn, hdata⟩ := Option.bind_eq_some_iff.1 hc
    unfold index? RenderKind.index?
    rw [hn, Option.bind_some, hdata, Option.map_some]
  obtain ⟨hcoherent, hmentioned⟩ := (hrun.booked hstart).2 ⟨hentries, hroom⟩ hindex
  refine ⟨hcoherent.dual k id, fun hid => ?_, fun hdead => ?_⟩
  · have hk := (hcoherent.dual k id).1 hid
    have htracked := hcoherent.tracked k id hk
    unfold isTrackedKey at htracked
    exact ⟨hmentioned hk, by simpa using htracked⟩
  · have hnone (k : String) : k ∉ data.index.keysOf id := fun hk => by
      obtain ⟨n, hn, -⟩ := hmentioned hk
      rw [contains, Arena.contains, show e.nodes.get? id = some n from hn] at hdead
      cases hdead
    exact ⟨fun hid => hnone k ((hcoherent.dual k id).1 hid),
      hcoherent.not_mem_readers id (List.eq_nil_iff_forall_not_mem.2 hnone)⟩

/-- A branch goes that has read a variable; the condition, which has read another one, stays. -/
theorem Runs.registered_branch :
    let host : Host :=
      { library :=
        { registry :=
          { sources := .ofList
              [("Main", "\x7b\x7b!#if shown\x7d\x7d<b>\x7b\x7b!x\x7d\x7d</b>\x7b\x7b!/if\x7d\x7d")] } } }
    let ops : List Operation :=
      [.mount "Main" (.ofList [("shown", .bool true), ("x", .int 1)]),
        .setVar ⟨0, 0⟩ "shown" (.bool false)]
    ∃ rs e data, host.start.Runs ops rs e ∧ e.context? ⟨0, 0⟩ = some data ∧
      ⟨1, 0⟩ ∈ data.index.dependents "shown" ∧ e.Watches ⟨0, 0⟩ ⟨1, 0⟩ ∧
      e.contains ⟨2, 0⟩ = false ∧ ⟨2, 0⟩ ∉ data.index.readers := by
  intro host ops
  have hsome : (host.start.runAt 9 ops).isSome = true := by decide +kernel
  have hgood : (host.start.runAt 9 ops).all (fun p =>
      (p.2.entries == 0 && p.2.nodes.slots.size < UInt32.size) &&
        ((p.2.context? ⟨0, 0⟩).any (fun data => (data.index.dependents "shown").contains ⟨1, 0⟩) &&
          !p.2.contains ⟨2, 0⟩)) = true := by
    decide +kernel
  obtain ⟨⟨rs, e⟩, hrun⟩ := Option.isSome_iff_exists.1 hsome
  rw [hrun, Option.all_some, Bool.and_eq_true, Bool.and_eq_true, Bool.and_eq_true] at hgood
  obtain ⟨⟨hentries, hroom⟩, hread, hgone⟩ := hgood
  have hroom : e.nodes.slots.size < UInt32.size := of_decide_eq_true hroom
  obtain ⟨data, hdata, hread⟩ := (Option.any_eq_true _ _).1 hread
  have hread := List.contains_iff_mem.1 hread
  have hgone : e.contains ⟨2, 0⟩ = false := by simpa using hgone
  have hruns := runs_of_runAt hrun
  obtain ⟨-, hwatched, -⟩ := Runs.registered hruns (beq_iff_eq.1 hentries) hroom hdata "shown" ⟨1, 0⟩
  obtain ⟨-, -, hdead⟩ := Runs.registered hruns (beq_iff_eq.1 hentries) hroom hdata "x" ⟨2, 0⟩
  exact ⟨rs, e, data, hruns, hdata, hread, (hwatched hread).1, hgone, (hdead hgone).2⟩

end Engine
end ReactiveView
