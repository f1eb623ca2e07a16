import ReactiveView.Proofs.Registrations
import ReactiveView.Proofs.Structure.Cascade
import ReactiveView.Proofs.Structure.Failing
import ReactiveView.Proofs.Structure.Initialization

/-!
# What fails to be built leaves nothing behind

A component instance that is not built, or not to the end, leaves the nodes, their children and the
reports of nodes that came and went as they were before (`Engine.Restores`): it is taken away with
everything that was built for it, and what is new goes without a report.

A component that cannot be shown at the root leaves no node behind, if it was built to the end or no
write was waiting when its building failed (`Engine.failures_leave_nothing`). The condition is needed:
a write that is followed up in a half-built tree may pull a node out of it.
-/

namespace ReactiveView

/-- Whether an operation has ended in an error. -/
def EngineError.endedIn {α : Type} (err : EngineError) : Except EngineError α → Bool
  | .error err' => err' == err
  | .ok _ => false

/-- What an operation that has ended in an error gives. -/
theorem EngineError.endedIn_iff {α : Type} {err : EngineError} {r : Except EngineError α} :
    err.endedIn r = true ↔ r = .error err := by
  cases r with
  | error err' =>
    rw [endedIn, beq_iff_eq]
    exact ⟨congrArg _, Except.error.inj⟩
  | ok a => exact ⟨nofun, nofun⟩

namespace Engine

open Act Render

variable {e e' : Engine} {id x : NodeId} {name : String}

/-! ## Reports of what stays -/

/-- A node that stays is reportable if it was. -/
theorem reported_stable (x : NodeId) (b : Bool) : OperationStable fun e =>
    e.nodes.Valid ∧ (e.contains x = true ∧ e.isReportable x = b ∨ e.nodes.Spent x) where
  outside he hnodes _ _ _ := by
    unfold contains isReportable node? at he ⊢
    rwa [hnodes]
  enter he := he
  change := by
    intro e id f hf he
    refine ⟨he.1.modify id f, he.2.imp (fun h => ?_) fun h => h.modify id f⟩
    have hcontains : (e.modifyNode id f).contains x = e.contains x := Arena.contains_modify id x f
    have hreports : (e.modifyNode id f).isReportable x = e.isReportable x :=
      Arena.reports_modify hf x
    rwa [hcontains, hreports]
  update _ he := he
  insert := by
    intro e n he
    refine ⟨he.1.insert n, he.2.imp (fun h => ?_) fun h => h.insert he.1 n⟩
    obtain ⟨m, hm⟩ := contains_iff.1 h.1
    have hsame : (e.nodes.insert n).2.get? x = some m := Arena.get?_insert_of_some he.1 hm n
    have hreportable : e.isReportable x = m.flags.reportable := by
      unfold isReportable
      rw [hm]
      rfl
    refine ⟨contains_iff.2 ⟨m, hsame⟩, ?_⟩
    rw [← h.2, hreportable, isReportable, node?, hsame]
    rfl
  remove := by
    intro e id n hn he
    refine ⟨he.1.remove id, ?_⟩
    by_cases hx : x = id
    · subst hx
      exact .inr (Arena.spent_remove he.1 hn)
    · refine he.2.imp (fun h => ?_) fun h => h.remove he.1 id
      unfold contains isReportable node? Arena.contains at h ⊢
      dsimp only
      rwa [Arena.get?_remove, if_neg hx]

/-! ## Component instances -/

/-- The nodes and the reports of nodes that came and went are as they were before, and no index
mentions a node that came in between. -/
structure Restores (e e' : Engine) : Prop where
  /-- The same nodes are there. -/
  contains : ∀ x, e'.contains x = e.contains x
  /-- Each has the children that it had. -/
  children : ∀ x, e'.childrenOf x = e.childrenOf x
  /-- The same nodes are reported as new. -/
  created : ∀ x, x ∈ e'.shot.created.toList ↔ x ∈ e.shot.created.toList
  /-- The same nodes are reported as gone. -/
  deleted : ∀ x, x ∈ e'.shot.deleted.toList ↔ x ∈ e.shot.deleted.toList
  /-- What is not there is mentioned in no index. -/
  unmentioned : ∀ c data, e'.context? c = some data → ∀ x, e.contains x = false →
    x ∉ data.index.readers ∧ ∀ k, x ∉ data.index.dependents k

/-- The children of a node are part of its shape. -/
theorem childrenOf_eq_shape (e : Engine) (x : NodeId) :
    e.childrenOf x = ((e.shape x).map (·.children)).getD [] := by
  unfold childrenOf shape
  rw [Option.map_map]
  rfl

/-- An operation that leaves the shape of the tree leaves the reports of nodes that came and went. -/
theorem Restores.of_shape {α : Type} {x : Act α} {r : Except EngineError α}
    {earlier : Arena RenderNode} (hx : ∀ I, OperationClosed I → x.Keeps I)
    (hgives : x.Gives e r e') (hcalm : e'.Calm) (hbooked : e.Booked)
    (haccounts : Accounts earlier e.nodes e.shot) (hshape : e'.shape = e.shape) : e.Restores e' := by
  have hcontains (y : NodeId) : e'.contains y = e.contains y := by
    rw [← live_view, ← live_view]
    exact congrArg (fun V : Forest => (V y).isSome) hshape
  have haccounts' : Accounts earlier e'.nodes e'.shot :=
    hx _ (accounts_stable earlier).closed hgives (fun _ => haccounts) hcalm.2
  -- a node that is there all the time is reportable as before, and no other one is there
  have hreports (y : NodeId) : e'.nodes.reports y = e.nodes.reports y := by
    cases hy : e.contains y with
    | true =>
      have hkept := hx _ (reported_stable y (e.isReportable y)).closed hgives
        ⟨hbooked.1, .inl ⟨hy, rfl⟩⟩
      rcases hkept.2 with ⟨-, hsame⟩ | hspent
      · exact hsame
      · have hdead : e'.contains y = false := by
          unfold Engine.contains Arena.contains
          rw [hspent.get?]
          rfl
        rw [hcontains, hy] at hdead
        cases hdead
    | false =>
      have hnone {e : Engine} (hy : e.contains y = false) : e.nodes.reports y = false :=
        Bool.eq_false_iff.2 fun h => Bool.eq_false_iff.1 hy (Arena.contains_of_reports h)
      rw [hnone hy, hnone ((hcontains y).trans hy)]
  refine ⟨hcontains, fun y => ?_, fun y => ?_, fun y => ?_, fun c data hdata y hy => ?_⟩
  · rw [childrenOf_eq_shape, hshape, childrenOf_eq_shape]
  · rw [haccounts'.mem_created, haccounts.mem_created, hreports]
  · rw [haccounts'.mem_deleted, haccounts.mem_deleted]
    exact and_congr_right fun _ => by rw [show e'.nodes.contains y = _ from hcontains y]; rfl
  · have hregistered : e'.Registered := (hx _ booked_closed hgives hbooked).2 hcalm
    exact hregistered.unmentioned hdata ((hcontains y).trans hy)

/-- A component instance that is not built to the end leaves the shape of the tree. -/
theorem buildComponent_cases {depth : Nat} {c : Cursor} {actions : List AttrAction}
    {slots : SlotContent} {root : NodeId} {r : Except EngineError Unit}
    (h : (buildComponent (.within depth) name actions slots c).Gives e r e') (hcalm : e'.Calm)
    (hvalid : e.nodes.Valid) (ht : e.shape.Tree root) (hc : e.view.Admits c) :
    (r = .ok () ∧ ∃ id, e.contains id = false ∧ e'.shape.Parent c.parent id) ∨
      e'.shape = e.shape := by
  have hre := (Reentry.within_grounded depth).toBuilds
  unfold buildComponent at h
  split at h
  · -- the component is not to be built
    obtain ⟨-, rfl⟩ := gives_pure.1 h
    exact .inr rfl
  · unfold resolveComponent at h
    rw [gives_step_bind] at h
    generalize hfound : e.library.resolve name = found at h
    obtain ⟨found, library⟩ := found
    dsimp only at h
    cases found with
    | none =>
      -- there is none of the name
      rw [gives_read_bind] at h
      split at h
      · obtain ⟨-, rfl⟩ := gives_change.1 h
        exact .inr rfl
      · obtain ⟨-, rfl⟩ := gives_pure.1 h
        exact .inr rfl
    | some routine =>
      rw [gives_read_bind] at h
      let data := newContext { e with library := library } routine actions slots c
      have hdoes : (alloc (.context data) c {}).Does _ := alloc_does (by exact rfl) c {}
      obtain ⟨id, e₁, hnew, hsetup⟩ | ⟨err, hnew, -⟩ := gives_bind.1 h
      · have hcalm₁ : e₁.Calm := Classical.byContradiction fun hwild =>
          (setupOrRemove_does hre id actions c).calm hsetup hwild hcalm
        have hvalid₁ := hdoes.valid hnew hvalid
        obtain ⟨err, herr, -⟩ | ⟨id', hid, halloc⟩ := hdoes.spec hnew hcalm₁ hvalid hc.parent
        · cases herr
        obtain rfl := Except.ok.inj hid
        have ht₁ := halloc.tree ht hc (fits_newContext (e := { e with library := library }) ht hc
          routine actions slots)
        -- it was set up to the end, or taken away again
        rcases setupOrRemove_cases hre hsetup hcalm hvalid₁ ht hc halloc ht₁ with
          ⟨hdone, rfl⟩ | ⟨hshape, -⟩
        · obtain ⟨hfresh, hparent, -⟩ := passes_of_installed hdone hcalm hvalid₁ ht₁ halloc
          exact .inl ⟨rfl, id, hfresh, hparent⟩
        · exact .inr hshape
      · -- it was not even begun
        obtain ⟨err', -, hview⟩ | ⟨id, herr, -⟩ := hdoes.spec hnew hcalm hvalid hc.parent
        · exact .inr (congrArg View.shape hview)
        · cases herr

/-- A component instance that is not built to the end leaves the nodes and the reports of nodes as
they were. -/
theorem buildComponent_restores {depth : Nat} {c : Cursor} {actions : List AttrAction}
    {slots : SlotContent} {root : NodeId} {r : Except EngineError Unit} {earlier : Arena RenderNode}
    (h : (buildComponent (.within depth) name actions slots c).Gives e r e') (hcalm : e'.Calm)
    (hbooked : e.Booked) (haccounts : Accounts earlier e.nodes e.shot) (ht : e.shape.Tree root)
    (hc : e.view.Admits c) :
    (r = .ok () ∧ ∃ id, e.contains id = false ∧ e'.shape.Parent c.parent id) ∨ e.Restores e' := by
  refine (buildComponent_cases h hcalm hbooked.1 ht hc).imp_right fun hshape => ?_
  have hre := Reentry.within_operates depth
  exact .of_shape (fun I hI => buildComponent_keeps hI hre name actions slots c) h hcalm hbooked
    haccounts hshape

/-! ## A component at the root -/

/-- Without the root of a tree there is no node. -/
theorem vacant_removeNode (hvalid : e.nodes.Valid) (ht : e.shape.Tree id)
    (hid : e.contains id = true) (x : NodeId) : (e.removeNode id).shape x = none := by
  rw [shape_removeNode hvalid ht hid]
  by_cases hx : x = id ∨ e.shape.Above id x
  · exact Forest.cut_of hx
  · rw [Forest.uproot, Forest.cut_of_not hx, Option.map_eq_none_iff]
    cases hn : e.shape x with
    | none => rfl
    | some n => exact absurd (ht.root_above hn fun h => hx (.inl h)) fun h => hx (.inr h)

/-- Where there is no node, no node has read anything. -/
theorem byDepth_readersOf_of_vacant (hvacant : ∀ x, e.node? x = none)
    (written : List (NodeId × String)) : e.byDepth (e.readersOf written) = [] := by
  have hnone : (written.flatMap fun p : NodeId × String =>
      ((e.context? p.1).map fun data => data.index.dependents p.2).getD []) = [] := by
    refine List.flatMap_eq_nil_iff.2 fun p _ => ?_
    unfold context?
    rw [hvacant]
    rfl
  unfold readersOf byDepth
  rw [hnone, show (OrderedSet.ofList ([] : List NodeId)).toList = [] from rfl, List.map_nil,
    List.mergeSort_nil, List.map_nil]

/-- Where there is no node, following writes up succeeds and brings none. -/
theorem gives_flush_of_vacant {re : Reentry} (hvacant : ∀ x, e.node? x = none) {limit rounds : Nat}
    {r : Except EngineError Unit} (h : (flush re limit rounds).Gives e r e') :
    r = .ok () ∧ e'.nodes = e.nodes := by
  induction rounds generalizing e with
  | zero =>
    have h := gives_read_bind.1 h
    split at h
    · obtain ⟨rfl, rfl⟩ := gives_pure.1 h
      exact ⟨rfl, rfl⟩
    · obtain ⟨rfl, rfl⟩ := gives_change.1 h
      exact ⟨rfl, rfl⟩
  | succ rounds ih =>
    have h := gives_read_bind.1 h
    split at h
    · obtain ⟨rfl, rfl⟩ := gives_pure.1 h
      exact ⟨rfl, rfl⟩
    · have h := gives_step_bind.1 h
      dsimp only at h
      rw [byDepth_readersOf_of_vacant hvacant] at h
      exact ih (e := { e with pending := .empty }) hvacant h

/-- A component is put at the root in place of what is there. -/
def replaceRoot (e : Engine) (routine : Routine) (scope : Scope) : NodeId × Engine :=
  (match e.root with
    | none => e
    | some old => { e with root := none }.removeNode old).addRoot routine scope

/-- A component that was put at the root could not be built, and was removed again. -/
def Withdraws (depth : Nat) (shown : NodeId × Engine) (e' : Engine) : Prop :=
  ∃ err e₁ r e₂,
    (batch (.within depth) (runRoutine (.within depth) shown.1 .html)).Gives shown.2 (.error err) e₁ ∧
      (batchChange (.within depth) (·.removeNode shown.1)).Gives e₁ r e₂ ∧
        e'.nodes = e₂.nodes ∧ e'.entries = e₂.entries ∧ (r = .ok () → e'.root = none)

/-- A component that cannot be shown in an engine without a root is withdrawn. -/
theorem withdraws_of_show {depth : Nat} {routine : Routine} {scope : Scope} {err : EngineError}
    (h : Act.Gives (do
      let id ← Act.step (·.addRoot routine scope)
      tryCatch (batch (.within depth) (runRoutine (.within depth) id .html)) fun err => do
        batchChange (.within depth) (·.removeNode id)
        Act.change fun e => { e with root := none }
        throw err
      return id) e (.error err) e') : Withdraws depth (e.addRoot routine scope) e' := by
  have h := gives_step_bind.1 h
  obtain ⟨u, e₁, -, h⟩ | ⟨err, h, -⟩ := gives_bind.1 h
  · cases (gives_pure.1 h).1
  obtain ⟨u, -, herr⟩ | ⟨err₁, e₁, hbuilt, h⟩ := gives_tryCatch.1 h
  · cases herr
  obtain ⟨u, e₂, hremoved, h⟩ | ⟨err₂, hremoved, -⟩ := gives_bind.1 h
  · obtain ⟨-, rfl⟩ := gives_throw.1 (gives_change_bind.1 h)
    exact ⟨err₁, e₁, .ok u, e₂, hbuilt, hremoved, rfl, rfl, fun _ => rfl⟩
  · exact ⟨err₁, e₁, .error err₂, e', hbuilt, hremoved, rfl, rfl, nofun⟩

/-- What is done when a component cannot be shown and no write was waiting before: there is none of
the name, or it was put at the root and is withdrawn. -/
theorem gives_mount_error {depth : Nat} {scope : Scope} {err : EngineError}
    (h : (mount depth name scope).Gives e (.error err) e') (hidle : e.pending = .empty) :
    let e₀ := { e with library := (e.library.resolve name).2 }
    ((e.library.resolve name).1 = none ∧ err = .componentNotFound name ∧ e' = e₀) ∨
      ∃ routine, (e.library.resolve name).1 = some routine ∧
        Withdraws depth (e₀.replaceRoot routine scope) e' := by
  intro e₀
  unfold mount resolveComponent at h
  have h := gives_step_bind.1 h
  dsimp only at h
  split at h
  · rename_i hnone
    obtain ⟨herr, rfl⟩ := gives_throw.1 h
    exact .inl ⟨hnone, Except.error.inj herr, rfl⟩
  · rename_i routine hsome
    refine .inr ⟨routine, hsome, ?_⟩
    have h := gives_read_bind.1 h
    unfold replaceRoot
    split at h
    · rename_i hroot
      rw [show e₀.root = none from hroot]
      exact withdraws_of_show h
    · rename_i old hroot
      rw [show e₀.root = some old from hroot]
      have h := gives_change_bind.1 h
      -- no write is waiting that could be followed up when the old tree is removed
      have hpending : ({ e₀ with root := none }.removeNode old).pending = .empty := by
        rw [pending_removeNode]
        exact hidle
      have hremoved {r : Except EngineError Unit} {e₁ : Engine}
          (h : (batchChange (.within depth) (·.removeNode old)).Gives { e₀ with root := none } r e₁) :
          r = .ok () ∧ e₁ = { e₀ with root := none }.removeNode old := by
        obtain ⟨r₁, e₂, r₂, hchange, hflush, rfl⟩ := gives_batch.1 h
        obtain ⟨rfl, rfl⟩ := gives_change.1 hchange
        obtain ⟨rfl, rfl⟩ := (gives_flush_of_idle hpending _ _).1 hflush
        exact ⟨rfl, rfl⟩
      obtain ⟨u, e₁, hold, h⟩ | ⟨err, hold, -⟩ := gives_bind.1 h
      · obtain ⟨-, rfl⟩ := hremoved hold
        exact withdraws_of_show h
      · cases (hremoved hold).1

/-- A component that is withdrawn leaves no node and no root, if it was built to the end or has left
no write waiting. -/
theorem Withdraws.vacant {depth : Nat} {shown : NodeId × Engine} (h : Withdraws depth shown e')
    (hcalm : e'.Calm) (hrooted : shown.2.Calm → shown.2.RootedAt shown.1)
    (hroot : shown.2.root = some shown.1)
    (hbuilt : ∀ r e₁, (runRoutine (.within depth) shown.1 .html).Gives shown.2 r e₁ →
      (∃ u, r = .ok u) ∨ e₁.pending = .empty) :
    e'.nodes.isEmpty = true ∧ e'.root = none := by
  have hre := Reentry.within_stirring depth
  obtain ⟨id, e⟩ := shown
  dsimp only at hrooted hroot hbuilt
  obtain ⟨err, e₂, r, e₄, hbatch, hremove, hnodes, hentries, hforgets⟩ := h
  dsimp only at hbatch hremove
  -- the component was built, its writes were followed up, it was removed, and again writes were
  -- followed up
  obtain ⟨r₁, e₁, r₂, hrun, hflush, hr⟩ := gives_batch.1 hbatch
  obtain ⟨r₃, e₃, r₄, hchange, hflush', rfl⟩ := gives_batch.1 hremove
  obtain ⟨rfl, rfl⟩ := gives_change.1 hchange
  have hroutine := runRoutine_does hre.toBuilds id .html
  have hcalm₄ : e₄.Calm := by
    unfold Calm at hcalm ⊢
    rwa [hnodes, hentries] at hcalm
  have hcalm₃ : (e₂.removeNode id).Calm := Classical.byContradiction fun hwild =>
    (flush_stirs hre _ _).calm hflush' hwild hcalm₄
  have hcalm₂ : e₂.Calm := Classical.byContradiction fun hwild =>
    calm_stable.closed.removeNode id hwild hcalm₃
  have hcalm₁ : e₁.Calm := Classical.byContradiction fun hwild =>
    (flush_stirs hre _ _).calm hflush hwild hcalm₂
  have hshown : e.RootedAt id := hrooted (Classical.byContradiction fun hwild =>
    hroutine.calm hrun hwild hcalm₁)
  have hlive : e.contains id = true := (hshown.eq_of_root hroot).2
  have hvalid₁ : e₁.nodes.Valid := hroutine.valid hrun hshown.valid
  have hvalid₂ : e₂.nodes.Valid := (flush_stirs hre _ _).valid hflush hvalid₁
  -- whatever has failed, there is a tree below the component
  obtain ⟨n, hn⟩ := contains_iff_shape.1 hlive
  have hctx : e.view.shape.IsContext id := ⟨n, hn, (hshown.tree.root n hn).2.1⟩
  have hgrows := hroutine.spec hrun hcalm₁ hshown.valid hctx
  have htree : e₂.shape.Tree id ∧ e₂.view.live id = true := by
    rcases hbuilt r₁ e₁ hrun with ⟨u, rfl⟩ | hidle
    · obtain ⟨ht₁, hsound₁, hlive₁⟩ := hgrows.settles rfl hctx id hshown.tree hshown.sound
      obtain ⟨ht₂, hlive₂⟩ := (flush_stirs hre _ _).spec hflush hcalm₂ hvalid₁ id ht₁ hsound₁
      exact ⟨ht₂, hlive₂.trans (hlive₁.trans ((live_view e id).trans hlive))⟩
    · obtain ⟨-, rfl⟩ := (gives_flush_of_idle hidle _ _).1 hflush
      have hgrown := (hgrows id hshown.tree).1
      exact ⟨hgrown.tree, hgrown.changed.live ((live_view e id).trans hlive)⟩
  have hvacant (x : NodeId) : (e₂.removeNode id).node? x = none :=
    node?_eq_none.2 (vacant_removeNode hvalid₂ htree.1 ((live_view e₂ id).symm.trans htree.2) x)
  obtain ⟨rfl, hsame⟩ := gives_flush_of_vacant hvacant hflush'
  refine ⟨?_, hforgets rfl⟩
  have hvalid₃ : (e₂.removeNode id).nodes.Valid := valid_stable.closed.removeNode id hvalid₂
  rw [hnodes, hsame]
  exact Arena.isEmpty_of_get?_eq_none hvalid₃ hcalm₃.2 hvacant

/-- A component that is put at the root in place of a tree is a tree. -/
theorem RootedAt.replaceRoot {r : NodeId} (h : e.RootedAt r) (routine : Routine) (scope : Scope)
    (hcalm : (e.replaceRoot routine scope).2.Calm) :
    (e.replaceRoot routine scope).2.RootedAt (e.replaceRoot routine scope).1 := by
  unfold Engine.replaceRoot at hcalm ⊢
  split at hcalm
  · rename_i hroot
    exact h.addRoot hroot routine scope hcalm
  · rename_i old hroot
    obtain ⟨rfl, hlive⟩ := h.eq_of_root hroot
    have hlosing : ({ e with root := none } : Engine).Losing r r :=
      ⟨h.valid, h.tree, h.sound, hlive, (if_pos rfl).symm⟩
    have hnone : ({ e with root := none }.removeNode r).root = none :=
      (root_stable none).closed.removeNode r rfl
    exact hlosing.removeNode.addRoot hnone routine scope hcalm

/-- What fails to be built leaves nothing behind, as long as code does not enter the engine and the
slots suffice.

At any moment at which the nodes are a tree, a component instance that is not built to the end leaves
the nodes, their children and the reports of nodes as they were. After operations of a host that have
all succeeded, a component that is not known changes nothing when it is to be shown, and one that
cannot be shown leaves no node and no root, if it was built to the end or no write was waiting when
that failed. -/
theorem failures_leave_nothing (depth : Nat) :
    (∀ (e e' : Engine) (root : NodeId) (earlier : Arena RenderNode) (name : String)
        (actions : List AttrAction) (slots : SlotContent) (c : Cursor)
        (r : Except EngineError Unit),
      (buildComponent (.within depth) name actions slots c).Gives e r e' → e'.Calm → e.Booked →
        Accounts earlier e.nodes e.shot → e.shape.Tree root → e.view.Admits c →
          (r = .ok () ∧ ∃ id, e.contains id = false ∧ e'.shape.Parent c.parent id) ∨
            e.Restores e') ∧
    (∀ (host : Host) (ops : List Operation) (rs : List (Except EngineError Outcome))
        (e e' : Engine) (name : String) (scope : Scope) (err : EngineError),
      host.start.Runs ops rs e → (∀ op ∈ ops, op.builds = false) →
        (∀ r ∈ rs, ∃ outcome, r = .ok outcome) →
          (mount depth name scope).Gives e (.error err) e' → e'.Calm →
            let e₀ := { e with library := (e.library.resolve name).2 }
            ((e.library.resolve name).1 = none ∧ err = .componentNotFound name ∧ e' = e₀) ∨
              ∃ routine, (e.library.resolve name).1 = some routine ∧
                let shown := e₀.replaceRoot routine scope
                ((∀ r e₁, (runRoutine (.within depth) shown.1 .html).Gives shown.2 r e₁ →
                    (∃ u, r = .ok u) ∨ e₁.pending = .empty) →
                  e'.nodes.isEmpty = true ∧ e'.root = none)) := by
  constructor
  · intro e e' root earlier name actions slots c r h hcalm hbooked haccounts ht hc
    exact buildComponent_restores h hcalm hbooked haccounts ht hc
  · intro host ops rs e e' name scope err hrun hops hok h hcalm e₀
    have hidle : e.pending = .empty := hrun.pending_eq_empty hok rfl
    have hkept : e.Calm := Classical.byContradiction fun hwild =>
      mount_keeps calm_stable.closed depth (fun _ _ he => he) name scope h hwild hcalm
    obtain ⟨r, hrooted⟩ := hrun.rooted hops hok hkept host.rooted_start
    have hrooted₀ : e₀.RootedAt r := hrooted.congr hrooted.valid rfl rfl
    rcases gives_mount_error h hidle with hunknown | ⟨routine, hsome, hwithdrawn⟩
    · exact .inl hunknown
    · refine .inr ⟨routine, hsome, fun hbuilt => ?_⟩
      exact hwithdrawn.vacant hcalm (hrooted₀.replaceRoot routine scope) rfl hbuilt

/-- An instance whose building is cut off, and a component whose initial hook refuses below another
node: neither leaves a trace. -/
theorem failures_leave_nothing_cut :
    let host : Host :=
      { library :=
        { registry :=
          { sources := .ofList [("Main", "<u></u>"), ("Child", "<b><i></i></b><s></s>"),
              ("Bad", "<i></i><u><python>fn init() \x7b return false \x7d</python></u>")] } } }
    let e₁ := host.start.after 9 [.mount "Main" .empty]
    let e₂ := e₁.after 9 [.setCancel { fuse := some 3 }]
    let c : Cursor := ⟨⟨0, 0⟩, ⟨0, 0⟩, none, .html⟩
    (∃ e', (buildComponent (.within 9) "Child" [] {} c).Gives e₂ (.error .cancelled) e' ∧
      e₂.Restores e') ∧
    ∃ e', (mount 9 "Bad" .empty).Gives e₁ (.error (.initFailed "Bad")) e' ∧
      e'.nodes.isEmpty = true ∧ e'.root = none := by
  intro host e₁ e₂ c
  have hcut : ((buildComponent (.within 9) "Child" [] {} c).runOn e₂).any (fun p =>
      EngineError.cancelled.endedIn p.1 &&
        (p.2.entries == 0 && p.2.nodes.slots.size < UInt32.size)) = true := by decide +kernel
  have hrefused : ((mount 9 "Bad" .empty).runOn e₁).any (fun p =>
      (EngineError.initFailed "Bad").endedIn p.1 &&
        (p.2.entries == 0 && p.2.nodes.slots.size < UInt32.size)) = true := by decide +kernel
  have hquiet : ((e₁.library.resolve "Bad").1.map fun routine =>
      let shown := { e₁ with library := (e₁.library.resolve "Bad").2 }.replaceRoot routine .empty
      ((runRoutine (.within 9) shown.1 .html).runOn shown.2).all (·.2.pending.isEmpty)) = some true := by
    decide +kernel
  obtain ⟨rs₁, h₁, hok₁⟩ := runs_after_ok 9 [.mount "Main" .empty] host.start (by decide +kernel)
  obtain ⟨rs₂, h₂, hok₂⟩ := runs_after_ok 9 [.setCancel { fuse := some 3 }] e₁ (by decide +kernel)
  have hroot : (e₂.context? ⟨0, 0⟩).isSome = true := by decide +kernel
  have hentries : e₂.entries = 0 := by decide +kernel
  have hroom : e₂.nodes.slots.size < UInt32.size := by decide +kernel
  change host.start.Runs _ rs₁ e₁ at h₁
  change e₁.Runs _ rs₂ e₂ at h₂
  clear_value e₁ e₂
  obtain ⟨hbuild, hmount⟩ := failures_leave_nothing 9
  constructor
  · obtain ⟨⟨r, e'⟩, hgives, hgood⟩ := (Option.any_eq_true _ _).1 hcut
    simp only [Bool.and_eq_true, beq_iff_eq, decide_eq_true_iff] at hgood
    obtain ⟨hr, hcalm⟩ := hgood
    obtain rfl := EngineError.endedIn_iff.1 hr
    -- the instance is built below the root of the tree
    have hrun := h₁.append h₂
    have hcalm₂ : e₂.Calm := ⟨hentries, hroom⟩
    obtain ⟨root, hrooted⟩ := hrun.rooted (by simp [Operation.builds])
      (fun r hr => (List.mem_append.1 hr).elim (hok₁ r) (hok₂ r)) hcalm₂ host.rooted_start
    obtain ⟨earlier, haccounts⟩ := hrun.accounted hroom
    have hbooked := hrun.booked ⟨Arena.valid_empty, fun _ c index hc => by cases hc⟩
    obtain ⟨data, hdata⟩ := Option.isSome_iff_exists.1 hroot
    obtain ⟨n, hn, hkind⟩ := view_of_context? hdata
    have hc : e₂.view.Admits c :=
      View.admits_of_context hn (by rw [RenderNode.isContext, hkind]; rfl) _ _
    rcases hbuild e₂ e' root earlier "Child" [] {} c _ hgives hcalm hbooked haccounts hrooted.tree
      hc with ⟨hok, -⟩ | hrestores
    · cases hok
    · exact ⟨e', hgives, hrestores⟩
  · obtain ⟨⟨r, e'⟩, hgives, hgood⟩ := (Option.any_eq_true _ _).1 hrefused
    simp only [Bool.and_eq_true, beq_iff_eq, decide_eq_true_iff] at hgood
    obtain ⟨hr, hcalm⟩ := hgood
    obtain rfl := EngineError.endedIn_iff.1 hr
    obtain ⟨routine, hsome, hquiet⟩ := Option.map_eq_some_iff.1 hquiet
    rcases hmount host _ rs₁ e₁ e' "Bad" .empty _ h₁ (by simp [Operation.builds]) hok₁ hgives hcalm
      with ⟨hnone, -⟩ | ⟨routine', hsome', hgone⟩
    · rw [hnone] at hsome
      cases hsome
    · obtain rfl := Option.some.inj (hsome.symm.trans hsome')
      refine ⟨e', hgives, hgone fun r e₃ hbuilt => .inr ?_⟩
      dsimp only at hquiet
      rw [show (runRoutine _ _ _).runOn _ = _ from hbuilt] at hquiet
      exact congrArg OrderedSet.mk (List.isEmpty_iff.1 hquiet)

end Engine
end ReactiveView
