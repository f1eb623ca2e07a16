import ReactiveView.Proofs.Idle
import ReactiveView.Proofs.Keyed.Moments
import ReactiveView.Proofs.Structure.Removal
import ReactiveView.Proofs.Structure.Wellformed

/-!
# Removals by a host

After operations of a host that have all succeeded, a removal cannot fail, since no write is waiting
that could be followed up. It takes the nodes of a subtree away and nothing else, and these stay away
whatever the host does later (`Engine.Runs.remove_cascades`).
-/

namespace ReactiveView
namespace Engine

open Act Render

variable {e e' : Engine} {id x : NodeId}

/-- What survives from each of several starts survives from any of them. -/
theorem OperationStable.exists {ι : Type} {I : ι → Engine → Prop}
    (h : ∀ i, OperationStable (I i)) : OperationStable fun e => ∃ i, I i e where
  outside := fun ⟨i, he⟩ hnodes hshot hroot hentries =>
    ⟨i, (h i).outside he hnodes hshot hroot hentries⟩
  enter := fun ⟨i, he⟩ => ⟨i, (h i).enter he⟩
  change id f hf := fun ⟨i, he⟩ => ⟨i, (h i).change id f hf he⟩
  update hr := fun ⟨i, he⟩ => ⟨i, (h i).update hr he⟩
  insert n := fun ⟨i, he⟩ => ⟨i, (h i).insert n he⟩
  remove hn := fun ⟨i, he⟩ => ⟨i, (h i).remove hn he⟩

/-- After any run the shot tells the difference to some earlier nodes. -/
theorem Runs.accounted {host : Host} {ops : List Operation} {rs : List (Except EngineError Outcome)}
    (hrun : host.start.Runs ops rs e) (hroom : e.nodes.Roomy) :
    ∃ earlier, Accounts earlier e.nodes e.shot := by
  have hstable := OperationStable.exists fun earlier => accounts_stable earlier
  have hvalid (e : Engine) (h : e.nodes.Roomy → e.nodes.Valid) :
      ∃ earlier, AccountsSince earlier { e with shot := .empty } :=
    ⟨e.nodes, fun hroom => .start (h hroom) (fun _ => rfl) fun _ => rfl⟩
  have hsince : ∃ earlier, AccountsSince earlier e := by
    refine hrun.keeps hstable.closed (fun _ _ he => he)
      (fun _ _ _ e ⟨earlier, he⟩ => ⟨earlier.without e.inOrder, fun hroom => ?_⟩)
      (fun _ _ _ e ⟨_, he⟩ => hvalid e fun hroom => (he hroom).valid)
      (hvalid host.start fun _ => Arena.valid_empty)
    rw [refresh_eq] at hroom ⊢
    exact (he hroom).renewAll fun id hid => contains_of_mem_inOrder hid
  exact hsince.imp fun _ h => h hroom

/-- The names that code reads are those of nodes that are there. -/
theorem live_of_mem_refsValue {m : OrderedMap String Value} {v : Value}
    (h : e.refsValue id = .map m) (hv : v ∈ m.values) :
    ∃ y : NodeId, v = .node y.oid ∧ e.contains y = true := by
  unfold refsValue at h
  split at h
  · cases h
  · obtain rfl := Value.map.inj h
    unfold OrderedMap.values OrderedMap.mapValues at hv
    obtain ⟨p, hp, rfl⟩ := List.mem_map.1 hv
    obtain ⟨q, hq, rfl⟩ := List.mem_map.1 hp
    exact ⟨q.2, rfl, (List.mem_filter.1 hq).2⟩

/-- The nodes under a node do not depend on the root of the engine. -/
theorem subtree_congr (hnodes : e'.nodes = e.nodes) (id : NodeId) :
    e'.subtree id = e.subtree id ∧ e'.postorder id = e.postorder id := by
  have hin (depth : Nat) : ∀ y, e'.subtreeIn depth y = e.subtreeIn depth y ∧
      e'.postorderIn depth y = e.postorderIn depth y := by
    induction depth with
    | zero => exact fun _ => ⟨rfl, rfl⟩
    | succ depth ih =>
      intro y
      unfold subtreeIn postorderIn node?
      rw [hnodes, funext fun y => (ih y).1, funext fun y => (ih y).2]
      exact ⟨rfl, rfl⟩
  unfold subtree postorder chainBound
  rw [hnodes]
  exact hin _ id

/-- A removal from an engine is one from an engine with another root. -/
theorem Removes.of_root {root : Option NodeId} (h : { e with root := root }.Removes id e') :
    e.Removes id e' := by
  have hnodes : ({ e with root := root } : Engine).nodes = e.nodes := rfl
  obtain ⟨hsubtree, hpostorder⟩ := subtree_congr hnodes id
  obtain ⟨hcontains, hown, hfind, hreads, hindex, hcreated, hupdated, hdeleted, hnodup, helse⟩ := h
  rw [hsubtree] at hcontains hown hfind hreads hindex hcreated hupdated
  rw [hpostorder] at hdeleted
  exact ⟨hcontains, hown, hfind, hreads, hindex, hcreated, hupdated, hdeleted, hnodup, helse⟩

/-- Without its root a tree is empty. -/
theorem RootedAt.isEmpty {r : NodeId} (h : e.RootedAt r) (hroom : e.nodes.Roomy)
    (hroot : e.root = none) : e.nodes.isEmpty = true :=
  Arena.isEmpty_of_get?_eq_none h.valid hroom fun id => node?_eq_none.2 (h.vacant hroot id)

/-- Removing a node gives no slot to a new one. -/
theorem roomy_removeNode (hroom : e.nodes.Roomy) (id : NodeId) : (e.removeNode id).nodes.Roomy := by
  have hpurge (e : Engine) (x : NodeId) (h : e.nodes.Roomy) : (e.purge x).nodes.Roomy :=
    e.purge_induction x (P := fun e' => e'.nodes.Roomy) h ((Arena.roomy_modify x _).2 h)
      fun _ owner h => (Arena.roomy_modify owner _).2 h
  have hdrop (e : Engine) (x : NodeId) (h : e.nodes.Roomy) : (e.dropNode x).nodes.Roomy := by
    refine e.dropNode_induction x (P := fun e' => e'.nodes.Roomy) h (hpurge e x)
      (fun _ h => (Arena.roomy_remove x).2 h) (fun e' n h => ?_) fun e' n h => ?_
    · unfold unbindRef
      split
      · exact h
      · exact (Arena.roomy_modify _ _).2 h
    · unfold reportGone
      split
      · exact h
      · exact h
  cases hn : e.node? id with
  | none =>
    unfold removeNode
    rw [hn]
    exact hroom
  | some n =>
    rw [removeNode_eq hn]
    refine List.foldlRecOn (motive := fun e' : Engine => e'.nodes.Roomy) _ _ ?_
      fun e' h x _ => hdrop e' x h
    exact e.detach_induction id (P := fun e' => e'.nodes.Roomy) hroom
      fun p => (Arena.roomy_modify p _).2 hroom

/-- Removing a node queues no write. -/
theorem pending_removeNode (e : Engine) (id : NodeId) : (e.removeNode id).pending = e.pending := by
  cases hn : e.node? id with
  | none =>
    unfold removeNode
    rw [hn]
  | some n =>
    have helse := elsewhere_foldl_dropNode ((e.detach id).postorder id) (e.detach id)
    rw [removeNode_eq hn]
    exact congrArg (·.pending) (helse.trans (e.elsewhere_detach id))

/-- An engine that forgets its root if that is a node. -/
def forgetRoot (e : Engine) (id : NodeId) : Engine :=
  { e with root := if e.root = some id then none else e.root }

/-- What comes of the removal of a node that is there when no write is waiting. -/
theorem gives_remove (hid : e.contains id = true) (hidle : e.pending = .empty) (depth : Nat) :
    ((Operation.remove id).act depth).Gives e (.ok .done) ((e.forgetRoot id).removeNode id) := by
  have hchange : (if e.root = some id then { e with root := none } else e) = e.forgetRoot id := by
    unfold forgetRoot
    split
    · rfl
    · rfl
  have hpending : ((e.forgetRoot id).removeNode id).pending = .empty := by
    rw [pending_removeNode]
    exact hidle
  refine Act.gives_map.2 (.inl ⟨(), ?_, rfl⟩)
  unfold remove
  refine Act.gives_read_bind.2 ?_
  rw [hid]
  refine Act.gives_change_bind.2 ?_
  rw [hchange]
  exact Render.gives_batch.2 ⟨.ok (), _, .ok (), Act.gives_change.2 ⟨rfl, rfl⟩,
    (Render.gives_flush_of_idle hpending _ _).2 ⟨rfl, rfl⟩, rfl⟩

/-- After operations of a host that have all succeeded, removing a node succeeds. It takes the nodes
of its subtree away and leaves everything else. What is gone stays away, whatever the host does
later. -/
theorem Runs.remove_cascades {host : Host} {before between : List Operation}
    {rs₁ rs₂ : List (Except EngineError Outcome)} {e₁ e : Engine} {id : NodeId}
    (h₁ : host.start.Runs before rs₁ e₁)
    (hdrained : before = [] ∨ before.getLast? = some .drainShot) (h₂ : e₁.Runs between rs₂ e)
    (hdrains : ∀ op ∈ between, op.drains = false)
    (hbuilds : ∀ op ∈ before ++ between, op.builds = false)
    (hok : ∀ r ∈ rs₁ ++ rs₂, ∃ outcome, r = .ok outcome) (hentries : e.entries = 0)
    (hroom : e.nodes.Roomy) (hid : e.contains id = true) (depth : Nat) :
    ∃ e', ((Operation.remove id).act depth).Gives e (.ok .done) e' ∧ e.Removes id e' ∧
      (e'.root = if e.root = some id then none else e.root) ∧
      (e.root = some id → e'.nodes.isEmpty = true) ∧
      ((∀ op ∈ between, op.refreshes = false) → ∀ x ∈ e.subtree id, e.isReportable x = true →
        (x ∈ e.shot.created.toList ↔ e₁.contains x = false)) ∧
      ∀ ops rs e'', e'.Runs ops rs e'' → ∀ x ∈ e.subtree id, e''.contains x = false ∧
        (∀ c name, e''.findRef c name ≠ some x) ∧
        ∀ c m, e''.refsValue c = .map m → .node x.oid ∉ m.values := by
  have hrun := h₁.append h₂
  have hcalm : e.Calm := ⟨hentries, hroom⟩
  obtain ⟨r, hrooted⟩ := hrun.rooted hbuilds hok hcalm host.rooted_start
  obtain ⟨earlier, haccounts⟩ := hrun.accounted hroom
  have hregistered : e.Registered :=
    (hrun.booked ⟨Arena.valid_empty, fun _ c index hc => by cases hc⟩).2 hcalm
  have hidle : e.pending = .empty := hrun.pending_eq_empty hok rfl
  have hremoves : e.Removes id ((e.forgetRoot id).removeNode id) :=
    .of_root (removeNode_removes (e := e.forgetRoot id) hrooted.tree hregistered haccounts hid)
  have hlosing : (e.forgetRoot id).Losing r id := by
    refine ⟨hrooted.valid, hrooted.tree, hrooted.sound, hid, ?_⟩
    unfold forgetRoot
    dsimp only
    rw [hrooted.root_of_live hid]
    simp only [Option.some.injEq]
  have hroot : ((e.forgetRoot id).removeNode id).root = (e.forgetRoot id).root :=
    (root_stable _).closed.removeNode id rfl
  refine ⟨_, gives_remove hid hidle depth, hremoves, hroot, fun hsome => ?_,
    fun hrefreshes x hx hreportable => ?_, fun ops rs e'' hlater x hx => ?_⟩
  · refine hlosing.removeNode.isEmpty (roomy_removeNode (e := e.forgetRoot id) hroom id) (hroot.trans (if_pos hsome))
  · have hvalid : e₁.nodes.Valid := (h₁.buried).1
    have hsince : AccountsSince e₁.nodes e := by
      refine h₂.keeps (accounts_stable e₁.nodes).closed (fun _ _ he => he) (fun op hop hr => ?_)
        (fun op hop hd => ?_) fun _ => ?_
      · rw [hrefreshes op hop] at hr
        cases hr
      · rw [hdrains op hop] at hd
        cases hd
      · rw [h₁.shot_eq_empty hdrained]
        exact .start hvalid (fun _ => rfl) fun _ => rfl
    rw [(hsince hroom).mem_created x]
    exact ⟨fun h => h.2, fun h => ⟨hreportable, h⟩⟩
  · have hgone : ((e.forgetRoot id).removeNode id).contains x = false :=
      Bool.eq_false_iff.2 fun h => ((hremoves.contains x).1 h).2 hx
    have hknown := (known_stable x).closed.removeNode (e := e.forgetRoot id) id
      ⟨hrooted.valid, .inl (contains_of_mem_subtreeIn (e := e) _ hx)⟩
    have hspent : ((e.forgetRoot id).removeNode id).nodes.Spent x := by
      refine hknown.2.resolve_left fun h => ?_
      rw [hgone] at h
      cases h
    have hdead : e''.contains x = false := by
      have hlater := hlater.keeps (spent_stable x).closed (fun _ _ he => he)
        (fun _ _ _ e he => by rw [refresh_eq]; exact he) (fun _ _ _ _ he => he) ⟨hknown.1, hspent⟩
      exact Option.isSome_eq_false_iff.2 (Option.isNone_iff_eq_none.2 hlater.2.get?)
    refine ⟨hdead, fun c name hfind => ?_, fun c m hm hmem => ?_⟩
    · rw [findRef_eq] at hfind
      have hlive := (Option.filter_eq_some_iff.1 hfind).2
      rw [hdead] at hlive
      cases hlive
    · obtain ⟨y, hy, hlive⟩ := live_of_mem_refsValue hm hmem
      rw [← NodeId.oid_injective (Value.node.inj hy), hdead] at hlive
      cases hlive

/-- A branch goes that the consumer knows, with a node that it has yet to be told of. -/
theorem Runs.remove_cascades_branch :
    let host : Host :=
      { library :=
        { registry :=
          { sources := .ofList
              [("Main", "<i></i>\x7b\x7b!#if x\x7d\x7d<b>\x7b\x7b!y\x7d\x7d</b>\x7b\x7b/if\x7d\x7d")] } } }
    let e₁ := host.start.after 9 [.mount "Main" (.ofList [("x", .bool false)]), .drainShot]
    let e := e₁.after 9 [.setVar ⟨0, 0⟩ "x" (.bool true)]
    ∃ e', ((Operation.remove ⟨2, 0⟩).act 9).Gives e (.ok .done) e' ∧ e.Removes ⟨2, 0⟩ e' ∧
      e'.shot.created.toList = [] ∧ e'.shot.deleted.toList = [⟨2, 0⟩] ∧
      e'.contains ⟨1, 0⟩ = true ∧ e'.contains ⟨3, 0⟩ = false := by
  intro host e₁ e
  obtain ⟨rs₁, h₁, hok₁⟩ := runs_after_ok 9
    [.mount "Main" (.ofList [("x", .bool false)]), .drainShot] host.start (by decide +kernel)
  obtain ⟨rs₂, h₂, hok₂⟩ := runs_after_ok 9 [.setVar ⟨0, 0⟩ "x" (.bool true)] e₁ (by decide +kernel)
  have hid : e.contains ⟨2, 0⟩ = true := by decide +kernel
  have hcreated : e.shot.created.toList.filter (· ∉ e.subtree ⟨2, 0⟩) = [] := by decide +kernel
  have hdeleted : e.shot.deleted.toList ++ ((e.postorder ⟨2, 0⟩).filter fun x =>
      e.isReportable x && x ∉ e.shot.created.toList) = [⟨2, 0⟩] := by decide +kernel
  have hstays : e.contains ⟨1, 0⟩ = true ∧ ⟨1, 0⟩ ∉ e.subtree ⟨2, 0⟩ := by decide +kernel
  have hgoes : ⟨3, 0⟩ ∈ e.subtree ⟨2, 0⟩ := by decide +kernel
  have hentries : e.entries = 0 := by decide +kernel
  have hroom : e.nodes.slots.size < UInt32.size := by decide +kernel
  change host.start.Runs _ rs₁ e₁ at h₁
  change e₁.Runs _ rs₂ e at h₂
  clear_value e₁ e
  obtain ⟨e', hgives, hremoves, -, -, -, -⟩ := Runs.remove_cascades h₁ (.inr rfl) h₂
    (by simp [Operation.drains]) (by simp [Operation.builds])
    (fun r hr => (List.mem_append.1 hr).elim (hok₁ r) (hok₂ r)) hentries hroom hid 9
  refine ⟨e', hgives, hremoves, hremoves.created.trans hcreated, hremoves.deleted.trans hdeleted,
    (hremoves.contains _).2 hstays, Bool.eq_false_iff.2 fun h => ?_⟩
  exact ((hremoves.contains _).1 h).2 hgoes

end Engine
end ReactiveView
