import ReactiveView.Proofs.Accounting
import ReactiveView.Proofs.Structure.Sessions

/-!
# Moments at which loops are updated

A loop may be updated whenever the tree is in order but for the loops above it (`Engine.InOrder`).
That is so after operations of a host that have all succeeded (`Engine.Stands.order`), and in the
middle of an operation that works on the loops above.

A node that is reported as gone is gone for good (`Engine.Runs.buried`), and no change reports a node
as new that was known before (`Engine.notNew_stable`).
-/

namespace ReactiveView

namespace Engine

variable {e e' : Engine} {id x : NodeId}

/-- The arena is valid, and the nodes that are reported as gone are gone for good. -/
def Buried (e : Engine) : Prop :=
  e.nodes.Valid ∧ ∀ x ∈ e.shot.deleted.toList, e.nodes.Spent x

/-- Nodes are reported as gone when they go. -/
theorem buried_stable : OperationStable Buried where
  outside he hnodes hshot _ _ := by
    unfold Buried
    rwa [hnodes, hshot]
  enter he := he
  change id f _ he := ⟨he.1.modify id f, fun x hx => (he.2 x hx).modify id f⟩
  update _ he := by
    refine ⟨he.1, ?_⟩
    rw [Shot.deleted_update]
    exact he.2
  insert n he := by
    refine ⟨he.1.insert n, fun x hx => (he.2 x ?_).insert he.1 n⟩
    split at hx
    · exact hx
    · exact hx
  remove := by
    intro e id n hn he
    refine ⟨he.1.remove id, fun x hx => ?_⟩
    dsimp only at hx
    have hold (hx : x ∈ e.shot.deleted.toList) := (he.2 x hx).remove he.1 id
    split at hx
    · by_cases hmem : id ∈ e.shot.created.toList
      · rw [(Shot.delete_of_mem_created hmem).2] at hx
        exact hold hx
      · rw [(Shot.delete_of_not_mem_created hmem).2, OrderedSet.mem_insert] at hx
        rcases hx with hx | rfl
        · exact hold hx
        · exact Arena.spent_remove he.1 hn
    · exact hold hx

/-- Reporting every node again reports no node as gone. -/
theorem Buried.refresh (he : e.Buried) : e.refresh.Buried := by
  unfold Engine.refresh
  split
  · exact he
  · refine ⟨he.1, fun x hx => he.2 x ?_⟩
    have hsame : ∀ (ids : List NodeId) (s : Shot), (ids.foldl Shot.create s).deleted = s.deleted :=
      fun ids s => List.foldlRecOn (motive := fun s' : Shot => s'.deleted = s.deleted) ids _ rfl
        fun _ h _ _ => h
    rwa [hsame] at hx

/-- Runs report no node as gone that is there. -/
theorem Runs.buried {host : Host} {ops : List Operation} {rs : List (Except EngineError Outcome)}
    (hrun : host.start.Runs ops rs e) : e.Buried := by
  refine hrun.keeps buried_stable.closed (fun _ _ he => he) (fun _ _ _ _ he => he.refresh)
    (fun _ _ _ _ he => ⟨he.1, fun x hx => (List.not_mem_nil hx).elim⟩) ?_
  exact ⟨Arena.valid_empty, fun x hx => (List.not_mem_nil hx).elim⟩

/-- The tree is in order, but for loops above a node that are being worked on. -/
structure InOrder (e : Engine) (id : NodeId) : Prop where
  /-- Nodes that are reported as gone are gone. -/
  buried : e.Buried
  /-- The nodes are a tree, and the loops list what belongs to their instances. -/
  tree : ∃ root busy, e.shape.Tree root ∧ e.view.Sound busy ∧ ∀ b ∈ busy, e.shape.Above b id

/-- When a node may be updated. -/
inductive Stands (e : Engine) (id : NodeId) : Prop
  /-- After operations of a host that have all succeeded. -/
  | reached {host : Host} {ops : List Operation} {rs : List (Except EngineError Outcome)}
      (hrun : host.start.Runs ops rs e) (hops : ∀ op ∈ ops, op.builds = false)
      (hok : ∀ r ∈ rs, ∃ outcome, r = .ok outcome)
  /-- At any other moment, also inside of an operation, at which the tree is in order. -/
  | inOrder (h : e.InOrder id)

/-- Operations that have all succeeded leave the tree in order. -/
theorem Stands.order (h : e.Stands id) (hcalm : e.Calm) : e.InOrder id := by
  cases h with
  | inOrder h => exact h
  | reached hrun hops hok =>
    obtain ⟨r, hr⟩ := hrun.rooted hops hok hcalm (Host.rooted_start _)
    exact ⟨hrun.buried, r, [], hr.tree, hr.sound, fun b hb => (List.not_mem_nil hb).elim⟩

/-- A node that is known is not reported as new. -/
def NotNew (x : NodeId) (e : Engine) : Prop :=
  e.nodes.Roomy → (e.nodes.Valid ∧ (e.contains x = true ∨ e.nodes.Spent x)) ∧
    x ∉ e.shot.created.toList

/-- A node that is known is not reported as new by any change. -/
theorem notNew_stable (x : NodeId) : OperationStable (NotNew x) where
  outside he hnodes hshot hroot hentries hroom := by
    obtain ⟨hknown, hold⟩ := he (hnodes ▸ hroom)
    exact ⟨(known_stable x).outside hknown hnodes hshot hroot hentries, hshot ▸ hold⟩
  enter he := he
  change id f hf he hroom := by
    obtain ⟨hknown, hold⟩ := he ((Arena.roomy_modify id f).1 hroom)
    exact ⟨(known_stable x).change id f hf hknown, hold⟩
  update hid he hroom := by
    obtain ⟨hknown, hold⟩ := he hroom
    refine ⟨(known_stable x).update hid hknown, ?_⟩
    rw [Shot.created_update]
    exact hold
  insert := by
    intro e n he hroom
    have hroom₀ : e.nodes.Roomy := Arena.Roomy.of_insert hroom
    obtain ⟨hknown, hold⟩ := he hroom₀
    refine ⟨(known_stable x).insert n hknown, ?_⟩
    have hne : x ≠ (e.nodes.insert n).1 := by
      rintro rfl
      rcases hknown.2 with hlive | hspent
      · obtain ⟨m, hm⟩ := Option.isSome_iff_exists.1 hlive
        rw [Arena.get?_insert_new hknown.1 hroom₀ n] at hm
        cases hm
      · exact Arena.not_spent_insert hknown.1 hroom₀ n hspent
    dsimp only
    split
    · unfold Shot.create
      dsimp only
      rw [OrderedSet.mem_insert]
      exact fun h => h.elim hold hne
    · exact hold
  remove := by
    intro e id n hn he hroom
    obtain ⟨hknown, hold⟩ := he ((Arena.roomy_remove id).1 hroom)
    refine ⟨(known_stable x).remove hn hknown, ?_⟩
    dsimp only
    split
    · by_cases hmem : id ∈ e.shot.created.toList
      · rw [(Shot.delete_of_mem_created hmem).1, OrderedSet.mem_erase]
        exact fun h => hold h.1
      · rw [(Shot.delete_of_not_mem_created hmem).1]
        exact hold
    · exact hold

/-- A node is new: it is not there, and it never was. -/
def IsNew (e : Engine) (x : NodeId) : Prop := e.contains x = false ∧ ¬e.nodes.Spent x

/-- The view shows what is new. -/
theorem isNew_view : e.IsNew x ↔ e.view.live x = false ∧ ¬e.view.spent x := by
  rw [live_view]
  rfl

end Engine

end ReactiveView
