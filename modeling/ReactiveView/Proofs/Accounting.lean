import ReactiveView.Proofs.Arena
import ReactiveView.Proofs.Operation

/-!
# Exact accounts of changes

A batch tells the consumer which of the reportable nodes came, changed and went since the one
before. `Accounts` ties the shot of an engine to its tree and to the tree of the earlier batch: what
is reported as new lives now and did not then, what is reported as gone lived then and does not now,
and what is reported as changed lived then and lives now. Every single change of the tree keeps the
accounts (`accounts_stable`), so any run of operations does, whether they succeed, fail or are cut
off, and whatever the code that they run does.

Identities that are gone are spent, so that a number that was reported as gone is never reported
again (`gone_stable`).
-/

namespace ReactiveView

/-- Whether an arena of nodes has a node that the consumer is told of. -/
def Arena.reports (nodes : Arena RenderNode) (id : NodeId) : Bool :=
  (nodes.get? id).any (·.flags.reportable)

/-- A reportable node is alive. -/
theorem Arena.contains_of_reports {nodes : Arena RenderNode} {id : NodeId}
    (h : nodes.reports id = true) : nodes.contains id = true := by
  unfold reports at h
  unfold contains
  cases hn : nodes.get? id with
  | none => simp [hn] at h
  | some n => rfl

/-- The shot tells the difference between an earlier tree and the present one. -/
structure Accounts (earlier nodes : Arena RenderNode) (shot : Shot) : Prop where
  /-- Identities are given out in order. -/
  valid : nodes.Valid
  /-- What went since is gone for good. -/
  spent : ∀ id, earlier.contains id = true → nodes.contains id = false → nodes.Spent id
  /-- What stayed is reportable if it was. -/
  reports_eq : ∀ id, earlier.contains id = true → nodes.contains id = true →
    nodes.reports id = earlier.reports id
  /-- New nodes are reported once. -/
  created_nodup : shot.created.toList.Nodup
  /-- The new nodes are those that came since. -/
  mem_created : ∀ id, id ∈ shot.created.toList ↔
    nodes.reports id = true ∧ earlier.contains id = false
  /-- Nodes that are gone are reported once. -/
  deleted_nodup : shot.deleted.toList.Nodup
  /-- The nodes that are gone are those that went since. -/
  mem_deleted : ∀ id, id ∈ shot.deleted.toList ↔
    earlier.reports id = true ∧ nodes.contains id = false
  /-- Changed nodes are reported once. -/
  updated_nodup : shot.updated.toList.Nodup
  /-- Changed nodes have stayed. -/
  of_mem_updated : ∀ id ∈ shot.updated.toList,
    earlier.contains id = true ∧ nodes.reports id = true

/-! ## Shots -/

namespace Shot

/-- The new nodes after a report of a change. -/
@[simp] theorem created_update (s : Shot) (id : NodeId) : (s.update id).created = s.created := by
  unfold update
  split <;> rfl

/-- The nodes that are gone after a report of a change. -/
@[simp] theorem deleted_update (s : Shot) (id : NodeId) : (s.update id).deleted = s.deleted := by
  unfold update
  split <;> rfl

/-- The changed nodes after a report of a change. -/
theorem of_mem_updated_update {s : Shot} {id id' : NodeId}
    (h : id' ∈ (s.update id).updated.toList) :
    id' ∈ s.updated.toList ∨ id' = id ∧ id ∉ s.created.toList ∧ id ∉ s.deleted.toList := by
  unfold update at h
  split at h
  · exact Or.inl h
  · rename_i hnew
    simp only [OrderedSet.contains, Bool.or_eq_true, List.contains_iff_mem, not_or] at hnew
    rcases OrderedSet.mem_insert.1 h with h | rfl
    · exact Or.inl h
    · exact Or.inr ⟨rfl, hnew⟩

/-- A report of a change is made once. -/
theorem updated_nodup_update {s : Shot} (h : s.updated.toList.Nodup) (id : NodeId) :
    (s.update id).updated.toList.Nodup := by
  unfold update
  split
  · exact h
  · exact OrderedSet.nodup_insert h id

/-- The changed nodes after the end of a node. -/
@[simp] theorem updated_delete (s : Shot) (id : NodeId) :
    (s.delete id).updated = s.updated.erase id := by
  unfold delete
  dsimp only
  split <;> rfl

/-- The end of a node that came since the last shot. -/
theorem delete_of_mem_created {s : Shot} {id : NodeId} (h : id ∈ s.created.toList) :
    (s.delete id).created = s.created.erase id ∧ (s.delete id).deleted = s.deleted := by
  have hc : s.created.contains id = true := by
    simpa only [OrderedSet.contains, List.contains_iff_mem] using h
  unfold delete
  dsimp only
  rw [if_pos hc]
  exact ⟨rfl, rfl⟩

/-- The end of a node that was there at the last shot. -/
theorem delete_of_not_mem_created {s : Shot} {id : NodeId} (h : id ∉ s.created.toList) :
    (s.delete id).created = s.created ∧ (s.delete id).deleted = s.deleted.insert id := by
  have hc : ¬ s.created.contains id = true := by
    simpa only [OrderedSet.contains, List.contains_iff_mem] using h
  unfold delete
  dsimp only
  rw [if_neg hc]
  exact ⟨rfl, rfl⟩

end Shot

/-! ## Changes of nodes that stay -/

namespace Arena

variable {nodes : Arena RenderNode}

/-- Which nodes are reportable after a change that leaves it to them. -/
theorem reports_modify {id : NodeId} {f : RenderNode → RenderNode}
    (hf : ∀ n, nodes.get? id = some n → (f n).flags.reportable = n.flags.reportable)
    (id' : NodeId) : (nodes.modify id f).reports id' = nodes.reports id' := by
  unfold reports
  rw [get?_modify]
  split
  · rename_i h
    subst h
    cases hn : nodes.get? id' with
    | none => rfl
    | some n => exact hf n hn
  · rfl

/-- Which nodes are reportable after one was added. -/
theorem reports_insert (hv : nodes.Valid) (hroom : nodes.Roomy) (n : RenderNode) (id : NodeId) :
    (nodes.insert n).2.reports id =
      if id = (nodes.insert n).1 then n.flags.reportable else nodes.reports id := by
  unfold reports
  rw [get?_insert hv hroom]
  split
  · rfl
  · rfl

/-- Which nodes are alive after one was added. -/
theorem contains_insert (hv : nodes.Valid) (hroom : nodes.Roomy) (n : RenderNode) (id : NodeId) :
    (nodes.insert n).2.contains id = (id = (nodes.insert n).1 || nodes.contains id) := by
  unfold contains
  rw [get?_insert hv hroom]
  split
  · rename_i h
    simp [h]
  · rename_i h
    simp [h]

/-- Which nodes are reportable after one was removed. -/
theorem reports_remove (id id' : NodeId) :
    (nodes.remove id).2.reports id' = (id' ≠ id && nodes.reports id') := by
  unfold reports
  rw [get?_remove]
  split
  · rename_i h
    simp [h]
  · rename_i h
    simp [h]

/-- Which nodes are alive after one was removed. -/
theorem contains_remove (id id' : NodeId) :
    (nodes.remove id).2.contains id' = (id' ≠ id && nodes.contains id') := by
  unfold contains
  rw [get?_remove]
  split
  · rename_i h
    simp [h]
  · rename_i h
    simp [h]

end Arena

namespace Accounts

variable {earlier nodes : Arena RenderNode} {shot : Shot}

/-- Changing a node that stays. -/
theorem modify (h : Accounts earlier nodes shot) {id : NodeId} {f : RenderNode → RenderNode}
    (hf : ∀ n, nodes.get? id = some n → (f n).flags.reportable = n.flags.reportable) :
    Accounts earlier (nodes.modify id f) shot where
  valid := h.valid.modify id f
  spent id' he hn := (h.spent id' he (by simpa using hn)).modify id f
  reports_eq id' he hn := by
    rw [Arena.reports_modify hf]
    exact h.reports_eq id' he (by simpa using hn)
  created_nodup := h.created_nodup
  mem_created id' := by
    rw [Arena.reports_modify hf]
    exact h.mem_created id'
  deleted_nodup := h.deleted_nodup
  mem_deleted id' := by
    rw [Arena.contains_modify]
    exact h.mem_deleted id'
  updated_nodup := h.updated_nodup
  of_mem_updated id' hid := by
    rw [Arena.reports_modify hf]
    exact h.of_mem_updated id' hid

/-- Reporting a change of a node. -/
theorem update (h : Accounts earlier nodes shot) {id : NodeId} (hid : nodes.reports id = true) :
    Accounts earlier nodes (shot.update id) where
  valid := h.valid
  spent := h.spent
  reports_eq := h.reports_eq
  created_nodup := by
    rw [Shot.created_update]
    exact h.created_nodup
  mem_created id' := by
    rw [Shot.created_update]
    exact h.mem_created id'
  deleted_nodup := by
    rw [Shot.deleted_update]
    exact h.deleted_nodup
  mem_deleted id' := by
    rw [Shot.deleted_update]
    exact h.mem_deleted id'
  updated_nodup := Shot.updated_nodup_update h.updated_nodup id
  of_mem_updated id' hmem := by
    rcases Shot.of_mem_updated_update hmem with hmem | ⟨rfl, hnew, -⟩
    · exact h.of_mem_updated id' hmem
    · refine ⟨?_, hid⟩
      rw [h.mem_created] at hnew
      simpa [hid] using hnew

/-! ## Nodes that come -/

/-- The identity of a new node was not in the earlier tree. -/
theorem insert_new (h : Accounts earlier nodes shot) (hroom : nodes.Roomy) (n : RenderNode) :
    earlier.contains (nodes.insert n).1 = false := by
  have hnone := Arena.get?_insert_new h.valid hroom n
  by_contra hold
  -- an identity that was in the earlier tree and is free is spent, and is not given out again
  have hspent := h.spent _ (by simpa using hold) (by unfold Arena.contains; rw [hnone]; rfl)
  exact Arena.not_spent_insert h.valid hroom n hspent

/-- A node comes. -/
theorem insert (h : Accounts earlier nodes shot) (hroom : nodes.Roomy) (n : RenderNode) :
    Accounts earlier (nodes.insert n).2
      (if n.flags.reportable then shot.create (nodes.insert n).1 else shot) := by
  have hnew := h.insert_new hroom n
  have hnone : nodes.contains (nodes.insert n).1 = false := by
    unfold Arena.contains
    rw [Arena.get?_insert_new h.valid hroom n]
    rfl
  have hout : nodes.reports (nodes.insert n).1 = false := by
    by_contra hr
    rw [Arena.contains_of_reports (by simpa using hr)] at hnone
    cases hnone
  have hcontains := Arena.contains_insert h.valid hroom n
  have hreports := Arena.reports_insert h.valid hroom n
  -- nothing is known of the new node but that it was not there, neither now nor earlier
  generalize hid : (nodes.insert n).1 = id at *
  have hdeleted : (if n.flags.reportable then shot.create id else shot).deleted = shot.deleted := by
    split <;> rfl
  refine
    { valid := h.valid.insert n
      spent := fun id' he hn => ?_
      reports_eq := fun id' he hn => ?_
      created_nodup := ?_
      mem_created := fun id' => ?_
      deleted_nodup := hdeleted ▸ h.deleted_nodup
      mem_deleted := fun id' => ?_
      updated_nodup := ?_
      of_mem_updated := fun id' hmem => ?_ }
  · rw [hcontains, Bool.or_eq_false_iff] at hn
    exact (h.spent id' he hn.2).insert h.valid n
  · have hne : id' ≠ id := fun heq => by rw [heq, hnew] at he; cases he
    rw [hreports, if_neg hne]
    refine h.reports_eq id' he ?_
    simpa [hcontains, hne] using hn
  · split
    · exact OrderedSet.nodup_insert h.created_nodup id
    · exact h.created_nodup
  · rw [hreports]
    by_cases heq : id' = id
    · subst heq
      rw [if_pos rfl]
      split
      · rename_i hr
        simp [Shot.create, hr, hnew]
      · rename_i hr
        simp [h.mem_created, hr, hout]
    · rw [if_neg heq]
      split
      · simp [Shot.create, h.mem_created, heq]
      · exact h.mem_created id'
  · rw [hdeleted, hcontains, h.mem_deleted]
    by_cases heq : id' = id
    · subst heq
      have hold : earlier.reports id' = false := by
        by_contra hr
        rw [Arena.contains_of_reports (by simpa using hr)] at hnew
        cases hnew
      simp [hold]
    · simp [heq]
  · split
    · exact OrderedSet.nodup_erase h.updated_nodup id
    · exact h.updated_nodup
  · have hmem' : id' ∈ shot.updated.toList := by
      split at hmem
      · exact (OrderedSet.mem_erase.1 hmem).1
      · exact hmem
    obtain ⟨he, hr⟩ := h.of_mem_updated id' hmem'
    have hne : id' ≠ id := fun heq => by rw [heq, hnew] at he; cases he
    exact ⟨he, by rw [hreports, if_neg hne, hr]⟩

/-! ## Nodes that go -/

/-- The new nodes after the end of a node are the others. -/
theorem created_remove (h : Accounts earlier nodes shot) {id : NodeId} {reportable : Bool}
    (hreports : nodes.reports id = reportable) :
    (if reportable then shot.delete id else shot).created.toList.Nodup ∧
      ∀ id', id' ∈ (if reportable then shot.delete id else shot).created.toList ↔
        id' ∈ shot.created.toList ∧ id' ≠ id := by
  by_cases hmem : id ∈ shot.created.toList
  · -- a node that came since the last shot is not reported at all
    have hr := ((h.mem_created id).1 hmem).1
    rw [hreports] at hr
    rw [if_pos hr, (Shot.delete_of_mem_created hmem).1]
    exact ⟨OrderedSet.nodup_erase h.created_nodup id, fun _ => OrderedSet.mem_erase⟩
  · have hsame : (if reportable then shot.delete id else shot).created = shot.created := by
      split
      · exact (Shot.delete_of_not_mem_created hmem).1
      · rfl
    rw [hsame]
    refine ⟨h.created_nodup, fun id' => ⟨fun hid' => ⟨hid', ?_⟩, fun hid' => hid'.1⟩⟩
    rintro rfl
    exact hmem hid'

/-- A node that goes is listed as gone if it was there, and reportable, at the last shot. -/
theorem deleted_remove (h : Accounts earlier nodes shot) {id : NodeId} {reportable : Bool}
    (hlive : nodes.contains id = true) (hreports : nodes.reports id = reportable) :
    (if reportable then shot.delete id else shot).deleted.toList.Nodup ∧
      ∀ id', id' ∈ (if reportable then shot.delete id else shot).deleted.toList ↔
        id' ∈ shot.deleted.toList ∨ id' = id ∧ earlier.reports id = true := by
  by_cases hold : earlier.contains id = true
  · have heq := h.reports_eq id hold hlive
    have hmem : id ∉ shot.created.toList := fun hmem => by
      rw [((h.mem_created id).1 hmem).2] at hold
      cases hold
    rw [← heq, hreports]
    split
    · rename_i hr
      rw [(Shot.delete_of_not_mem_created hmem).2]
      refine ⟨OrderedSet.nodup_insert h.deleted_nodup id, fun id' => ?_⟩
      rw [OrderedSet.mem_insert]
      simp [hr]
    · rename_i hr
      exact ⟨h.deleted_nodup, fun id' => by simp [hr]⟩
  · -- a node that was not there then was listed as new if it is reportable
    have hsame : (if reportable then shot.delete id else shot).deleted = shot.deleted := by
      split
      · rename_i hr
        refine (Shot.delete_of_mem_created ((h.mem_created id).2 ⟨?_, by simpa using hold⟩)).2
        rw [hreports, hr]
      · rfl
    rw [hsame]
    refine ⟨h.deleted_nodup, fun id' => ⟨Or.inl, ?_⟩⟩
    rintro (hid' | ⟨-, hr⟩)
    · exact hid'
    · exact absurd (Arena.contains_of_reports hr) hold

/-- Changed nodes after the end of a node were changed before, and are others. -/
theorem updated_remove (h : Accounts earlier nodes shot) {id id' : NodeId} {reportable : Bool}
    (hreports : nodes.reports id = reportable)
    (hmem : id' ∈ (if reportable then shot.delete id else shot).updated.toList) :
    id' ∈ shot.updated.toList ∧ id' ≠ id := by
  split at hmem
  · exact OrderedSet.mem_erase.1 (by simpa using hmem)
  · rename_i hr
    refine ⟨hmem, ?_⟩
    rintro rfl
    have := (h.of_mem_updated id' hmem).2
    rw [hreports] at this
    exact hr this

/-- A node goes. -/
theorem remove (h : Accounts earlier nodes shot) {id : NodeId} {n : RenderNode}
    (hn : nodes.get? id = some n) :
    Accounts earlier (nodes.remove id).2
      (if n.flags.reportable then shot.delete id else shot) := by
  have hlive : nodes.contains id = true := by
    unfold Arena.contains
    rw [hn]
    rfl
  have hreports : nodes.reports id = n.flags.reportable := by
    unfold Arena.reports
    rw [hn]
    rfl
  have hcreated := h.created_remove hreports
  have hdeleted := h.deleted_remove hlive hreports
  refine
    { valid := h.valid.remove id
      spent := fun id' he hgone => ?_
      reports_eq := fun id' he hstays => ?_
      created_nodup := hcreated.1
      mem_created := fun id' => ?_
      deleted_nodup := hdeleted.1
      mem_deleted := fun id' => ?_
      updated_nodup := ?_
      of_mem_updated := fun id' hmem => ?_ }
  · by_cases heq : id' = id
    · rw [heq]
      exact Arena.spent_remove h.valid hn
    · refine (h.spent id' he ?_).remove h.valid id
      simpa [Arena.contains_remove, heq] using hgone
  · rw [Arena.contains_remove] at hstays
    simp only [ne_eq, decide_not, Bool.and_eq_true, Bool.not_eq_true',
      decide_eq_false_iff_not] at hstays
    rw [Arena.reports_remove, ← h.reports_eq id' he hstays.2]
    simp [hstays.1]
  · rw [hcreated.2, Arena.reports_remove, h.mem_created]
    by_cases heq : id' = id <;> simp [heq]
  · rw [hdeleted.2, Arena.contains_remove, h.mem_deleted]
    by_cases heq : id' = id
    · subst heq
      simp [hlive]
    · simp [heq]
  · split
    · simpa using OrderedSet.nodup_erase h.updated_nodup id
    · exact h.updated_nodup
  · obtain ⟨hmem, hne⟩ := h.updated_remove hreports hmem
    obtain ⟨he, hr⟩ := h.of_mem_updated id' hmem
    refine ⟨he, ?_⟩
    rw [Arena.reports_remove, hr]
    simp [hne]

/-- Right after a shot was taken there is nothing to tell. -/
theorem start {nodes earlier : Arena RenderNode} (hv : nodes.Valid)
    (hcontains : ∀ id, nodes.contains id = earlier.contains id)
    (hreports : ∀ id, nodes.reports id = earlier.reports id) :
    Accounts earlier nodes .empty where
  valid := hv
  spent id he hn := by rw [hcontains, he] at hn; cases hn
  reports_eq id _ _ := hreports id
  created_nodup := List.nodup_nil
  mem_created id := by
    rw [← hcontains]
    refine ⟨fun hmem => (List.not_mem_nil hmem).elim, fun ⟨hr, hn⟩ => ?_⟩
    rw [Arena.contains_of_reports hr] at hn
    cases hn
  deleted_nodup := List.nodup_nil
  mem_deleted id := by
    rw [hcontains]
    refine ⟨fun hmem => (List.not_mem_nil hmem).elim, fun ⟨hr, hn⟩ => ?_⟩
    rw [Arena.contains_of_reports hr] at hn
    cases hn
  updated_nodup := List.nodup_nil
  of_mem_updated id hmem := (List.not_mem_nil hmem).elim

end Accounts

/-! ## Operations -/

namespace Engine

/-- The shot of an engine tells the difference to an earlier tree, as long as there is room. -/
def AccountsSince (earlier : Arena RenderNode) (e : Engine) : Prop :=
  e.nodes.Roomy → Accounts earlier e.nodes e.shot

/-- A run leaves less room than there was. -/
theorem Runs.roomy {e e' : Engine} {ops : List Operation}
    {rs : List (Except EngineError Outcome)} (hrun : e.Runs ops rs e') (hroom : e'.nodes.Roomy) :
    e.nodes.Roomy := by
  have hgrown := hrun.keeps (slots_stable e.nodes.slots.size).closed (fun _ _ he => he)
    (fun _ _ _ e he => ?_)
    (fun _ _ _ _ he => he) (Nat.le_refl _)
  · exact Nat.lt_of_le_of_lt hgrown hroom
  · unfold refresh
    split <;> exact he

/-- Every change of an engine keeps the accounts. -/
theorem accounts_stable (earlier : Arena RenderNode) :
    OperationStable (AccountsSince earlier) where
  outside he hnodes hshot _ _ := by
    unfold AccountsSince
    rw [hnodes, hshot]
    exact he
  enter he := he
  change id f hf he hroom := (he ((Arena.roomy_modify id f).1 hroom)).modify hf
  update hr he hroom := (he hroom).update hr
  insert n he hroom := (he hroom.of_insert).insert hroom.of_insert n
  remove hn he hroom := (he ((Arena.roomy_remove _).1 hroom)).remove hn

/-- A node that is gone stays gone, and is not reported again after the shot that tells so. -/
def Gone (id : NodeId) (e : Engine) : Prop :=
  (e.nodes.Valid ∧ e.nodes.Spent id) ∧ id ∉ e.shot.deleted.toList

/-- No change of an engine brings a node back. -/
theorem gone_stable (id : NodeId) : OperationStable (Gone id) where
  outside he hnodes hshot hroot hentries := by
    refine ⟨(spent_stable id).outside he.1 hnodes hshot hroot hentries, ?_⟩
    rw [hshot]
    exact he.2
  enter he := he
  change id' f hf he := ⟨(spent_stable id).change id' f hf he.1, he.2⟩
  update hr he := by
    refine ⟨(spent_stable id).update hr he.1, ?_⟩
    rw [Shot.deleted_update]
    exact he.2
  insert n he := by
    refine ⟨(spent_stable id).insert n he.1, ?_⟩
    split
    · exact he.2
    · exact he.2
  remove := by
    intro e id' n hn he
    -- what goes is alive, so it is another node
    have hne : id ≠ id' := fun heq => by
      have hnone := he.1.2.get?
      rw [heq] at hnone
      exact Option.some_ne_none n (hn.symm.trans hnone)
    refine ⟨(spent_stable id).remove hn he.1, ?_⟩
    split
    · by_cases hmem : id' ∈ e.shot.created.toList
      · rw [(Shot.delete_of_mem_created hmem).2]
        exact he.2
      · rw [(Shot.delete_of_not_mem_created hmem).2, OrderedSet.mem_insert]
        exact fun h => h.elim he.2 hne
    · exact he.2

end Engine

/-! ## Batches -/

/-- The numbers of the nodes that a batch tells of. -/
def ShotBatch.reported (b : ShotBatch) : List UInt64 :=
  b.created.map (·.id) ++ b.updated.map (·.id) ++ b.deleted

/-- Payloads describe the nodes of a list, as they are in an engine. -/
def Engine.Describes (e : Engine) (payloads : List NodePayload) (ids : List NodeId) : Prop :=
  payloads.map some = ids.map e.payload

/-- A batch tells the difference between two states of an engine. -/
structure ShotBatch.TellsDifference (b : ShotBatch) (e₁ e₂ : Engine) : Prop where
  /-- Each reportable node that went is listed once as deleted, and nothing else is. -/
  deleted_nodup : b.deleted.Nodup
  /-- The nodes that are listed as deleted. -/
  mem_deleted : ∀ oid, oid ∈ b.deleted ↔
    ∃ id : NodeId, id.oid = oid ∧ e₁.isReportable id = true ∧ e₂.contains id = false
  /-- Each reportable node that came is listed once as created, as it is, and nothing else is. -/
  created : ∃ ids : List NodeId, ids.Nodup ∧ e₂.Describes b.created ids ∧
    ∀ id, id ∈ ids ↔ e₂.isReportable id = true ∧ e₁.contains id = false
  /-- Only reportable nodes that stayed are listed as updated, each at most once and as it is. -/
  updated : ∃ ids : List NodeId, ids.Nodup ∧ e₂.Describes b.updated ids ∧
    ∀ id ∈ ids, e₁.isReportable id = true ∧ e₂.isReportable id = true
  /-- No node is listed twice. -/
  reported_nodup : b.reported.Nodup

namespace Engine

/-- The payload of a node has its number. -/
theorem id_of_payload {e : Engine} {id : NodeId} {p : NodePayload} (h : e.payload id = some p) :
    p.id = id.oid := by
  unfold payload at h
  obtain ⟨n, -, hp⟩ := Option.map_eq_some_iff.1 h
  rw [← hp]
  dsimp only
  split <;> rfl

/-- The payloads of live nodes. -/
theorem describes_filterMap {e : Engine} {ids : List NodeId}
    (h : ∀ id ∈ ids, e.isReportable id = true) : e.Describes (ids.filterMap e.payload) ids := by
  unfold Describes
  induction ids with
  | nil => rfl
  | cons id ids ih =>
    have hlive : ∃ p, e.payload id = some p := by
      unfold payload
      cases hn : e.node? id with
      | none =>
        have hr := h id List.mem_cons_self
        rw [isReportable, hn] at hr
        cases hr
      | some n => exact ⟨_, rfl⟩
    obtain ⟨p, hp⟩ := hlive
    rw [List.filterMap_cons_some hp, List.map_cons, List.map_cons, hp,
      ih fun id' hid' => h id' (List.mem_cons_of_mem id hid')]

/-- The numbers in payloads are those of the nodes that they describe. -/
theorem Describes.ids {e : Engine} {ps : List NodePayload} {ids : List NodeId}
    (h : e.Describes ps ids) : ps.map (·.id) = ids.map NodeId.oid := by
  unfold Describes at h
  induction ps generalizing ids with
  | nil =>
    cases ids with
    | nil => rfl
    | cons id ids => simp at h
  | cons p ps ih =>
    cases ids with
    | nil => simp at h
    | cons id ids =>
      rw [List.map_cons, List.map_cons, List.cons.injEq] at h
      rw [List.map_cons, List.map_cons, ih h.2, id_of_payload h.1.symm]

/-- A batch that is taken while the accounts are right tells the difference. -/
theorem AccountsSince.tellsDifference {e₁ e₂ : Engine} (h : Accounts e₁.nodes e₂.nodes e₂.shot) :
    e₂.drainShot.1.TellsDifference e₁ e₂ := by
  have hcreated : e₂.Describes e₂.drainShot.1.created e₂.shot.created.toList :=
    describes_filterMap fun id hid => ((h.mem_created id).1 hid).1
  have hupdated : e₂.Describes e₂.drainShot.1.updated e₂.shot.updated.toList :=
    describes_filterMap fun id hid => (h.of_mem_updated id hid).2
  have hdeleted : e₂.drainShot.1.deleted = e₂.shot.deleted.toList.map NodeId.oid := rfl
  refine
    { deleted_nodup := h.deleted_nodup.map NodeId.oid_injective
      mem_deleted := fun oid => ?_
      created := ⟨_, h.created_nodup, hcreated, h.mem_created⟩
      updated := ⟨_, h.updated_nodup, hupdated, fun id hid => ?_⟩
      reported_nodup := ?_ }
  · rw [hdeleted, List.mem_map]
    constructor
    · rintro ⟨id, hid, rfl⟩
      exact ⟨id, rfl, (h.mem_deleted id).1 hid⟩
    · rintro ⟨id, rfl, hid⟩
      exact ⟨id, (h.mem_deleted id).2 hid, rfl⟩
  · obtain ⟨hold, hr⟩ := h.of_mem_updated id hid
    exact ⟨(h.reports_eq id hold (Arena.contains_of_reports hr)).symm.trans hr, hr⟩
  · have hids : e₂.drainShot.1.reported = (e₂.shot.created.toList ++ e₂.shot.updated.toList ++
        e₂.shot.deleted.toList).map NodeId.oid := by
      rw [ShotBatch.reported, hcreated.ids, hupdated.ids, hdeleted, List.map_append,
        List.map_append]
    rw [hids]
    refine List.Nodup.map NodeId.oid_injective (List.nodup_append.2 ⟨List.nodup_append.2
      ⟨h.created_nodup, h.updated_nodup, fun id hc id' hu heq => ?_⟩, h.deleted_nodup,
      fun id hmem id' hd heq => ?_⟩)
    · rw [← heq] at hu
      have hnew := ((h.mem_created id).1 hc).2
      rw [(h.of_mem_updated id hu).1] at hnew
      cases hnew
    · rw [← heq] at hd
      have hgone := ((h.mem_deleted id).1 hd).2
      have hlive : e₂.nodes.reports id = true := by
        rcases List.mem_append.1 hmem with hc | hu
        · exact ((h.mem_created id).1 hc).1
        · exact (h.of_mem_updated id hu).2
      rw [Arena.contains_of_reports hlive] at hgone
      cases hgone

/-- A node that is gone is not reported. -/
theorem Gone.not_reported {id : NodeId} {e : Engine} (h : Gone id e) :
    id.oid ∉ e.drainShot.1.reported := by
  obtain ⟨⟨-, hspent⟩, hout⟩ := h
  -- only live nodes have payloads
  have hdead {ids : List NodeId} (hmem : id.oid ∈ (ids.filterMap e.payload).map (·.id)) : False := by
    obtain ⟨p, hp, hid⟩ := List.mem_map.1 hmem
    obtain ⟨id', -, hp⟩ := List.mem_filterMap.1 hp
    rw [id_of_payload hp] at hid
    rw [NodeId.oid_injective hid, payload, node?, hspent.get?] at hp
    cases hp
  intro hmem
  rcases List.mem_append.1 hmem with hmem | hmem
  · rcases List.mem_append.1 hmem with hmem | hmem
    · exact hdead hmem
    · exact hdead hmem
  · obtain ⟨id', hid', heq⟩ := List.mem_map.1 hmem
    exact hout (NodeId.oid_injective heq ▸ hid')

/-! ## Runs -/

/-- Taking the changes since the last shot. -/
theorem Runs.drainShot (e : Engine) :
    e.Runs [.drainShot] [.ok (.batch e.drainShot.1)] e.drainShot.2 := by
  have hfirst : (Operation.drainShot.act 0).Gives e (.ok (.batch e.drainShot.1)) e.drainShot.2 :=
    Act.gives_map.2 (.inl ⟨_, Act.gives_step.2 ⟨rfl, rfl⟩, rfl⟩)
  exact .cons hfirst (.nil _)

/-- What comes of taking the changes since the last shot. -/
theorem Runs.of_drainShot {e e' : Engine} {r : Except EngineError Outcome}
    (h : e.Runs [.drainShot] [r] e') :
    r = .ok (.batch e.drainShot.1) ∧ e' = e.drainShot.2 := by
  obtain _ | ⟨first, rest⟩ := h
  cases rest
  rcases Act.gives_map.1 first with ⟨b, hstep, rfl⟩ | ⟨err, herr, -⟩
  · obtain ⟨hb, rfl⟩ := Act.gives_step.1 hstep
    rw [Except.ok.inj hb]
    exact ⟨rfl, rfl⟩
  · cases (Act.gives_step.1 herr).1

/-- After a run that ends by taking the changes there are none, nor are there at the start. -/
theorem Runs.shot_eq_empty {host : Host} {e : Engine} {ops : List Operation}
    {rs : List (Except EngineError Outcome)} (h : host.start.Runs ops rs e)
    (hdrained : ops = [] ∨ ops.getLast? = some .drainShot) : e.shot = .empty := by
  rcases hdrained with rfl | hlast
  · cases h
    rfl
  · obtain ⟨ops, rfl⟩ := List.getLast?_eq_some_iff.1 hlast
    obtain ⟨e₁, rs₁, rs₂, -, -, h₂⟩ := h.split
    obtain _ | ⟨first, rest⟩ := h₂
    cases rest
    rw [(Runs.of_drainShot (.cons first (.nil e))).2]
    rfl

/-- Every batch tells exactly what changed since the one before: whatever a host has done up to then
and does between the two, short of asking for a refresh, and whatever fails or is cut off, each
reportable node that came is listed once as created, each that went once as deleted, and those
listed as updated have stayed. A number that is listed as deleted is in no later batch. -/
theorem Runs.drainShot_tellsDifference {host : Host} {before between later : List Operation}
    {rs₁ rs₂ rs₃ : List (Except EngineError Outcome)} {r : Except EngineError Outcome}
    {e₁ e₂ e₃ e₄ : Engine} (h₁ : host.start.Runs before rs₁ e₁)
    (hdrained : before = [] ∨ before.getLast? = some .drainShot)
    (h₂ : e₁.Runs between rs₂ e₂) (hbetween : ∀ op ∈ between, op.drains = false)
    (h₃ : e₂.Runs [.drainShot] [r] e₃) (h₄ : e₃.Runs later rs₃ e₄)
    (hrefresh : ∀ op ∈ before ++ between ++ later, op.refreshes = false)
    (hroom : e₄.nodes.Roomy) :
    ∃ b, r = .ok (.batch b) ∧ b.TellsDifference e₁ e₂ ∧
      ∀ oid ∈ b.deleted, oid ∉ e₄.drainShot.1.reported := by
  have hno {ops : List Operation} {I : Engine → Prop}
      (hops : ∀ op ∈ ops, op ∈ before ++ between ++ later) :
      ∀ op ∈ ops, op.refreshes = true → ∀ e, I e → I e.refresh := fun op hop hr => by
    rw [hrefresh op (hops op hop)] at hr
    cases hr
  have hvalid : e₁.nodes.Valid :=
    h₁.keeps valid_stable.closed (fun _ _ he => he) (hno (by simp +contextual)) (fun _ _ _ _ he => he)
      Arena.valid_empty
  -- the accounts begin where the shot is empty
  have haccounts : AccountsSince e₁.nodes e₂ := by
    refine h₂.keeps (accounts_stable e₁.nodes).closed (fun _ _ he => he) (hno (by simp +contextual))
      (fun op hop hd => ?_) ?_
    · rw [hbetween op hop] at hd
      cases hd
    · intro _
      rw [h₁.shot_eq_empty hdrained]
      exact .start hvalid (fun _ => rfl) fun _ => rfl
  have haccounts := haccounts (h₃.roomy (h₄.roomy hroom))
  obtain ⟨rfl, rfl⟩ := h₃.of_drainShot
  refine ⟨_, rfl, AccountsSince.tellsDifference haccounts, fun oid hoid => ?_⟩
  obtain ⟨id, rfl, hold, hgone⟩ := (AccountsSince.tellsDifference haccounts).mem_deleted oid |>.1 hoid
  have hspent := haccounts.spent id (Arena.contains_of_reports hold) hgone
  -- what was reported as gone is spent, and stays so whatever the host does
  have hdrained := drainShot_keeps (spent_stable id).closed (fun _ he => he) ⟨haccounts.valid, hspent⟩
  have hgone : Gone id e₂.drainShot.2 := ⟨hdrained, List.not_mem_nil⟩
  refine (h₄.keeps (gone_stable id).closed (fun _ _ he => he) (hno (by simp +contextual))
    (fun _ _ _ e he => ?_)
    hgone).not_reported
  exact ⟨he.1, List.not_mem_nil⟩

/-- A text changes between two batches. -/
theorem Runs.drainShot_tellsDifference_text :
    let host : Host :=
      { library := { registry := { sources := .ofList [("Main", "<p>{{!n}}</p>")] } } }
    let e₁ := host.start.after 4 [.mount "Main" (.ofList [("n", .int 1)]), .drainShot]
    let e₂ := e₁.after 4 [.setVar ⟨0, 0⟩ "n" (.int 2)]
    e₂.drainShot.1.updated.map (·.text) = [some "2"] ∧
      e₂.drainShot.1.TellsDifference e₁ e₂ := by
  intro host e₁ e₂
  obtain ⟨rs₁, h₁⟩ := runs_after 4 [.mount "Main" (.ofList [("n", .int 1)]), .drainShot]
    host.start (by decide +kernel)
  obtain ⟨rs₂, h₂⟩ := runs_after 4 [.setVar ⟨0, 0⟩ "n" (.int 2)] e₁ (by decide +kernel)
  have hroom : e₂.drainShot.2.nodes.slots.size < UInt32.size := by decide +kernel
  have hupdated : e₂.drainShot.1.updated.map (·.text) = [some "2"] := by decide +kernel
  change host.start.Runs _ rs₁ e₁ at h₁
  change e₁.Runs _ rs₂ e₂ at h₂
  clear_value e₁ e₂
  obtain ⟨b, hb, hdiff, -⟩ := Runs.drainShot_tellsDifference h₁ (.inr rfl) h₂
    (by simp [Operation.drains]) (.drainShot e₂) (.nil _) (by simp [Operation.refreshes]) hroom
  rw [Outcome.batch.inj (Except.ok.inj hb)]
  exact ⟨Outcome.batch.inj (Except.ok.inj hb) ▸ hupdated, hdiff⟩

end Engine
end ReactiveView
