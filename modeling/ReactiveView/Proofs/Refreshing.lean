import ReactiveView.Proofs.Mirror
import ReactiveView.Proofs.Structure.Wellformed

/-!
# Reports of everything

A refresh lists every node of the tree as new (`Engine.refresh`), also those that the consumer knows
from earlier batches. From then on the next batch is that of an engine whose consumer knows nothing
but nodes that are gone (`Accounts.renewAll`, `Renewed`), whatever the host does up to the batch:
it has the present payload of every node, it has no updates, and it lists a node as deleted only if
that was gone when the refresh was asked for (`Engine.Runs.renews`).

So a mirror that is given the batch has every node as it is, and has lost what went before the
refresh. A node that the consumer knew and that went after the refresh is in none of the three
lists, because a node that is listed as new goes without a report: the mirror keeps it.

The nodes that were there at the refresh come before those that were built later. They are in the
order of the tree, parents first, but for those that were waiting to be reported as new, which keep
their places at the front.
-/

namespace ReactiveView

/-! ## Nodes that are taken for new -/

namespace Arena

variable {nodes : Arena RenderNode}

/-- The nodes without some of them. -/
def without (nodes : Arena RenderNode) (ids : List NodeId) : Arena RenderNode :=
  ids.foldl (fun nodes id => (nodes.remove id).2) nodes

/-- The nodes that are left are the others. -/
theorem contains_without (ids : List NodeId) (id : NodeId) :
    (nodes.without ids).contains id = (id ∉ ids && nodes.contains id) := by
  unfold without
  induction ids generalizing nodes with
  | nil => simp
  | cons id' ids ih => simp [ih, contains_remove, Bool.and_left_comm, Bool.and_assoc]

/-- The nodes that are left are reportable if they were. -/
theorem reports_without (ids : List NodeId) (id : NodeId) :
    (nodes.without ids).reports id = (id ∉ ids && nodes.reports id) := by
  unfold without
  induction ids generalizing nodes with
  | nil => simp
  | cons id' ids ih => simp [ih, reports_remove, Bool.and_left_comm, Bool.and_assoc]

end Arena

namespace Shot

variable {s : Shot} {id : NodeId}

/-- A node that is listed as new is not listed again. -/
theorem create_of_mem (hid : id ∈ s.created.toList) (hupdated : s.updated = .empty) :
    s.create id = s := by
  have hcreated : s.created.insert id = s.created := by
    unfold OrderedSet.insert OrderedSet.contains
    rw [if_pos (List.contains_iff_mem.2 hid)]
  unfold create
  rw [hcreated, show s.updated.erase id = s.updated by rw [hupdated]; rfl]

/-- Nodes that are listed as new are not listed again. -/
theorem foldl_create_of_subset {ids : List NodeId} (hids : ids ⊆ s.created.toList)
    (hupdated : s.updated = .empty) : ids.foldl create s = s := by
  induction ids with
  | nil => rfl
  | cons id ids ih =>
    rw [List.foldl_cons, create_of_mem (hids List.mem_cons_self) hupdated]
    exact ih fun id' hid' => hids (List.mem_cons_of_mem id hid')

/-- Nodes that are listed as new come after those that are listed already. -/
theorem created_foldl_create {ids : List NodeId} (hids : ids.Nodup) (s : Shot) :
    (ids.foldl create s).created.toList =
      s.created.toList ++ ids.filter (· ∉ s.created.toList) := by
  induction ids generalizing s with
  | nil => simp
  | cons id ids ih =>
    obtain ⟨hid, hids⟩ := List.nodup_cons.1 hids
    rw [List.foldl_cons, ih hids]
    by_cases hmem : id ∈ s.created.toList
    · have hsame : (s.create id).created = s.created := by
        change s.created.insert id = _
        unfold OrderedSet.insert OrderedSet.contains
        rw [if_pos (List.contains_iff_mem.2 hmem)]
      rw [hsame, List.filter_cons_of_neg (by simpa using hmem)]
    · have hadded : (s.create id).created.toList = s.created.toList ++ [id] := by
        change (s.created.insert id).toList = _
        unfold OrderedSet.insert OrderedSet.contains
        rw [if_neg fun h => hmem (List.contains_iff_mem.1 h)]
      have hrest : ids.filter (· ∉ s.created.toList ++ [id]) =
          ids.filter (· ∉ s.created.toList) := List.filter_congr fun id' hid' => by
        have hne : id' ≠ id := fun heq => hid (heq ▸ hid')
        simp [hne]
      rw [hadded, List.filter_cons_of_pos (by simpa using hmem), hrest, List.append_assoc]
      rfl

end Shot

namespace Accounts

variable {earlier nodes : Arena RenderNode} {shot : Shot}

/-- Listing a live node as new is telling the difference to a tree without that node. -/
theorem renew (h : Accounts earlier nodes shot) {id : NodeId} (hlive : nodes.contains id = true) :
    Accounts (earlier.remove id).2 nodes (if nodes.reports id then shot.create id else shot) := by
  have hcontains := earlier.contains_remove id
  have hreports := earlier.reports_remove id
  have hother {id' : NodeId} (hdead : nodes.contains id' = false) : id' ≠ id := by
    rintro rfl
    rw [hlive] at hdead
    cases hdead
  have hdeleted : (if nodes.reports id then shot.create id else shot).deleted = shot.deleted := by
    split <;> rfl
  refine
    { valid := h.valid
      spent := fun id' he hn => h.spent id' ?_ hn
      reports_eq := fun id' he hn => ?_
      created_nodup := ?_
      mem_created := fun id' => ?_
      deleted_nodup := hdeleted ▸ h.deleted_nodup
      mem_deleted := fun id' => ?_
      updated_nodup := ?_
      of_mem_updated := fun id' hmem => ?_ }
  · rw [hcontains, Bool.and_eq_true] at he
    exact he.2
  · rw [hcontains, Bool.and_eq_true] at he
    rw [hreports, he.1, Bool.true_and]
    exact h.reports_eq id' he.2 hn
  · split
    · exact OrderedSet.nodup_insert h.created_nodup id
    · exact h.created_nodup
  · rw [hcontains]
    by_cases hid : id' = id
    · subst hid
      split
      · rename_i hr
        simp [Shot.create, hr]
      · rename_i hr
        simp [h.mem_created, hr]
    · split
      · simp [Shot.create, h.mem_created, hid]
      · simp [h.mem_created, hid]
  · rw [hdeleted, hreports, h.mem_deleted]
    constructor
    · rintro ⟨hold, hdead⟩
      simp [hold, hdead, hother hdead]
    · rintro ⟨hold, hdead⟩
      exact ⟨(Bool.and_eq_true_iff.1 hold).2, hdead⟩
  · split
    · exact OrderedSet.nodup_erase h.updated_nodup id
    · exact h.updated_nodup
  · -- a change of the node itself is dropped with its new report, or was not due
    have hmem' : id' ∈ shot.updated.toList ∧ id' ≠ id := by
      split at hmem
      · exact OrderedSet.mem_erase.1 hmem
      · rename_i hr
        refine ⟨hmem, ?_⟩
        rintro rfl
        exact hr (h.of_mem_updated id' hmem).2
    obtain ⟨he, hr⟩ := h.of_mem_updated id' hmem'.1
    exact ⟨by simp [hcontains, he, hmem'.2], hr⟩

/-- Listing live nodes as new is telling the difference to a tree without those nodes. -/
theorem renewAll (h : Accounts earlier nodes shot) {ids : List NodeId}
    (hlive : ∀ id ∈ ids, nodes.contains id = true) :
    Accounts (earlier.without ids) nodes ((ids.filter nodes.reports).foldl Shot.create shot) := by
  rw [List.foldl_filter]
  unfold Arena.without
  induction ids generalizing earlier shot with
  | nil => exact h
  | cons id ids ih =>
    rw [List.foldl_cons, List.foldl_cons]
    exact ih (h.renew (hlive id List.mem_cons_self)) fun id' hid' =>
      hlive id' (List.mem_cons_of_mem id hid')

end Accounts

/-! ## Walks from the root -/

namespace Engine

variable {e : Engine} {r x y : NodeId}

/-- The nodes of a subtree in the order of the tree are those in the order of removal. -/
theorem subtreeIn_perm_postorderIn (e : Engine) (depth : Nat) : ∀ id,
    (e.subtreeIn depth id).Perm (e.postorderIn depth id) := by
  induction depth with
  | zero => exact fun _ => .nil
  | succ depth ih =>
    intro id
    unfold subtreeIn postorderIn
    cases e.node? id with
    | none => exact .nil
    | some n =>
      refine List.Perm.trans ?_ (List.perm_append_singleton id _).symm
      exact .cons id (List.Perm.flatMap_left n.children fun c _ => ih c)

/-- A subtree has the node and everything under it. -/
theorem mem_subtree (hvalid : e.nodes.Valid) (ht : e.shape.Tree r) {n : RenderNode}
    (hn : e.shape y = some n) : x ∈ e.subtree y ↔ x = y ∨ e.shape.Above y x := by
  rw [← mem_postorder hvalid ht (fun _ _ => rfl) hn]
  exact (e.subtreeIn_perm_postorderIn _ y).mem_iff

/-- The nodes of a subtree are alive. -/
theorem contains_of_mem_subtreeIn (depth : Nat) : ∀ {id}, x ∈ e.subtreeIn depth id →
    e.contains x = true := by
  induction depth with
  | zero => exact fun hx => (List.not_mem_nil hx).elim
  | succ depth ih =>
    intro id hx
    unfold subtreeIn at hx
    split at hx
    · exact (List.not_mem_nil hx).elim
    · rename_i n hn
      rcases List.mem_cons.1 hx with rfl | hx
      · exact contains_iff_shape.2 ⟨_, shape_of_node? hn⟩
      · obtain ⟨c, -, hx⟩ := List.mem_flatMap.1 hx
        exact ih hx

/-- In the order of a subtree no node comes after one that is below it. -/
theorem pairwise_subtreeIn (ht : e.shape.Tree r) (depth : Nat) : ∀ y,
    (e.subtreeIn depth y).Pairwise fun a b => a ≠ b ∧ ¬e.shape.Above b a := by
  have hunder {depth : Nat} {x y : NodeId} (hx : x ∈ e.subtreeIn depth y) :
      x = y ∨ e.shape.Above y x :=
    above_of_mem_postorderIn ht depth (fun _ _ => rfl)
      ((e.subtreeIn_perm_postorderIn depth y).mem_iff.1 hx)
  induction depth with
  | zero => exact fun _ => .nil
  | succ depth ih =>
    intro y
    unfold subtreeIn
    split
    · exact .nil
    · rename_i n hn
      have hn := shape_of_node? hn
      have hchild {c : NodeId} (hc : c ∈ n.children) : e.shape.Parent y c := ht.child y _ c hn hc
      refine List.pairwise_cons.2 ⟨fun b hb => ?_, List.pairwise_flatMap.2 ⟨fun c _ => ih c, ?_⟩⟩
      · obtain ⟨c, hc, hb⟩ := List.mem_flatMap.1 hb
        have habove : e.shape.Above y b := by
          rcases hunder hb with rfl | hb
          · exact .single (hchild hc)
          · exact .trans (.single (hchild hc)) hb
        exact ⟨fun heq => ht.above_irrefl (heq ▸ habove), ht.above_asymm habove⟩
      · have hnodup : n.children.Nodup := ht.nodup y n.shape hn
        refine hnodup.imp_of_mem fun {c c'} hc hc' hne a ha b hb => ?_
        -- a node under two siblings would make them the same
        have hsame (h : a = c' ∨ e.shape.Above c' a) : False :=
          hne (ht.siblings_disjoint (hchild hc) (hchild hc') (hunder ha) h)
        refine ⟨fun heq => hsame (heq ▸ hunder hb), fun hba => hsame (.inr ?_)⟩
        rcases hunder hb with rfl | hb
        · exact hba
        · exact .trans hb hba

/-- The nodes of the tree in its order, parents first. -/
def inOrder (e : Engine) : List NodeId := (e.root.map e.subtree).getD []

/-- The nodes of the tree are alive. -/
theorem contains_of_mem_inOrder (h : x ∈ e.inOrder) : e.contains x = true := by
  unfold inOrder at h
  cases hroot : e.root with
  | none =>
    rw [hroot] at h
    exact (List.not_mem_nil h).elim
  | some r =>
    rw [hroot] at h
    exact contains_of_mem_subtreeIn _ h

/-- Every live node is one of the tree. -/
theorem RootedAt.mem_inOrder (h : e.RootedAt r) (hx : e.contains x = true) : x ∈ e.inOrder := by
  have hroot := h.root_of_live hx
  obtain ⟨n, hn⟩ := contains_iff_shape.1 hx
  obtain ⟨m, hm⟩ := contains_iff_shape.1 (h.eq_of_root hroot).2
  unfold inOrder
  rw [hroot]
  refine (mem_subtree h.valid h.tree hm).2 ?_
  by_cases hr : x = r
  · exact .inl hr
  · exact .inr (h.tree.root_above hn hr)

/-- Parents come first. -/
theorem RootedAt.pairwise_inOrder (h : e.RootedAt r) :
    e.inOrder.Pairwise fun a b => a ≠ b ∧ ¬e.shape.Above b a := by
  unfold inOrder
  cases e.root with
  | none => exact .nil
  | some root => exact pairwise_subtreeIn h.tree _ root

/-- What a refresh does to the shot. -/
theorem refresh_eq (e : Engine) : e.refresh =
    { e with shot := (e.inOrder.filter e.nodes.reports).foldl Shot.create e.shot } := by
  unfold refresh
  split
  · rename_i hroot
    have hnone : e.inOrder = [] := by rw [inOrder, hroot, Option.map_none, Option.getD_none]
    rw [hnone]
    rfl
  · rename_i root hroot
    have hsome : e.inOrder = e.subtree root := by rw [inOrder, hroot, Option.map_some,
      Option.getD_some]
    rw [hsome]
    rfl

end Engine

/-! ## What follows a refresh -/

/-- The shot lists every node as new, those of an earlier tree first and in a given order. It does
not know of any nodes but lost ones, which are gone. -/
structure Renewed (lost past : Arena RenderNode) (listed : List NodeId)
    (nodes : Arena RenderNode) (shot : Shot) : Prop where
  /-- The shot tells the difference to the lost nodes. -/
  accounts : Accounts lost nodes shot
  /-- Those are gone. -/
  lost_spent : ∀ id, lost.contains id = true → nodes.Spent id
  /-- The nodes of the earlier tree are alive or gone for good. -/
  past_spent : ∀ id, past.contains id = true → nodes.contains id = true ∨ nodes.Spent id
  /-- Those of the earlier tree come first, in the given order. -/
  order : ∃ kept later, shot.created.toList = kept ++ later ∧ kept.Sublist listed ∧
    ∀ id ∈ later, past.contains id = false

namespace Renewed

variable {lost past nodes : Arena RenderNode} {listed : List NodeId} {shot : Shot}

/-- No lost node is alive. -/
theorem lost_of_live (h : Renewed lost past listed nodes shot) {id : NodeId}
    (hlive : nodes.contains id = true) : lost.contains id = false := by
  by_contra hlost
  have hgone := (h.lost_spent id (by simpa using hlost)).get?
  unfold Arena.contains at hlive
  rw [hgone] at hlive
  cases hlive

/-- The nodes that are listed as new are those that the consumer is told of. -/
theorem mem_created (h : Renewed lost past listed nodes shot) {id : NodeId} :
    id ∈ shot.created.toList ↔ nodes.reports id = true := by
  rw [h.accounts.mem_created]
  exact ⟨And.left, fun hr => ⟨hr, h.lost_of_live (Arena.contains_of_reports hr)⟩⟩

/-- No node is listed as changed. -/
theorem updated_eq (h : Renewed lost past listed nodes shot) : shot.updated = .empty := by
  cases hupdated : shot.updated with
  | mk ids =>
    congr 1
    refine List.eq_nil_iff_forall_not_mem.2 fun id hid => ?_
    obtain ⟨hlost, hr⟩ := h.accounts.of_mem_updated id (by rw [hupdated]; exact hid)
    rw [h.lost_of_live (Arena.contains_of_reports hr)] at hlost
    cases hlost

/-- The nodes that are listed as gone are those of the lost ones that the consumer knows. -/
theorem mem_deleted (h : Renewed lost past listed nodes shot) {id : NodeId} :
    id ∈ shot.deleted.toList ↔ lost.reports id = true := by
  rw [h.accounts.mem_deleted]
  refine ⟨And.left, fun hlost => ⟨hlost, ?_⟩⟩
  unfold Arena.contains
  rw [(h.lost_spent id (Arena.contains_of_reports hlost)).get?]
  rfl

/-- Changing a node that stays. -/
theorem modify (h : Renewed lost past listed nodes shot) {id : NodeId}
    {f : RenderNode → RenderNode}
    (hf : ∀ n, nodes.get? id = some n → (f n).flags.reportable = n.flags.reportable) :
    Renewed lost past listed (nodes.modify id f) shot where
  accounts := h.accounts.modify hf
  lost_spent id' hid' := (h.lost_spent id' hid').modify id f
  past_spent id' hid' := by
    rw [Arena.contains_modify]
    exact (h.past_spent id' hid').imp_right (·.modify id f)
  order := h.order

/-- Reporting a change of a node. -/
theorem update (h : Renewed lost past listed nodes shot) {id : NodeId}
    (hid : nodes.reports id = true) : Renewed lost past listed nodes (shot.update id) where
  accounts := h.accounts.update hid
  lost_spent := h.lost_spent
  past_spent := h.past_spent
  order := by
    rw [Shot.created_update]
    exact h.order

/-- A node comes, and is listed after the others. -/
theorem insert (h : Renewed lost past listed nodes shot) (hroom : nodes.Roomy) (n : RenderNode) :
    Renewed lost past listed (nodes.insert n).2
      (if n.flags.reportable then shot.create (nodes.insert n).1 else shot) := by
  have hvalid := h.accounts.valid
  have hnone : nodes.contains (nodes.insert n).1 = false := by
    unfold Arena.contains
    rw [Arena.get?_insert_new hvalid hroom n]
    rfl
  refine ⟨h.accounts.insert hroom n, fun id hid => (h.lost_spent id hid).insert hvalid n,
    fun id hid => ?_, ?_⟩
  · refine (h.past_spent id hid).imp (fun hlive => ?_) (·.insert hvalid n)
    rw [Arena.contains_insert hvalid hroom, hlive, Bool.or_true]
  · split
    · obtain ⟨kept, later, hcreated, hkept, hlater⟩ := h.order
      have hnew : (nodes.insert n).1 ∉ shot.created.toList := fun hmem => by
        rw [Arena.contains_of_reports (h.mem_created.1 hmem)] at hnone
        cases hnone
      refine ⟨kept, later ++ [(nodes.insert n).1], ?_, hkept, fun id hid => ?_⟩
      · change (shot.created.insert _).toList = _
        unfold OrderedSet.insert OrderedSet.contains
        rw [if_neg fun hmem => hnew (List.contains_iff_mem.1 hmem), hcreated, List.append_assoc]
      · rcases List.mem_append.1 hid with hid | hid
        · exact hlater id hid
        · rw [List.mem_singleton.1 hid]
          by_contra hpast
          rcases h.past_spent _ (by simpa using hpast) with hlive | hspent
          · rw [hnone] at hlive
            cases hlive
          · exact Arena.not_spent_insert hvalid hroom n hspent
    · exact h.order

/-- A node goes, and the others keep their places. -/
theorem remove (h : Renewed lost past listed nodes shot) {id : NodeId} {n : RenderNode}
    (hn : nodes.get? id = some n) :
    Renewed lost past listed (nodes.remove id).2
      (if n.flags.reportable then shot.delete id else shot) := by
  have hvalid := h.accounts.valid
  refine ⟨h.accounts.remove hn, fun id' hid' => (h.lost_spent id' hid').remove hvalid id,
    fun id' hid' => ?_, ?_⟩
  · by_cases hid : id' = id
    · rw [hid]
      exact .inr (Arena.spent_remove hvalid hn)
    · refine (h.past_spent id' hid').imp (fun hlive => ?_) (·.remove hvalid id)
      rw [Arena.contains_remove, hlive]
      simp [hid]
  · obtain ⟨kept, later, hcreated, hkept, hlater⟩ := h.order
    by_cases hmem : n.flags.reportable = true ∧ id ∈ shot.created.toList
    · rw [if_pos hmem.1, (Shot.delete_of_mem_created hmem.2).1]
      refine ⟨kept.filter (· ≠ id), later.filter (· ≠ id), ?_, ?_, fun id' hid' => ?_⟩
      · change shot.created.toList.filter _ = _
        rw [hcreated, List.filter_append]
      · exact List.filter_sublist.trans hkept
      · exact hlater id' (List.mem_filter.1 hid').1
    · refine ⟨kept, later, ?_, hkept, hlater⟩
      rw [← hcreated]
      split
      · rename_i hr
        rw [(Shot.delete_of_not_mem_created fun hid => hmem ⟨hr, hid⟩).1]
      · rfl

end Renewed

namespace Engine

variable {lost past : Arena RenderNode} {listed : List NodeId}

/-- Everything is listed as new, as long as there is room. -/
def RenewedSince (lost past : Arena RenderNode) (listed : List NodeId) (e : Engine) : Prop :=
  e.nodes.Roomy → Renewed lost past listed e.nodes e.shot

/-- After a refresh every change of an engine leaves everything listed as new. -/
theorem renewed_stable (lost past : Arena RenderNode) (listed : List NodeId) :
    OperationStable (RenewedSince lost past listed) where
  outside he hnodes hshot _ _ := by
    unfold RenewedSince
    rw [hnodes, hshot]
    exact he
  enter he := he
  change id f hf he hroom := (he ((Arena.roomy_modify id f).1 hroom)).modify hf
  update hr he hroom := (he hroom).update hr
  insert n he hroom := (he hroom.of_insert).insert hroom.of_insert n
  remove hn he hroom := (he ((Arena.roomy_remove _).1 hroom)).remove hn

/-- A second refresh changes nothing. -/
theorem RenewedSince.refresh {e : Engine} (h : RenewedSince lost past listed e) :
    RenewedSince lost past listed e.refresh := by
  rw [refresh_eq]
  intro hroom
  have h := h hroom
  dsimp only
  rw [Shot.foldl_create_of_subset (fun id hid => ?_) h.updated_eq]
  · exact h
  · exact h.mem_created.2 (List.mem_filter.1 hid).2

/-- The nodes that a refresh lists, in order. -/
def refreshed (e : Engine) : List NodeId :=
  e.shot.created.toList ++ (e.inOrder.filter e.isReportable).filter (· ∉ e.shot.created.toList)

/-- A refresh of a tree lists everything as new. -/
theorem RootedAt.renewed {earlier : Arena RenderNode} {e : Engine} {r : NodeId} (h : e.RootedAt r)
    (haccounts : Accounts earlier e.nodes e.shot) :
    Renewed (earlier.without e.inOrder) e.nodes e.refreshed e.refresh.nodes e.refresh.shot := by
  have hnodup : e.inOrder.Nodup := h.pairwise_inOrder.imp And.left
  rw [refresh_eq]
  refine
    { accounts := haccounts.renewAll fun id => contains_of_mem_inOrder
      lost_spent := fun id hid => ?_
      past_spent := fun id hid => .inl hid
      order := ⟨_, [], (List.append_nil _).symm, ?_, fun id hid => (List.not_mem_nil hid).elim⟩ }
  · rw [Arena.contains_without, Bool.and_eq_true, decide_eq_true_iff] at hid
    refine haccounts.spent id hid.2 ?_
    by_contra hlive
    exact hid.1 (h.mem_inOrder (Bool.of_not_eq_false hlive))
  · dsimp only
    rw [Shot.created_foldl_create (hnodup.filter _)]
    exact List.Sublist.refl _

end Engine

/-! ## Batches after a refresh -/

/-- A batch lists every node as new. What it does not list is what the consumer has of an earlier
engine that was gone at the refresh. -/
structure ShotBatch.Renews (b : ShotBatch) (earlier past e : Engine) : Prop where
  /-- Each reportable node is listed once as created, as it is. Nodes that were there at the refresh
  come first; if none was waiting to be reported then, parents come before children. -/
  created : ∃ ids : List NodeId, ids.Nodup ∧ e.Describes b.created ids ∧
    (∀ id, id ∈ ids ↔ e.isReportable id = true) ∧
    (∀ x ∈ ids, past.contains x = true → ∀ y ∈ ids, past.contains y = false →
      [x, y].Sublist ids) ∧
    (past.shot.created = .empty → ∀ x ∈ ids, ∀ y ∈ ids, x ∈ past.ancestors y →
      [x, y].Sublist ids)
  /-- No node is listed as updated. -/
  updated : b.updated = []
  /-- Each node that went before the refresh is listed once as deleted. -/
  deleted_nodup : b.deleted.Nodup
  /-- The nodes that are listed as deleted. -/
  mem_deleted : ∀ oid, oid ∈ b.deleted ↔
    ∃ id : NodeId, id.oid = oid ∧ earlier.isReportable id = true ∧ past.contains id = false

/-- What stands before something else in a list without repetitions. -/
theorem pair_sublist_of_mem {α : Type} {R : α → α → Prop} {l : List α} {x y : α}
    (hl : l.Pairwise R) (hx : x ∈ l) (hy : y ∈ l) (hne : x ≠ y) (hyx : ¬R y x) :
    [x, y].Sublist l := by
  obtain ⟨before, later, rfl⟩ := List.append_of_mem hx
  rcases List.mem_append.1 hy with hy | hy
  · exact absurd ((List.pairwise_append.1 hl).2.2 y hy x List.mem_cons_self) hyx
  · have hy : y ∈ later := (List.mem_cons.1 hy).resolve_left fun heq => hne heq.symm
    exact (List.Sublist.cons_cons x (List.singleton_sublist.2 hy)).trans
      (List.sublist_append_right before _)

namespace Engine

/-- A batch that is taken while everything is listed as new. -/
theorem RootedAt.renewing {earlier past e : Engine} {r : NodeId} (hpast : past.RootedAt r)
    (haccounts : Accounts earlier.nodes past.nodes past.shot)
    (h : Renewed (earlier.nodes.without past.inOrder) past.nodes past.refreshed e.nodes e.shot) :
    e.drainShot.1.Renews earlier past e := by
  have hcreated : e.Describes e.drainShot.1.created e.shot.created.toList :=
    describes_filterMap fun id hid => h.mem_created.1 hid
  obtain ⟨kept, later, hids, hkept, hlater⟩ := h.order
  -- the nodes in front are those that were there at the refresh
  have hold {id : NodeId} (hid : id ∈ kept) : past.contains id = true := by
    rcases List.mem_append.1 (hkept.subset hid) with hid | hid
    · exact Arena.contains_of_reports ((haccounts.mem_created id).1 hid).1
    · exact contains_of_mem_inOrder (List.mem_filter.1 (List.mem_filter.1 hid).1).1
  have hfront {id : NodeId} (hid : id ∈ e.shot.created.toList) (hlive : past.contains id = true) :
      id ∈ kept := by
    rw [hids] at hid
    refine (List.mem_append.1 hid).resolve_right fun hid => ?_
    rw [show past.contains id = false from hlater id hid] at hlive
    cases hlive
  refine
    { created := ⟨_, h.accounts.created_nodup, hcreated, fun id => h.mem_created,
        fun x hx hxlive y hy hydead => ?_, fun hnone x hx y hy hxy => ?_⟩
      updated := ?_
      deleted_nodup := h.accounts.deleted_nodup.map NodeId.oid_injective
      mem_deleted := fun oid => ?_ }
  · have hy' : y ∈ later := by
      rw [hids] at hy
      refine (List.mem_append.1 hy).resolve_left fun hy => ?_
      rw [hold hy] at hydead
      cases hydead
    rw [hids]
    exact (List.singleton_sublist.2 (hfront hx hxlive)).append (List.singleton_sublist.2 hy')
  · have habove : past.shape.Above x y := (mem_ancestors hpast.valid hpast.tree).1 hxy
    have hxlive : past.contains x = true :=
      contains_iff_shape.2 (hpast.tree.above_live habove)
    have hylive : past.contains y = true := by
      obtain ⟨p, -, n, hn, -⟩ := Relation.TransGen.tail'_iff.1 habove
      exact contains_iff_shape.2 ⟨n, hn⟩
    have hranked : kept.Pairwise fun a b => a ≠ b ∧ ¬past.shape.Above b a := by
      refine List.Pairwise.sublist hkept ?_
      unfold refreshed
      rw [hnone]
      exact (hpast.pairwise_inOrder.filter _).filter _
    have hne : x ≠ y := by
      rintro rfl
      exact hpast.tree.above_irrefl habove
    rw [hids]
    exact (pair_sublist_of_mem hranked (hfront hx hxlive) (hfront hy hylive) hne
      fun hyx => hyx.2 habove).trans (List.sublist_append_left kept later)
  · change e.shot.updated.toList.filterMap e.payload = []
    rw [h.updated_eq]
    rfl
  · have hlost (id : NodeId) : id ∈ e.shot.deleted.toList ↔
        earlier.isReportable id = true ∧ past.contains id = false := by
      rw [h.mem_deleted, Arena.reports_without, Bool.and_eq_true, decide_eq_true_iff]
      refine ⟨fun ⟨hout, hr⟩ => ⟨hr, ?_⟩, fun ⟨hr, hdead⟩ => ⟨fun hmem => ?_, hr⟩⟩
      · by_contra hlive
        exact hout (hpast.mem_inOrder (by simpa using hlive))
      · rw [contains_of_mem_inOrder hmem] at hdead
        cases hdead
    change oid ∈ e.shot.deleted.toList.map NodeId.oid ↔ _
    rw [List.mem_map]
    constructor
    · rintro ⟨id, hid, rfl⟩
      exact ⟨id, rfl, (hlost id).1 hid⟩
    · rintro ⟨id, rfl, hid⟩
      exact ⟨id, (hlost id).2 hid, rfl⟩

end Engine

/-- What a mirror has after a batch that lists every node as new. -/
theorem ShotBatch.Renews.get?_apply {b : ShotBatch} {earlier past e : Engine}
    (h : b.Renews earlier past e)
    (hgone : ∀ id, earlier.isReportable id = true → past.contains id = false →
      e.contains id = false) (m : Mirror) (id : NodeId) :
    (m.apply b).get? id.oid = if e.isReportable id then e.payload id
      else if earlier.isReportable id && !past.contains id then none else m.get? id.oid := by
  obtain ⟨ids, hnodup, hcreated, hmem, -, -⟩ := h.created
  have hnew (id : NodeId) : id.oid ∈ b.created.map (·.id) ↔ e.isReportable id = true := by
    rw [hcreated.ids, List.mem_map_of_injective NodeId.oid_injective, hmem]
  have hdead (id : NodeId) : id.oid ∈ b.deleted ↔
      earlier.isReportable id = true ∧ past.contains id = false := by
    rw [h.mem_deleted]
    constructor
    · rintro ⟨id', heq, hid⟩
      rwa [← NodeId.oid_injective heq]
    · exact fun hid => ⟨id, rfl, hid⟩
  split
  · rename_i hr
    have hreported : b.reported.Nodup := by
      unfold reported
      rw [h.updated, List.map_nil, List.append_nil]
      refine List.nodup_append.2 ⟨?_, h.deleted_nodup, fun oid hc oid' hd heq => ?_⟩
      · rw [hcreated.ids]
        exact hnodup.map NodeId.oid_injective
      · rw [← heq] at hd
        obtain ⟨id', rfl, hid'⟩ := (h.mem_deleted oid).1 hd
        have hlive := Arena.contains_of_reports ((hnew id').1 hc)
        rw [show e.nodes.contains id' = false from hgone id' hid'.1 hid'.2] at hlive
        cases hlive
    obtain ⟨p, hp, hid⟩ := List.mem_map.1 ((hnew id).2 hr)
    have hpayload : e.payload id = some p := by
      have hp' : some p ∈ ids.map e.payload := hcreated ▸ List.mem_map_of_mem hp
      obtain ⟨id', -, hp'⟩ := List.mem_map.1 hp'
      rw [Engine.id_of_payload hp'] at hid
      rw [← NodeId.oid_injective hid, hp']
    rw [hpayload, ← hid]
    exact Mirror.get?_apply_created hreported hp m
  · rename_i hr
    rw [Mirror.get?_apply_of_unreported (fun hc => hr ((hnew id).1 hc)) (by simp [h.updated])]
    simp [hdead]

/-! ## Runs -/

namespace Engine

/-- What comes of a refresh. -/
theorem Runs.of_refreshes {e e' : Engine} {op : Operation} {r : Except EngineError Outcome}
    (h : e.Runs [op] [r] e') (hop : op.refreshes = true) : e' = e.refresh := by
  obtain _ | ⟨first, rest⟩ := h
  cases rest
  have hrefresh : op = .refresh ∨ op = .handle .refresh := by
    unfold Operation.refreshes at hop
    split at hop
    · exact .inl rfl
    · exact .inr rfl
    · cases hop
  rcases hrefresh with rfl | rfl
  · rcases Act.gives_map.1 first with ⟨_, hstep, -⟩ | ⟨err, herr, -⟩
    · exact (Act.gives_change.1 hstep).2
    · exact (Act.gives_change.1 herr).2
  · rcases Act.gives_map.1 first with ⟨_, hstep, -⟩ | ⟨err, herr, -⟩
    · exact (Act.gives_change.1 hstep).2
    · exact (Act.gives_change.1 herr).2

/-- After a refresh the next batch lists every node of the tree as it is, whatever a host does in
between, and whatever fails or is cut off. Given to any mirror it puts all of them there, and takes
those away that went between the batch before and the refresh. It leaves alone what went later. -/
theorem Runs.renews {host : Host} {before between later : List Operation} {op : Operation}
    {rs₁ rs₂ rs₃ : List (Except EngineError Outcome)} {r r' : Except EngineError Outcome}
    {e₁ e₂ e₃ e₄ e₅ : Engine} (h₁ : host.start.Runs before rs₁ e₁)
    (hdrained : before = [] ∨ before.getLast? = some .drainShot)
    (h₂ : e₁.Runs between rs₂ e₂) (h₃ : e₂.Runs [op] [r] e₃) (hrefreshes : op.refreshes = true)
    (h₄ : e₃.Runs later rs₃ e₄) (h₅ : e₄.Runs [.drainShot] [r'] e₅)
    (hdrains : ∀ op ∈ between ++ later, op.drains = false)
    (hrefresh : ∀ op ∈ between, op.refreshes = false)
    (hbuilds : ∀ op ∈ before ++ between, op.builds = false)
    (hok : ∀ r ∈ rs₁ ++ rs₂, ∃ outcome, r = .ok outcome) (hentries : e₂.entries = 0)
    (hroom : e₄.nodes.Roomy) :
    ∃ b, r' = .ok (.batch b) ∧ b.Renews e₁ e₂ e₄ ∧ ∀ (m : Mirror) (id : NodeId),
      (m.apply b).get? id.oid = if e₄.isReportable id then e₄.payload id
        else if e₁.isReportable id && !e₂.contains id then none else m.get? id.oid := by
  obtain rfl := h₃.of_refreshes hrefreshes
  have hnodrain {ops : List Operation} {I : Engine → Prop} (hops : ops ⊆ between ++ later) :
      ∀ op ∈ ops, op.drains = true → ∀ e, I e → I { e with shot := .empty } := fun op hop hd => by
    rw [hdrains op (hops hop)] at hd
    cases hd
  have hroom₂ : e₂.nodes.Roomy := h₃.roomy (h₄.roomy hroom)
  -- up to the refresh the tree is in order and its changes are accounted for
  obtain ⟨ρ, hrooted⟩ := (h₁.append h₂).rooted hbuilds hok ⟨hentries, hroom₂⟩ host.rooted_start
  have hvalid : e₁.nodes.Valid :=
    h₁.keeps valid_stable.closed (fun _ _ he => he)
      (fun _ _ _ e he => by rw [refresh_eq]; exact he) (fun _ _ _ _ he => he) Arena.valid_empty
  have haccounts : AccountsSince e₁.nodes e₂ := by
    refine h₂.keeps (accounts_stable e₁.nodes).closed (fun _ _ he => he) (fun op hop hr => ?_)
      (hnodrain (List.subset_append_left _ _)) fun _ => ?_
    · rw [hrefresh op hop] at hr
      cases hr
    · rw [h₁.shot_eq_empty hdrained]
      exact .start hvalid (fun _ => rfl) fun _ => rfl
  have haccounts := haccounts hroom₂
  have hrenewed : RenewedSince (e₁.nodes.without e₂.inOrder) e₂.nodes e₂.refreshed e₄ :=
    h₄.keeps (renewed_stable _ _ _).closed (fun _ _ he => he) (fun _ _ _ _ he => he.refresh)
      (hnodrain (List.subset_append_right _ _)) fun _ => hrooted.renewed haccounts
  have hrenews := hrooted.renewing haccounts (hrenewed hroom)
  obtain ⟨rfl, -⟩ := h₅.of_drainShot
  refine ⟨_, rfl, hrenews, hrenews.get?_apply fun id hold hdead => ?_⟩
  -- what was gone at the refresh is lost, and no lost node is alive
  by_contra hlive
  have hlost := (hrenewed hroom).lost_of_live (Bool.of_not_eq_false hlive)
  rw [Arena.contains_without, Bool.and_eq_false_iff, decide_eq_false_iff_not, not_not] at hlost
  rcases hlost with hmem | hnew
  · rw [contains_of_mem_inOrder hmem] at hdead
    cases hdead
  · rw [Arena.contains_of_reports hold] at hnew
    cases hnew

/-- The branch of a condition goes after a refresh, and no mirror loses it. -/
theorem Runs.renews_branch :
    let host : Host :=
      { library :=
        { registry :=
          { sources := .ofList
              [("Main", "\x7b\x7b!#if x\x7d\x7d<b></b>\x7b\x7b!/if\x7d\x7d")] } } }
    let e₁ := host.start.after 9 [.mount "Main" (.ofList [("x", .bool true)]), .drainShot]
    let e₂ := e₁.after 9 [.refresh]
    let e₃ := e₂.after 9 [.setVar ⟨0, 0⟩ "x" (.bool false)]
    e₁.isReportable ⟨2, 0⟩ = true ∧ e₃.contains ⟨2, 0⟩ = false ∧ e₃.drainShot.1.Renews e₁ e₁ e₃ ∧
      ∀ m : Mirror, (m.apply e₃.drainShot.1).get? (NodeId.oid ⟨2, 0⟩) =
        m.get? (NodeId.oid ⟨2, 0⟩) := by
  intro host e₁ e₂ e₃
  obtain ⟨rs₁, h₁, hok⟩ := runs_after_ok 9
    [.mount "Main" (.ofList [("x", .bool true)]), .drainShot] host.start (by decide +kernel)
  obtain ⟨rs₂, h₂⟩ := runs_after 9 [.refresh] e₁ (by decide +kernel)
  obtain ⟨rs₃, h₃⟩ := runs_after 9 [.setVar ⟨0, 0⟩ "x" (.bool false)] e₂ (by decide +kernel)
  have hold : e₁.isReportable ⟨2, 0⟩ = true := by decide +kernel
  have hthere : e₁.contains ⟨2, 0⟩ = true := by decide +kernel
  have hgone : e₃.contains ⟨2, 0⟩ = false := by decide +kernel
  have hdead : e₃.isReportable ⟨2, 0⟩ = false := by decide +kernel
  have hentries : e₁.entries = 0 := by decide +kernel
  have hroom : e₃.nodes.slots.size < UInt32.size := by decide +kernel
  change host.start.Runs _ rs₁ e₁ at h₁
  change e₁.Runs _ rs₂ e₂ at h₂
  change e₂.Runs _ rs₃ e₃ at h₃
  clear_value e₁ e₂ e₃
  obtain _ | ⟨first, ⟨⟩⟩ := h₂
  obtain ⟨b, hb, hrenews, hmirror⟩ := Runs.renews h₁ (.inr rfl) (.nil e₁)
    (.cons first (.nil e₂)) rfl h₃ (.drainShot e₃) (by simp [Operation.drains]) (by simp)
    (by simp [Operation.builds]) (by simpa using hok) hentries hroom
  obtain rfl := Outcome.batch.inj (Except.ok.inj hb)
  refine ⟨hold, hgone, hrenews, fun m => ?_⟩
  rw [hmirror, hdead, hthere, Bool.not_true, Bool.and_false]
  rfl

end Engine
end ReactiveView
