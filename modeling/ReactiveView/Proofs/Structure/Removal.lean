import ReactiveView.Proofs.Refreshing
import ReactiveView.Proofs.Registrations
import ReactiveView.Proofs.Selective.Changes

/-!
# What a removal takes away

Removing a node takes the nodes of its subtree away, each of them once, and leaves every other node
as it was but for what it notes about those that went: its children, the names of nodes and the
records of reads (`Engine.Removes`). What one node takes along is said first (`Engine.own_dropNode`,
`Engine.findRef_dropNode`, `Engine.reads_dropNode`, `Engine.shot_dropNode`), then what a list of
nodes does, and from that what a subtree does (`Engine.removeNode_removes`).
-/

namespace ReactiveView

/-! ## What a node has of its own -/

/-- A node without the names and the reads of other nodes that it notes. -/
def RenderNode.own (n : RenderNode) : RenderNode := { n with kind := n.kind.unread }

/-- Changing what a component instance notes about other nodes leaves what is its own. -/
theorem RenderNode.own_modifyContext {f : ContextData → ContextData}
    (hf : ∀ data, (f data).unread = data.unread) (n : RenderNode) :
    RenderNode.own { n with kind := n.kind.modifyContext f } = n.own := by
  refine congrArg (fun kind => { n with kind := kind }) ?_
  cases n.kind with
  | context data => exact congrArg RenderKind.context (hf data)
  | _ => rfl

namespace Engine

variable {e e' : Engine} {n : RenderNode} {r c x y id owner : NodeId} {name k : String}

/-- What there is of an engine besides its nodes, its shot and its root. -/
def elsewhere (e : Engine) : Engine := { e with nodes := .empty, shot := .empty, root := none }

/-- The node that was given a name in a context, be it there or not. -/
def named? (e : Engine) (c : NodeId) (name : String) : Option NodeId :=
  (e.context? c).bind (·.refs.get? name)

/-! ## The steps of a removal -/

/-- Take a node out of the arena. -/
def takeOut (e : Engine) (id : NodeId) : Engine := { e with nodes := (e.nodes.remove id).2 }

/-- Report that a node is gone, if the consumer is told of it. -/
def reportGone (e : Engine) (n : RenderNode) (id : NodeId) : Engine :=
  if n.flags.reportable then { e with shot := e.shot.delete id } else e

/-- A node that is not there is not removed. -/
theorem dropNode_of_none (h : e.node? id = none) : e.dropNode id = e := by
  have hpurge : e.purge id = e := by
    rw [purge_eq, h]
  have hremove : e.nodes.remove id = (none, e.nodes) := Arena.remove_of_none h
  unfold dropNode
  dsimp only
  rw [hpurge, hremove]

/-- Dropping the records of a node removes no node. -/
theorem node?_eq_none_of_purge (h : (e.purge id).node? id = none) : e.node? id = none := by
  rw [node?_eq_none] at h ⊢
  rwa [(shape_stable e.shape).purge id rfl] at h

/-- A node is removed in four steps. -/
theorem dropNode_eq (h : (e.purge id).node? id = some n) :
    e.dropNode id = (((e.purge id).takeOut id).unbindRef n id).reportGone n id := by
  unfold dropNode
  dsimp only
  rw [Arena.remove_fst, show (e.purge id).nodes.get? id = some n from h]
  rfl

/-- What a change of the records of a node leaves is left when all its records are dropped. -/
theorem purge_induction {P : Engine → Prop} (e : Engine) (id : NodeId)
    (hstart : P e) (hwatchers : P (e.modifyNode id fun n => { n with watchers := [] }))
    (hstep : ∀ e owner, P e → P (e.modifyIndex owner (·.purge id))) : P (e.purge id) := by
  rw [purge_eq]
  split
  · exact hstart
  · exact List.foldlRecOn _ _ hwatchers fun e h owner _ => hstep e owner h

/-- What each step of the removal of a node leaves is left by the removal. -/
theorem dropNode_induction {P : Engine → Prop} (e : Engine) (id : NodeId) (hstart : P e)
    (hpurge : P e → P (e.purge id)) (htake : ∀ e, P e → P (e.takeOut id))
    (hunbind : ∀ e n, P e → P (e.unbindRef n id)) (htell : ∀ e n, P e → P (e.reportGone n id)) :
    P (e.dropNode id) := by
  cases hn : (e.purge id).node? id with
  | none =>
    rw [dropNode_of_none (node?_eq_none_of_purge hn)]
    exact hstart
  | some n =>
    rw [dropNode_eq hn]
    exact htell _ _ (hunbind _ _ (htake _ (hpurge hstart)))

/-! ## What one node takes along -/

/-- Removing one node leaves what there is besides the nodes and the shot. -/
theorem elsewhere_dropNode (e : Engine) (id : NodeId) :
    (e.dropNode id).elsewhere = e.elsewhere := by
  refine e.dropNode_induction id (P := fun e' => e'.elsewhere = e.elsewhere) rfl (fun _ => ?_)
    (fun _ h => h) (fun e' n h => ?_) fun e' n h => ?_
  · exact e.purge_induction id (P := fun e' => e'.elsewhere = e.elsewhere) rfl rfl fun _ _ h => h
  · unfold unbindRef
    split
    · exact h
    · exact h
  · unfold reportGone
    split
    · exact h
    · exact h

/-- Changing what a component instance notes about others leaves what all nodes have of their own. -/
theorem own_modifyContext {f : ContextData → ContextData}
    (hf : ∀ data, (f data).unread = data.unread) :
    ((e.modifyContext id f).node? x).map RenderNode.own = (e.node? x).map RenderNode.own := by
  unfold modifyContext modifyKind
  rw [node?_modifyNode]
  split
  · rename_i hx
    rw [hx, Option.map_map]
    congr 1
    funext n
    exact n.own_modifyContext hf
  · rfl

/-- Changing an index leaves what all nodes have of their own. -/
theorem own_modifyIndex (f : ReactiveIndex NodeId → ReactiveIndex NodeId) :
    ((e.modifyIndex owner f).node? x).map RenderNode.own = (e.node? x).map RenderNode.own :=
  own_modifyContext (f := fun data => { data with index := f data.index }) fun _ => rfl

/-- Removing one node leaves what the others have of their own. -/
theorem own_dropNode (e : Engine) (id x : NodeId) : ((e.dropNode id).node? x).map RenderNode.own =
    if x = id then none else (e.node? x).map RenderNode.own := by
  by_cases hx : x = id
  · rw [if_pos hx, Option.map_eq_none_iff, node?_eq_none, shape_dropNode, if_pos hx]
  rw [if_neg hx]
  refine e.dropNode_induction id
    (P := fun e' => (e'.node? x).map RenderNode.own = (e.node? x).map RenderNode.own) rfl
    (fun _ => ?_) (fun e' h => ?_) (fun e' n h => ?_) fun e' n h => ?_
  · refine e.purge_induction id
      (P := fun e' => (e'.node? x).map RenderNode.own = (e.node? x).map RenderNode.own) rfl ?_
      fun e' owner h => (own_modifyIndex _).trans h
    rw [node?_modifyNode, if_neg hx]
  · refine Eq.trans (congrArg _ ?_) h
    exact (Arena.get?_remove id x).trans (if_neg hx)
  · refine Eq.trans ?_ h
    unfold unbindRef
    split
    · rfl
    · refine own_modifyContext fun data => ?_
      split
      · rfl
      · rfl
  · unfold reportGone
    split
    · exact h
    · exact h

/-- A node is there if it has something of its own. -/
theorem contains_eq_own (e : Engine) (x : NodeId) :
    e.contains x = ((e.node? x).map RenderNode.own).isSome := by
  rw [Option.isSome_map]
  rfl

/-- Whether the consumer is told of a node is its own. -/
theorem isReportable_eq_own (e : Engine) (x : NodeId) :
    e.isReportable x = ((e.node? x).map RenderNode.own).any (·.flags.reportable) := by
  unfold isReportable
  cases e.node? x with
  | none => rfl
  | some n => rfl

/-- Removing one node removes that node. -/
theorem contains_dropNode (e : Engine) (id x : NodeId) :
    (e.dropNode id).contains x = (x ≠ id && e.contains x) := by
  rw [contains_eq_own, own_dropNode, contains_eq_own]
  by_cases hx : x = id
  · simp [hx]
  · simp [hx]

/-- Removing one node leaves whether the consumer is told of the others. -/
theorem isReportable_dropNode (e : Engine) (id x : NodeId) :
    (e.dropNode id).isReportable x = (x ≠ id && e.isReportable x) := by
  rw [isReportable_eq_own, own_dropNode, isReportable_eq_own]
  by_cases hx : x = id
  · simp [hx]
  · simp [hx]

/-- Removing one node reports it, if the consumer is told of it. -/
theorem shot_dropNode (e : Engine) (id : NodeId) :
    (e.dropNode id).shot = if e.isReportable id then e.shot.delete id else e.shot := by
  have hunbind (e : Engine) (n : RenderNode) : (e.unbindRef n id).shot = e.shot := by
    unfold unbindRef
    split
    · rfl
    · rfl
  have hshot : (e.purge id).shot = e.shot :=
    e.purge_induction id (P := fun e' => e'.shot = e.shot) rfl rfl fun _ _ h => h
  have hreport : (e.purge id).isReportable id = e.isReportable id := by
    refine e.purge_induction id (P := fun e' => e'.isReportable id = e.isReportable id) rfl ?_
      fun e' owner h => ?_
    · refine isReportable_modifyNode (fun n => ?_) id
      rfl
    · rw [← h, isReportable_eq_own, own_modifyIndex, isReportable_eq_own]
  cases hn : (e.purge id).node? id with
  | none =>
    have hgone := node?_eq_none_of_purge hn
    rw [dropNode_of_none hgone, isReportable, hgone]
    rfl
  | some n =>
    have hreportable : e.isReportable id = n.flags.reportable := by
      rw [← hreport, isReportable, hn]
      rfl
    rw [dropNode_eq hn, hreportable]
    unfold reportGone
    split
    · exact congrArg (·.delete id) ((hunbind ((e.purge id).takeOut id) n).trans hshot)
    · exact (hunbind ((e.purge id).takeOut id) n).trans hshot

/-- Changing the data of a component instance changes that of no other. -/
theorem context?_modifyContext (f : ContextData → ContextData) :
    (e.modifyContext id f).context? c = if c = id then (e.context? id).map f else e.context? c := by
  unfold context? modifyContext modifyKind
  rw [node?_modifyNode]
  split
  · cases e.node? id with
    | none => rfl
    | some n =>
      obtain ⟨kind, _, _, _, _, _, _, _⟩ := n
      cases kind with
      | _ => rfl
  · rfl

/-- Dropping the records of a node leaves the names. -/
theorem named?_purge (e : Engine) (id c : NodeId) (name : String) :
    (e.purge id).named? c name = e.named? c name := by
  refine e.purge_induction id (P := fun e' => e'.named? c name = e.named? c name) rfl ?_
    fun e' owner h => ?_
  · unfold named? context?
    rw [node?_modifyNode]
    split
    · rename_i hc
      rw [hc]
      cases e.node? id with
      | none => rfl
      | some n => rfl
    · rfl
  · rw [← h]
    unfold named? modifyIndex
    rw [context?_modifyContext]
    split
    · rename_i hc
      rw [hc]
      cases e'.context? owner with
      | none => rfl
      | some data => rfl
    · rfl

/-- Taking the name of a node away takes no other name away. -/
theorem named?_unbindRef (e : Engine) (n : RenderNode) (id c : NodeId) (name : String) :
    (e.unbindRef n id).named? c name = e.named? c name ∨
      (e.unbindRef n id).named? c name = none ∧ e.named? c name = some id := by
  unfold unbindRef
  split
  · exact .inl rfl
  · rename_i bound _
    unfold named?
    rw [context?_modifyContext]
    split
    · rename_i hc
      rw [hc]
      cases e.context? n.context with
      | none => exact .inl rfl
      | some data =>
        rw [Option.map_some, Option.bind_some, Option.bind_some]
        split
        · rename_i hbound
          rw [OrderedMap.get?_erase]
          split
          · rename_i hname
            exact .inr ⟨rfl, hname ▸ hbound⟩
          · exact .inl rfl
        · exact .inl rfl
    · exact .inl rfl

/-- Removing one node takes its own names away at most. -/
theorem named?_dropNode (e : Engine) (name : String) (hc : c ≠ id) :
    (e.dropNode id).named? c name = e.named? c name ∨
      (e.dropNode id).named? c name = none ∧ e.named? c name = some id := by
  refine e.dropNode_induction id (P := fun e' => e'.named? c name = e.named? c name ∨
    e'.named? c name = none ∧ e.named? c name = some id) (.inl rfl) (fun h => ?_) (fun e' h => ?_)
    (fun e' n h => ?_) fun e' n h => ?_
  · rwa [named?_purge]
  · have hsame : (e'.takeOut id).named? c name = e'.named? c name := by
      unfold named? context?
      rw [show (e'.takeOut id).node? c = e'.node? c from (Arena.get?_remove id c).trans (if_neg hc)]
    rwa [hsame]
  · rcases e'.named?_unbindRef n id c name with hsame | ⟨hnone, hid⟩
    · rwa [hsame]
    · refine .inr ⟨hnone, ?_⟩
      rcases h with h | ⟨hgone, h⟩
      · exact h.symm.trans hid
      · exact h
  · unfold reportGone
    split
    · exact h
    · exact h

/-- A name finds the node that was given it, if that is there. -/
theorem findRef_eq (e : Engine) (c : NodeId) (name : String) :
    e.findRef c name = (e.named? c name).filter e.contains := rfl

/-- Removing one node takes it away from under its names, and its own names. -/
theorem findRef_dropNode (e : Engine) (id c : NodeId) (name : String) :
    (e.dropNode id).findRef c name =
      if c = id then none else (e.findRef c name).filter (· ≠ id) := by
  rw [findRef_eq, findRef_eq]
  split
  · rename_i hc
    have hgone : (e.dropNode id).node? id = none := by
      rw [node?_eq_none, shape_dropNode, if_pos rfl]
    rw [hc, named?, context?, hgone]
    rfl
  · rename_i hc
    have hboth : (e.dropNode id).contains = fun x => x ≠ id && e.contains x :=
      funext (e.contains_dropNode id)
    rcases e.named?_dropNode name hc with hsame | ⟨hnone, hid⟩
    · rw [hsame, hboth]
      cases e.named? c name with
      | none => rfl
      | some y =>
        rw [Option.filter_some, Option.filter_some]
        cases hlive : e.contains y with
        | true => simp only [Bool.and_true, if_true, Option.filter_some]
        | false => simp only [Bool.and_false, Bool.false_eq_true, if_false, Option.filter_none]
    · rw [hnone, hid, Option.filter_some, Option.filter_none]
      split
      · rw [Option.filter_some]
        simp only [ne_eq, not_true_eq_false, decide_false, Bool.false_eq_true, if_false]
      · rfl

/-- Removing one node drops its own reads only. -/
theorem reads_dropNode (e : Engine) (hc : c ≠ id) (hy : y ≠ id) :
    (e.dropNode id).Reads c k y ↔ e.Reads c k y := by
  refine e.dropNode_induction id (P := fun e' => e'.Reads c k y ↔ e.Reads c k y) .rfl (fun h => ?_)
    (fun e' h => ?_) (fun e' n h => ?_) fun e' n h => ?_
  · refine e.purge_induction id (P := fun e' => e'.Reads c k y ↔ e.Reads c k y) .rfl ?_
      fun e' owner h => Iff.trans ?_ h
    · unfold Reads
      rw [index?_modifyNode_of_same]
      exact fun _ _ => rfl
    · unfold Reads
      rw [index?_modifyIndex]
      split
      · rename_i howner
        subst howner
        constructor
        · rintro ⟨index, hindex, hmem⟩
          obtain ⟨index, hold, rfl⟩ := Option.map_eq_some_iff.1 hindex
          exact ⟨index, hold, ((index.mem_dependents_purge k id y).1 hmem).1⟩
        · rintro ⟨index, hindex, hmem⟩
          exact ⟨_, Option.map_eq_some_iff.2 ⟨index, hindex, rfl⟩,
            (index.mem_dependents_purge k id y).2 ⟨hmem, fun h => hy h.2⟩⟩
      · exact .rfl
  · refine Iff.trans ?_ h
    unfold Reads index?
    rw [show (e'.takeOut id).node? c = e'.node? c from (Arena.get?_remove id c).trans (if_neg hc)]
  · refine Iff.trans ?_ h
    unfold unbindRef
    split
    · exact .rfl
    · unfold Reads modifyContext modifyKind
      rw [index?_modifyNode_of_same]
      intro n _
      obtain ⟨kind, _, _, _, _, _, _, _⟩ := n
      cases kind with
      | context data =>
        unfold RenderKind.modifyContext RenderKind.index?
        dsimp only
        split
        · rfl
        · rfl
      | _ => rfl
  · unfold reportGone
    split
    · exact h
    · exact h

/-! ## Many nodes -/

variable {ids : List NodeId}

/-- Removing nodes leaves what the others have of their own. -/
theorem own_foldl_dropNode (ids : List NodeId) (x : NodeId) : ∀ e : Engine,
    ((ids.foldl dropNode e).node? x).map RenderNode.own =
      if x ∈ ids then none else (e.node? x).map RenderNode.own := by
  induction ids with
  | nil => exact fun _ => (if_neg List.not_mem_nil).symm
  | cons id ids ih =>
    intro e
    rw [List.foldl_cons, ih, own_dropNode]
    by_cases hx : x = id
    · simp [hx]
    · simp [hx]

/-- Removing nodes removes these nodes. -/
theorem contains_foldl_dropNode (ids : List NodeId) (e : Engine) (x : NodeId) :
    (ids.foldl dropNode e).contains x = (x ∉ ids && e.contains x) := by
  rw [contains_eq_own, own_foldl_dropNode, contains_eq_own]
  by_cases hx : x ∈ ids
  · simp [hx]
  · simp [hx]

/-- Removing nodes takes them away from under their names, and their own names. -/
theorem findRef_foldl_dropNode (ids : List NodeId) (c : NodeId) (name : String) : ∀ e : Engine,
    (ids.foldl dropNode e).findRef c name =
      if c ∈ ids then none else (e.findRef c name).filter (· ∉ ids) := by
  induction ids with
  | nil =>
    intro e
    cases h : e.findRef c name with
    | none => simp [h]
    | some y => simp [h, Option.filter_some]
  | cons id ids ih =>
    intro e
    rw [List.foldl_cons, ih, findRef_dropNode]
    by_cases hc : c = id
    · simp [hc]
    · cases e.findRef c name with
      | none => simp
      | some y => by_cases hy : y = id <;> simp [hc, hy, Option.filter_some]

/-- Removing nodes drops their own reads only. -/
theorem reads_foldl_dropNode (hc : c ∉ ids) (hy : y ∉ ids) :
    (ids.foldl dropNode e).Reads c k y ↔ e.Reads c k y := by
  induction ids generalizing e with
  | nil => exact .rfl
  | cons id ids ih =>
    rw [List.mem_cons, not_or] at hc hy
    exact (ih hc.2 hy.2).trans (e.reads_dropNode hc.1 hy.1)

/-- Removing nodes keeps the records of reads in step. -/
theorem Registered.foldl_dropNode (ids : List NodeId) (h : e.Registered) :
    (ids.foldl Engine.dropNode e).Registered :=
  List.foldlRecOn ids _ h fun _ h id _ => h.dropNode id

/-- Removing nodes leaves what there is besides the nodes and the shot. -/
theorem elsewhere_foldl_dropNode (ids : List NodeId) (e : Engine) :
    (ids.foldl dropNode e).elsewhere = e.elsewhere :=
  List.foldlRecOn (motive := fun e' : Engine => e'.elsewhere = e.elsewhere) ids _ rfl
    fun e' h id _ => (e'.elsewhere_dropNode id).trans h

/-- Removing nodes reports those that the consumer is told of, in turn. -/
theorem shot_foldl_dropNode (hids : ids.Nodup) : ∀ e : Engine,
    (ids.foldl dropNode e).shot = (ids.filter e.isReportable).foldl Shot.delete e.shot := by
  induction ids with
  | nil => exact fun _ => rfl
  | cons id ids ih =>
    intro e
    obtain ⟨hid, hids⟩ := List.nodup_cons.1 hids
    have hrest : ids.filter (e.dropNode id).isReportable = ids.filter e.isReportable := by
      refine List.filter_congr fun x hx => ?_
      have hne : x ≠ id := ne_of_mem_of_not_mem hx hid
      rw [isReportable_dropNode, decide_eq_true hne, Bool.true_and]
    rw [List.foldl_cons, ih hids, hrest, shot_dropNode]
    cases hreportable : e.isReportable id with
    | true => rw [List.filter_cons_of_pos hreportable, List.foldl_cons, if_pos rfl]
    | false => rw [List.filter_cons_of_neg (by simp [hreportable]), if_neg Bool.false_ne_true]

end Engine

namespace Shot

variable {s : Shot} {ids : List NodeId}

/-- Reports of nodes that are gone take back the reports of these nodes as new or changed. -/
theorem filter_foldl_delete (ids : List NodeId) : ∀ s : Shot,
    (ids.foldl delete s).created.toList = s.created.toList.filter (· ∉ ids) ∧
    (ids.foldl delete s).updated.toList = s.updated.toList.filter (· ∉ ids) := by
  induction ids with
  | nil => simp
  | cons id ids ih =>
    intro s
    rw [List.foldl_cons, (ih _).1, (ih _).2, updated_delete]
    have hcreated : (s.delete id).created.toList = s.created.toList.filter (· ≠ id) := by
      by_cases hid : id ∈ s.created.toList
      · rw [(delete_of_mem_created hid).1]
        rfl
      · rw [(delete_of_not_mem_created hid).1]
        exact (List.filter_eq_self.2 fun x hx =>
          decide_eq_true (ne_of_mem_of_not_mem hx hid)).symm
    rw [hcreated]
    unfold OrderedSet.erase
    rw [List.filter_filter, List.filter_filter]
    constructor <;> exact List.filter_congr fun x _ => by simp [not_or, Bool.and_comm]

/-- Nodes that are gone are reported as such once each, unless they were reported as new. -/
theorem deleted_foldl_delete (hids : ids.Nodup) (hnew : ∀ x ∈ ids, x ∉ s.deleted.toList) :
    (ids.foldl delete s).deleted.toList =
      s.deleted.toList ++ ids.filter (· ∉ s.created.toList) := by
  induction ids generalizing s with
  | nil => simp
  | cons id ids ih =>
    obtain ⟨hid, hids⟩ := List.nodup_cons.1 hids
    have hhead := hnew id List.mem_cons_self
    have hrest {x : NodeId} (hx : x ∈ ids) : x ≠ id := ne_of_mem_of_not_mem hx hid
    rw [List.foldl_cons]
    by_cases hmem : id ∈ s.created.toList
    · obtain ⟨hcreated, hdeleted⟩ := delete_of_mem_created hmem
      rw [ih hids fun x hx => hdeleted ▸ hnew x (List.mem_cons_of_mem id hx), hcreated, hdeleted,
        List.filter_cons_of_neg (by simp [hmem])]
      refine congrArg _ (List.filter_congr fun x hx => ?_)
      simp [hrest hx]
    · obtain ⟨hcreated, hdeleted⟩ := delete_of_not_mem_created hmem
      have hinsert : (s.deleted.insert id).toList = s.deleted.toList ++ [id] := by
        unfold OrderedSet.insert OrderedSet.contains
        rw [if_neg (by simpa using hhead)]
      have hnew' (x : NodeId) (hx : x ∈ ids) : x ∉ (s.delete id).deleted.toList := by
        rw [hdeleted, OrderedSet.mem_insert]
        exact fun h => h.elim (hnew x (List.mem_cons_of_mem id hx)) (hrest hx)
      rw [ih hids hnew', hcreated, hdeleted, hinsert, List.append_assoc,
        List.filter_cons_of_pos (by simp [hmem])]
      rfl

end Shot

namespace Engine

variable {e e' : Engine} {n : RenderNode} {r c x y id : NodeId} {name k : String}

/-! ## A subtree -/

/-- A node leaves the children of its parent. -/
def detach (e : Engine) (id : NodeId) : Engine :=
  match (e.node? id).bind (·.parent) with
  | none => e
  | some parent =>
    e.modifyNode parent fun p => { p with children := p.children.filter (· ≠ id) }

/-- Before a node is removed, it leaves the children of its parent. -/
theorem removeNode_eq (hn : e.node? id = some n) :
    e.removeNode id = (e.detach id).dropSubtree id := by
  cases hp : n.parent with
  | none => simp only [removeNode, detach, hn, hp, Option.bind_some]
  | some parent => simp only [removeNode, detach, hn, hp, Option.bind_some]

/-- What each node has of its own when a node has left the children of its parent. -/
theorem own_detach (e : Engine) (id x : NodeId) :
    ((e.detach id).node? x).map RenderNode.own = (e.node? x).map fun n =>
      { n.own with
        children := if (e.node? id).bind (·.parent) = some x then n.children.filter (· ≠ id)
          else n.children } := by
  unfold detach
  split
  · rename_i hnone
    rw [hnone]
    rfl
  · rename_i parent hparent
    rw [hparent, node?_modifyNode]
    by_cases hx : x = parent
    · subst hx
      simp only [if_true, Option.map_map]
      rfl
    · have hne : ¬some parent = some x := fun h => hx (Option.some.inj h).symm
      simp only [hx, hne, if_false]
      rfl

/-- What a change of children leaves is left when a node leaves the children of its parent. -/
theorem detach_induction {P : Engine → Prop} (e : Engine) (id : NodeId) (hstart : P e)
    (hstep : ∀ p, P (e.modifyNode p fun n =>
      { n with children := n.children.filter (· ≠ id) })) : P (e.detach id) := by
  unfold detach
  split
  · exact hstart
  · exact hstep _

/-- No node goes when a node leaves the children of its parent. -/
theorem contains_detach (e : Engine) (id x : NodeId) : (e.detach id).contains x = e.contains x :=
  e.detach_induction id (P := fun e' => e'.contains x = e.contains x) rfl
    fun p => Arena.contains_modify p x _

/-- The consumer is told of the same nodes when a node leaves the children of its parent. -/
theorem isReportable_detach (e : Engine) (id x : NodeId) :
    (e.detach id).isReportable x = e.isReportable x := by
  refine e.detach_induction id (P := fun e' => e'.isReportable x = e.isReportable x) rfl fun p => ?_
  refine isReportable_modifyNode (fun n => ?_) x
  rfl

/-- Nothing is reported when a node leaves the children of its parent. -/
theorem shot_detach (e : Engine) (id : NodeId) : (e.detach id).shot = e.shot :=
  e.detach_induction id (P := fun e' => e'.shot = e.shot) rfl fun _ => rfl

/-- Nothing but nodes changes when a node leaves the children of its parent. -/
theorem elsewhere_detach (e : Engine) (id : NodeId) : (e.detach id).elsewhere = e.elsewhere :=
  e.detach_induction id (P := fun e' => e'.elsewhere = e.elsewhere) rfl fun _ => rfl

/-- The names are left when a node leaves the children of its parent. -/
theorem findRef_detach (e : Engine) (id c : NodeId) (name : String) :
    (e.detach id).findRef c name = e.findRef c name := by
  refine e.detach_induction id (P := fun e' => e'.findRef c name = e.findRef c name) rfl fun p => ?_
  have hcontains : (e.modifyNode p fun n =>
      { n with children := n.children.filter (· ≠ id) }).contains = e.contains :=
    funext fun y => Arena.contains_modify p y _
  rw [findRef_eq, findRef_eq, hcontains]
  unfold named? context?
  rw [node?_modifyNode]
  split
  · rename_i hc
    rw [hc]
    cases e.node? p with
    | none => rfl
    | some n => rfl
  · rfl

/-- The reads are left when a node leaves the children of its parent. -/
theorem reads_detach (e : Engine) (id c : NodeId) (k : String) (y : NodeId) :
    (e.detach id).Reads c k y ↔ e.Reads c k y := by
  refine e.detach_induction id (P := fun e' => e'.Reads c k y ↔ e.Reads c k y) .rfl fun p => ?_
  unfold Reads
  rw [index?_modifyNode_of_same]
  exact fun _ _ => rfl

/-- The nodes under a node are left when it leaves the children of its parent. -/
theorem postorder_detach (ht : e.shape.Tree r) (hn : e.node? id = some n) :
    (e.detach id).postorder id = e.postorder id := by
  unfold detach postorder
  split
  · rfl
  · rename_i parent hparent
    rw [hn, Option.bind_some] at hparent
    have hp : e.shape.Parent parent id := ⟨n.shape, shape_of_node? hn, hparent⟩
    -- the parent is not under the node
    have hsame (depth : Nat) : ∀ y, y = id ∨ e.shape.Above id y →
        (e.modifyNode parent fun p =>
          { p with children := p.children.filter (· ≠ id) }).postorderIn depth y =
            e.postorderIn depth y := by
      induction depth with
      | zero => exact fun _ _ => rfl
      | succ depth ih =>
        intro y hy
        have hne : y ≠ parent := by
          rintro rfl
          rcases hy with rfl | hy
          · exact ht.above_irrefl (.single hp)
          · exact ht.above_asymm hy (.single hp)
        unfold postorderIn
        rw [node?_modifyNode, if_neg hne]
        cases hm : e.node? y with
        | none => rfl
        | some m =>
          refine congrArg (· ++ [y]) (List.flatMap_congr fun c hc => ih c (.inr ?_))
          have hchild : e.shape.Parent y c := ht.child y m.shape c (shape_of_node? hm) hc
          rcases hy with rfl | hy
          · exact .single hchild
          · exact .tail hy hchild
    have hbound : (e.modifyNode parent fun p =>
        { p with children := p.children.filter (· ≠ id) }).chainBound = e.chainBound := by
      unfold chainBound modifyNode
      rw [Arena.size_modify]
    rw [hbound]
    exact hsame _ id (.inl rfl)

/-- Removing a node removes the nodes of its subtree, one after another. -/
theorem removeNode_eq_foldl (ht : e.shape.Tree r) (hn : e.node? id = some n) :
    e.removeNode id = (e.postorder id).foldl dropNode (e.detach id) := by
  rw [removeNode_eq hn, dropSubtree, postorder_detach ht hn]

/-- The nodes of a subtree are in the order of removal once each. -/
theorem nodup_postorder (ht : e.shape.Tree r) (id : NodeId) : (e.postorder id).Nodup := by
  refine (e.subtreeIn_perm_postorderIn _ id).nodup_iff.1 ?_
  exact (pairwise_subtreeIn ht _ id).imp fun h => h.1

/-- What is left of an engine from which a node was removed. -/
structure Removes (e : Engine) (id : NodeId) (e' : Engine) : Prop where
  /-- Exactly the nodes of the subtree are gone. -/
  contains : ∀ x, e'.contains x = true ↔ e.contains x = true ∧ x ∉ e.subtree id
  /-- What the others have of their own is as it was, except that the parent has a child less. -/
  own : ∀ x n, e.node? x = some n → x ∉ e.subtree id → ∃ n', e'.node? x = some n' ∧ n'.own =
    { n.own with
      children := if (e.node? id).bind (·.parent) = some x then n.children.filter (· ≠ id)
        else n.children }
  /-- In the others a name finds what it found, unless that is gone. -/
  findRef : ∀ c name, c ∉ e.subtree id →
    e'.findRef c name = (e.findRef c name).filter (· ∉ e.subtree id)
  /-- The others are recorded as readers where they were, and what is gone is recorded nowhere. -/
  reads : ∀ c k y, e'.Reads c k y ↔ e.Reads c k y ∧ c ∉ e.subtree id ∧ y ∉ e.subtree id
  /-- No index mentions what is gone. -/
  unmentioned : ∀ c data, e'.context? c = some data → ∀ x ∈ e.subtree id,
    x ∉ data.index.readers ∧ ∀ k, x ∉ data.index.dependents k
  /-- What is gone is not reported as new any more. -/
  created : e'.shot.created.toList = e.shot.created.toList.filter (· ∉ e.subtree id)
  /-- What is gone is not reported as changed any more. -/
  updated : e'.shot.updated.toList = e.shot.updated.toList.filter (· ∉ e.subtree id)
  /-- What is gone is reported as gone, if the consumer is told of it and it was not reported as new. -/
  deleted : e'.shot.deleted.toList = e.shot.deleted.toList ++
    (e.postorder id).filter fun x => e.isReportable x && x ∉ e.shot.created.toList
  /-- Nothing is reported as gone twice. -/
  deleted_nodup : e'.shot.deleted.toList.Nodup
  /-- Everything else is as it was. -/
  elsewhere : e'.elsewhere = e.elsewhere

/-- Readers that are recorded are there. -/
theorem Registered.reads_live (h : e.Registered) (hreads : e.Reads c k y) : e.contains y = true := by
  obtain ⟨index, hindex, hmem⟩ := hreads
  obtain ⟨hcoherent, hmentioned⟩ := h hindex
  obtain ⟨n, hn, -⟩ := hmentioned ((hcoherent.dual k y).1 hmem)
  exact contains_iff.2 ⟨n, hn⟩

/-- What is gone is mentioned in no index. -/
theorem Registered.unmentioned (h : e.Registered) {data : ContextData}
    (hdata : e.context? c = some data) (hx : e.contains x = false) :
    x ∉ data.index.readers ∧ ∀ k, x ∉ data.index.dependents k := by
  have hindex : e.index? c = some data.index := by
    obtain ⟨n, hn, hkind⟩ := Option.bind_eq_some_iff.1 hdata
    unfold index? RenderKind.index?
    rw [hn, Option.bind_some, hkind, Option.map_some]
  obtain ⟨hcoherent, hmentioned⟩ := h hindex
  have hnone (k : String) : k ∉ data.index.keysOf x := fun hk => by
    obtain ⟨n, hn, -⟩ := hmentioned hk
    rw [contains_iff.2 ⟨n, hn⟩] at hx
    cases hx
  exact ⟨hcoherent.not_mem_readers x (List.eq_nil_iff_forall_not_mem.2 hnone),
    fun k hk => hnone k ((hcoherent.dual k x).1 hk)⟩

/-- A context that has recorded a reader is there. -/
theorem Reads.context_live (h : e.Reads c k y) : e.contains c = true := by
  obtain ⟨index, hindex, -⟩ := h
  obtain ⟨n, hn, -⟩ := Option.bind_eq_some_iff.1 hindex
  exact contains_iff.2 ⟨n, hn⟩

/-- Removing a node removes its subtree and nothing else. -/
theorem removeNode_removes {earlier : Arena RenderNode} (ht : e.shape.Tree r)
    (hregistered : e.Registered) (haccounts : Accounts earlier e.nodes e.shot)
    (hid : e.contains id = true) : e.Removes id (e.removeNode id) := by
  obtain ⟨n, hn⟩ := contains_iff.1 hid
  have heq := removeNode_eq_foldl ht hn
  have hmem (x : NodeId) : x ∈ e.postorder id ↔ x ∈ e.subtree id :=
    (e.subtreeIn_perm_postorderIn _ id).mem_iff.symm
  have hnot : (fun x => decide (x ∉ e.postorder id)) = fun x => decide (x ∉ e.subtree id) :=
    funext fun x => decide_eq_decide.2 (not_congr (hmem x))
  have hown (x : NodeId) := own_foldl_dropNode (e.postorder id) x (e.detach id)
  rw [← heq] at hown
  have hregistered' : (e.removeNode id).Registered := by
    rw [heq]
    refine Registered.foldl_dropNode _ (e.detach_induction id (P := Registered) hregistered fun p => ?_)
    exact hregistered.modifyNode fun _ _ => ⟨rfl, rfl⟩
  have hcontains (x : NodeId) :
      (e.removeNode id).contains x = true ↔ e.contains x = true ∧ x ∉ e.subtree id := by
    rw [heq, contains_foldl_dropNode, Bool.and_eq_true, contains_detach, decide_eq_true_iff, hmem,
      and_comm]
  have hshot : (e.removeNode id).shot =
      ((e.postorder id).filter e.isReportable).foldl Shot.delete e.shot := by
    rw [heq, shot_foldl_dropNode (nodup_postorder ht id), funext (e.isReportable_detach id),
      shot_detach]
  have hlisted (x : NodeId) (hx : e.isReportable x = true) : x ∉ e.shot.deleted.toList := by
    intro hgone
    have hlive : e.contains x = true := Arena.contains_of_reports hx
    rw [show e.contains x = false from ((haccounts.mem_deleted x).1 hgone).2] at hlive
    cases hlive
  -- what is reported as new or changed is there, and reportable
  have hfilter (ids : List NodeId) (hids : ∀ x ∈ ids, e.isReportable x = true) :
      ids.filter (· ∉ (e.postorder id).filter e.isReportable) = ids.filter (· ∉ e.subtree id) := by
    refine List.filter_congr fun x hx => decide_eq_decide.2 (not_congr ?_)
    rw [List.mem_filter, hmem]
    exact ⟨fun h => h.1, fun h => ⟨h, hids x hx⟩⟩
  have hdeleted : (e.removeNode id).shot.deleted.toList = e.shot.deleted.toList ++
      (e.postorder id).filter fun x => e.isReportable x && x ∉ e.shot.created.toList := by
    rw [hshot, Shot.deleted_foldl_delete ((nodup_postorder ht id).filter _), List.filter_filter]
    · refine congrArg _ (List.filter_congr fun x _ => Bool.and_comm _ _)
    · exact fun x hx hgone => hlisted x (List.mem_filter.1 hx).2 hgone
  refine ⟨hcontains, ?_, ?_, ?_, ?_, ?_, ?_, hdeleted, ?_, ?_⟩
  · intro x m hm hx
    have h := hown x
    rw [if_neg (mt (hmem x).1 hx), own_detach, hm] at h
    exact Option.map_eq_some_iff.1 h
  · intro c name hc
    rw [heq, findRef_foldl_dropNode, if_neg (mt (hmem c).1 hc), hnot, findRef_detach]
  · intro c k y
    have hrest (hc : c ∉ e.subtree id) (hy : y ∉ e.subtree id) :
        (e.removeNode id).Reads c k y ↔ e.Reads c k y := by
      rw [heq]
      exact (reads_foldl_dropNode (mt (hmem c).1 hc) (mt (hmem y).1 hy)).trans
        (e.reads_detach id c k y)
    constructor
    · intro h
      have hc := ((hcontains c).1 h.context_live).2
      have hy := ((hcontains y).1 (hregistered'.reads_live h)).2
      exact ⟨(hrest hc hy).1 h, hc, hy⟩
    · exact fun ⟨h, hc, hy⟩ => (hrest hc hy).2 h
  · intro c data hdata x hx
    exact hregistered'.unmentioned hdata (Bool.eq_false_iff.2 fun h => ((hcontains x).1 h).2 hx)
  · rw [hshot, (Shot.filter_foldl_delete _ _).1]
    exact hfilter _ fun x hx => ((haccounts.mem_created x).1 hx).1
  · rw [hshot, (Shot.filter_foldl_delete _ _).2]
    exact hfilter _ fun x hx => (haccounts.of_mem_updated x hx).2
  · rw [hdeleted]
    refine List.nodup_append.2 ⟨haccounts.deleted_nodup, (nodup_postorder ht id).filter _, ?_⟩
    rintro x hgone y hy rfl
    exact hlisted x (Bool.and_eq_true_iff.1 (List.mem_filter.1 hy).2).1 hgone
  · rw [heq, elsewhere_foldl_dropNode, elsewhere_detach]

end Engine
end ReactiveView
