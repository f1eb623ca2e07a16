import ReactiveView.Proofs.Operation
import ReactiveView.Proofs.Structure.Updating

/-!
# Sessions keep trees

What the operations of a host do to the tree of an engine. Between operations there is a tree below
the root of the engine, all loops are in order, and without a root there is no node
(`Engine.Rooted`); every operation that succeeds leaves it so (`Operation.act_leads`).

Operations are described by what they lead to if they succeed (`Act.Leads`), which, other than the
descriptions of views, also speaks of the root of the engine.
-/

namespace ReactiveView

/-! ## Roots -/

namespace Engine

variable {e e' : Engine} {r id : NodeId}

/-- Operations on the tree leave the root. -/
theorem root_stable (root : Option NodeId) : OperationStable fun e => e.root = root where
  outside he _ _ hroot _ := hroot.trans he
  enter he := he
  change _ _ _ he := he
  update _ he := he
  insert _ he := he
  remove _ he := he

/-- The tree of an engine is below a node, which is its root if there is any node. -/
structure RootedAt (e : Engine) (r : NodeId) : Prop where
  /-- The arena is valid. -/
  valid : e.nodes.Valid
  /-- The nodes are a tree. -/
  tree : e.shape.Tree r
  /-- All loops are in order. -/
  sound : e.view.Sound []
  /-- The engine knows the root. -/
  root : e.root = if e.contains r then some r else none

/-- The nodes of an engine are a tree below its root. -/
def Rooted (e : Engine) : Prop := ∃ r, e.RootedAt r

/-- What a root depends on. -/
theorem RootedAt.congr (h : e.RootedAt r) (hvalid : e'.nodes.Valid) (hview : e'.view = e.view)
    (hroot : e'.root = e.root) : e'.RootedAt r where
  valid := hvalid
  tree := by
    have hshape : e'.shape = e.shape := congrArg View.shape hview
    rw [hshape]
    exact h.tree
  sound := hview ▸ h.sound
  root := by rw [hroot, h.root, ← live_view, ← live_view, hview]

/-- The view is that of the nodes. -/
theorem view_congr (hnodes : e'.nodes = e.nodes) : e'.view = e.view :=
  View.ext (shape_congr hnodes) (congrArg Arena.Spent hnodes)

/-- The root stays when a tree is changed so that it is kept. -/
theorem RootedAt.settles (h : e.RootedAt r) (hvalid : e'.nodes.Valid)
    (hsettles : e.view.Settles e'.view) (hroot : e'.root = e.root) : e'.RootedAt r := by
  obtain ⟨ht, hsound, hlive⟩ := hsettles r h.tree h.sound
  refine ⟨hvalid, ht, hsound, ?_⟩
  rw [hroot, h.root, ← live_view, ← live_view, hlive]

/-- Without a root there is no node. -/
theorem RootedAt.vacant (h : e.RootedAt r) (hroot : e.root = none) (x : NodeId) :
    e.shape x = none := by
  have hr : e.contains r ≠ true := by
    intro hlive
    have hsome := h.root
    rw [if_pos hlive, hroot] at hsome
    cases hsome
  refine Option.eq_none_iff_forall_ne_some.2 fun n hn => hr (contains_iff_shape.2 ?_)
  by_cases hx : x = r
  · exact ⟨n, hx ▸ hn⟩
  · exact h.tree.above_live (h.tree.root_above hn hx)

/-- The root is there. -/
theorem RootedAt.eq_of_root (h : e.RootedAt r) {ρ : NodeId} (hroot : e.root = some ρ) :
    r = ρ ∧ e.contains r = true := by
  have hsome := h.root
  rw [hroot] at hsome
  split at hsome
  · rename_i hlive
    exact ⟨(Option.some.inj hsome).symm, hlive⟩
  · cases hsome

/-- If there is a node, there is a root. -/
theorem RootedAt.root_of_live (h : e.RootedAt r) (hid : e.contains id = true) :
    e.root = some r := by
  cases hroot : e.root with
  | none =>
    obtain ⟨n, hn⟩ := contains_iff_shape.1 hid
    rw [h.vacant hroot id] at hn
    cases hn
  | some ρ => rw [(h.eq_of_root hroot).1]

/-- An engine is about to lose a node, and does not take it for the root any more. -/
structure Losing (e : Engine) (r id : NodeId) : Prop where
  /-- The arena is valid. -/
  valid : e.nodes.Valid
  /-- The nodes are a tree. -/
  tree : e.shape.Tree r
  /-- All loops are in order. -/
  sound : e.view.Sound []
  /-- The node is there. -/
  live : e.contains id = true
  /-- The engine knows what the root will be. -/
  root : e.root = if r = id then none else some r

/-- Removing a node leaves a tree. -/
theorem Losing.removeNode (h : e.Losing r id) : (e.removeNode id).RootedAt r := by
  have hvalid := valid_stable.closed.removeNode id h.valid
  have hshape := shape_removeNode h.valid h.tree h.live
  have hview : (e.removeNode id).view.shape = e.view.shape.uproot id := hshape
  have ht' : (e.removeNode id).shape.Tree r := hshape ▸ h.tree.uproot
  have hlater : e.view.Later (e.removeNode id).view :=
    Operates.later (fun I hI he => hI.closed.removeNode id he) h.valid
  have hroot : (e.removeNode id).root = e.root := (root_stable e.root).closed.removeNode id rfl
  obtain ⟨n, hn⟩ := contains_iff_shape.1 h.live
  by_cases hid : r = id
  · have hnone (x : NodeId) : (e.removeNode id).shape x = none := by
      rw [hshape]
      refine Option.eq_none_iff_forall_ne_some.2 fun m hm => ?_
      obtain ⟨hout, m', hm', -⟩ := Forest.of_cut hm
      rw [← hid] at hout
      exact hout (.inr (h.tree.root_above hm' fun heq => hout (.inl heq)))
    refine ⟨hvalid, ht', fun x n hn _ => ?_, ?_⟩
    · rw [show (e.removeNode id).view.shape x = none from hnone x] at hn
      cases hn
    · have hdead : (e.removeNode id).contains r ≠ true := fun hlive => by
        obtain ⟨m, hm⟩ := contains_iff_shape.1 hlive
        rw [hnone r] at hm
        cases hm
      rw [hroot, h.root, if_pos hid, if_neg hdead]
  · obtain ⟨p, np, hp, -⟩ := h.tree.parent id n hn fun heq => hid heq.symm
    have hc : e.view.shape.Parent p id := ⟨n, hn, hp⟩
    obtain ⟨m, hm⟩ := h.tree.above_live (h.tree.root_above hn fun heq => hid heq.symm)
    have hlive : (e.removeNode id).contains r = true := by
      have hout : ¬(r = id ∨ e.shape.Above id r) := fun hin =>
        hin.elim hid h.tree.not_above_root
      exact contains_iff_shape.2 ⟨_, by rw [hshape, Forest.uproot, Forest.to_cut hout hm]⟩
    refine ⟨hvalid, ht', h.sound.uproot h.tree hc hlater hview, ?_⟩
    rw [hroot, h.root, if_neg hid, if_pos hlive]

/-- Adding a root to an engine without nodes makes a tree. -/
theorem RootedAt.addRoot (h : e.RootedAt r) (hroot : e.root = none) (routine : Routine)
    (scope : Scope) (hcalm : (e.addRoot routine scope).2.Calm) :
    (e.addRoot routine scope).2.RootedAt (e.addRoot routine scope).1 := by
  let data : ContextData := { name := routine.name, routine := routine, scope := scope }
  let n : RenderNode :=
    { kind := .context data, parent := none, context := ⟨0, 0⟩, flags := { reportable := true } }
  let id := (e.nodes.insert n).1
  let f : RenderNode → RenderNode := fun m => { m with context := id }
  have hroom : e.nodes.Roomy := by
    have hroom : ((e.nodes.insert n).2.modify id f).Roomy := hcalm.2
    exact ((Arena.roomy_modify id f).1 hroom).of_insert
  have hself : (e.addRoot routine scope).2.shape id = some (f n).shape := by
    change Option.map _ (((e.nodes.insert n).2.modify id f).get? id) = _
    rw [Arena.get?_modify, if_pos rfl, Arena.get?_insert_self h.valid hroom]
    rfl
  have hother (x : NodeId) (hx : x ≠ id) : (e.addRoot routine scope).2.shape x = none := by
    change Option.map _ (((e.nodes.insert n).2.modify id f).get? x) = none
    rw [Arena.get?_modify, if_neg hx, Arena.get?_insert h.valid hroom, if_neg hx]
    exact h.vacant hroot x
  refine ⟨(h.valid.insert n).modify id f, ?_, fun x m hm _ => ?_, ?_⟩
  · exact .single hself hother rfl rfl rfl rfl
  · refine View.kept_of_not_keyed ?_
    by_cases hx : x = id
    · have hm' : (e.addRoot routine scope).2.shape id = some m := hx ▸ hm
      rw [hself, Option.some.injEq] at hm'
      rw [← hm']
      rfl
    · exact absurd ((hother x hx).symm.trans hm) (Option.some_ne_none m).symm
  · have hlive : (e.addRoot routine scope).2.contains id = true :=
      contains_iff_shape.2 ⟨_, hself⟩
    exact (if_pos hlive).symm

end Engine

/-! ## Successful operations -/

variable {α β : Type}

/-- If an operation succeeds, it leads from engines with one property to calm engines with
another. -/
structure Act.Leads (P : Engine → Prop) (x : Act α) (Q : α → Engine → Prop) : Prop where
  /-- It does not calm the engine. -/
  calm : x.Keeps fun e => ¬e.Calm
  /-- From engines with the one property it leads to those with the other. -/
  spec : ∀ ⦃e a e'⦄, x.Gives e (.ok a) e' → e'.Calm → P e → Q a e'

namespace Act

variable {P P' : Engine → Prop} {Q Q' : α → Engine → Prop}

/-- A weaker promise under a stronger condition. -/
theorem Leads.imp {x : Act α} (h : x.Leads P Q) (hP : ∀ e, P' e → P e)
    (hQ : ∀ a e, Q a e → Q' a e) : x.Leads P' Q' :=
  ⟨h.calm, fun _ _ _ hgives hcalm he => hQ _ _ (h.spec hgives hcalm (hP _ he))⟩

/-- A promise for each of several conditions. -/
theorem leads_exists {ι : Type} {P : ι → Engine → Prop} {Q : ι → α → Engine → Prop} [Inhabited ι]
    {x : Act α} (h : ∀ i, x.Leads (P i) (Q i)) :
    x.Leads (fun e => ∃ i, P i e) fun a e => ∃ i, Q i a e :=
  ⟨(h default).calm, fun _ _ _ hgives hcalm ⟨i, he⟩ => ⟨i, (h i).spec hgives hcalm he⟩⟩

/-- A result without a change. -/
theorem leads_pure {a : α} (h : ∀ e, P e → Q a e) : Act.Leads P (pure a) Q where
  calm := keeps_pure a
  spec e a' e' hgives _ he := by
    obtain ⟨ha, rfl⟩ := gives_pure.1 hgives
    obtain rfl := Except.ok.inj ha
    exact h _ he

/-- A failure leads nowhere. -/
theorem leads_throw (err : EngineError) : Act.Leads P (throw err : Act α) Q where
  calm := keeps_throw err
  spec e a' e' hgives _ _ := by
    cases (gives_throw.1 hgives).1

/-- One operation after another. -/
theorem leads_bind {x : Act α} {f : α → Act β} {R : β → Engine → Prop} (hx : x.Leads P Q)
    (hf : ∀ a, (f a).Leads (Q a) R) : Act.Leads P (x >>= f) R where
  calm := keeps_bind hx.calm fun a => (hf a).calm
  spec e b e' hgives hcalm he := by
    rcases gives_bind.1 hgives with ⟨a, e₁, h₁, h₂⟩ | ⟨err, -, h⟩
    · have hcalm₁ : e₁.Calm := Classical.byContradiction fun h => (hf a).calm h₂ h hcalm
      exact (hf a).spec h₂ hcalm (hx.spec h₁ hcalm₁ he)
    · cases h

/-- A function of the result. -/
theorem leads_map {x : Act α} {f : α → β} (hx : x.Leads P fun _ => P') :
    Act.Leads P (f <$> x) fun _ => P' := by
  rw [← bind_pure_comp]
  exact leads_bind hx fun a => leads_pure fun _ he => he

/-- Reading the engine. -/
theorem leads_read (f : Engine → α) : (read f).Leads P fun a e => P e ∧ a = f e where
  calm := keeps_read f
  spec e a e' hgives _ he := by
    obtain ⟨ha, rfl⟩ := gives_read.1 hgives
    exact ⟨he, Except.ok.inj ha⟩

/-- Changing the engine, with a result. -/
theorem leads_step {f : Engine → α × Engine} (hf : ∀ e, ¬e.Calm → ¬(f e).2.Calm)
    (h : ∀ e, (f e).2.Calm → P e → Q (f e).1 (f e).2) : (step f).Leads P Q where
  calm := keeps_step hf
  spec e a e' hgives hcalm he := by
    obtain ⟨ha, rfl⟩ := gives_step.1 hgives
    obtain rfl := Except.ok.inj ha
    exact h e hcalm he

/-- Changing the engine. -/
theorem leads_change {f : Engine → Engine} {Q : Unit → Engine → Prop}
    (hf : ∀ e, ¬e.Calm → ¬(f e).Calm) (h : ∀ e, P e → Q () (f e)) : (change f).Leads P Q where
  calm := keeps_change hf
  spec e a e' hgives _ he := by
    obtain ⟨-, rfl⟩ := gives_change.1 hgives
    exact h e he

/-- A way out of failures that ends in a failure. -/
theorem leads_tryCatch {x : Act α} {f : EngineError → Act α} (hx : x.Leads P Q)
    (hf : ∀ err, (f err).Leads (fun _ => True) fun _ _ => False) : Act.Leads P (tryCatch x f) Q where
  calm := keeps_tryCatch hx.calm fun err => (hf err).calm
  spec e a e' hgives hcalm he := by
    rcases gives_tryCatch.1 hgives with ⟨a', h₁, ha⟩ | ⟨err, e₁, -, h₂⟩
    · obtain rfl := Except.ok.inj ha
      exact hx.spec h₁ hcalm he
    · exact ((hf err).spec h₂ hcalm trivial).elim

end Act

namespace Render

open Act

variable {re : Reentry} (hre : re.Grounded)
include hre

omit hre in
/-- An operation on the tree that keeps trees leads from trees to trees. -/
theorem leads_settles {x : Act α} {C : View → Prop}
    (hx : x.Ensures fun v _ v' => C v → v.Settles v')
    (hroot : ∀ root, x.Keeps fun e => e.root = root) (r : NodeId) (root : Option NodeId) :
    x.Leads (fun e => (e.RootedAt r ∧ e.root = root) ∧ C e.view) fun _ e =>
      e.RootedAt r ∧ e.root = root where
  calm := hx.calm
  spec := by
    rintro e a e' hgives hcalm ⟨⟨hrooted, he⟩, hc⟩
    have he' : e'.root = root := hroot root hgives he
    exact ⟨hrooted.settles (hx.valid hgives hrooted.valid)
      (hx.spec hgives hcalm hrooted.valid a rfl hc) (he'.trans he.symm), he'⟩

/-- Following queued writes up. -/
theorem flush_leads (limit rounds : Nat) (r : NodeId) (root : Option NodeId) :
    (flush re limit rounds).Leads (fun e => e.RootedAt r ∧ e.root = root) fun _ e =>
      e.RootedAt r ∧ e.root = root :=
  (leads_settles (C := fun _ => True) ((flush_does hre limit rounds).imp fun _ _ _ h _ => h)
    (fun root => flush_keeps (Engine.root_stable root).closed hre.operates limit rounds) r root).imp
      (fun _ h => ⟨h, trivial⟩) fun _ _ h => h

/-- Running an operation and following its writes up. -/
theorem batch_leads {x : Act α} {P : Engine → Prop} {r : NodeId} {root : Option NodeId}
    (hx : x.Leads P fun _ e => e.RootedAt r ∧ e.root = root) :
    (batch re x).Leads P fun _ e => e.RootedAt r ∧ e.root = root where
  calm := batch_keeps Engine.calm_stable.closed hre.operates hx.calm
  spec := by
    intro e a e' hgives hcalm he
    obtain ⟨outcome, e₁, h₁, hrest₁⟩ | ⟨err, -, h⟩ := gives_bind.1 hgives
    · obtain ⟨limit, e₁', h₂, hrest₂⟩ | ⟨err, -, h⟩ := gives_bind.1 hrest₁
      · obtain ⟨followed, e₂, h₃, hrest⟩ | ⟨err, -, h⟩ := gives_bind.1 hrest₂
        · obtain ⟨outcome', ho, hrun⟩ := gives_lift.1 h₁
          obtain ⟨-, rfl⟩ := gives_read.1 h₂
          obtain ⟨followed', hf, hflush⟩ := gives_lift.1 h₃
          obtain rfl := Except.ok.inj ho
          obtain rfl := Except.ok.inj hf
          cases outcome with
          | error err => cases (gives_throw.1 hrest).1
          | ok a₁ =>
            cases followed with
            | error err => cases (gives_throw.1 hrest).1
            | ok _ =>
              obtain ⟨-, rfl⟩ := gives_pure.1 hrest
              have hflushed := flush_leads hre limit limit r root
              have hcalm₁ : e₁'.Calm :=
                Classical.byContradiction fun h => hflushed.calm hflush h hcalm
              exact hflushed.spec hflush hcalm (hx.spec hrun hcalm₁ he)
        · cases h
      · cases h
    · cases h

/-- An evaluation leads from trees to trees. -/
theorem evaluation_leads {x : Act α} (hx : x.Evaluates re) (r : NodeId) (root : Option NodeId) :
    x.Leads (fun e => e.RootedAt r ∧ e.root = root) fun _ e => e.RootedAt r ∧ e.root = root := by
  have hstays := does_evaluation hre.operates hx
  refine (leads_settles (C := fun _ => True) (hstays.mono fun v _ v' h _ _ _ => ?_) (fun root => ?_)
    r root).imp (fun _ h => ⟨h, trivial⟩) fun _ _ h => h
  · rw [h]
    exact .refl v
  · have hroot := Engine.root_stable root
    exact hx _ hroot.evaluation (hre.operates.enters hroot.closed)

end Render

/-! ## Operations of the host -/

namespace Engine

open Act Render

variable (depth : Nat)

/-- An operation that leads from any root to trees leads from trees to trees. -/
theorem leads_of_roots {x : Act α} (h : ∀ r root, x.Leads (fun e => e.RootedAt r ∧ e.root = root)
    fun _ => Rooted) : x.Leads Rooted fun _ => Rooted :=
  (leads_exists fun r => leads_exists fun root => h r root).imp
    (fun _ ⟨r, h⟩ => ⟨r, _, h, rfl⟩) fun _ _ ⟨_, _, h⟩ => h

/-- An operation that leads from any root to the same root leads from trees to trees. -/
theorem leads_rooted {x : Act α} (h : ∀ r root, x.Leads (fun e => e.RootedAt r ∧ e.root = root)
    fun _ e => e.RootedAt r ∧ e.root = root) : x.Leads Rooted fun _ => Rooted :=
  leads_of_roots fun r root => (h r root).imp (fun _ h => h) fun _ _ h => ⟨r, h.1⟩

/-- Updating nodes. -/
theorem update_leads (id : NodeId) (recursive : Bool) :
    (batch (.within depth) (updateNode (.within depth) id recursive)).Leads Rooted
      fun _ => Rooted := by
  have hre := Reentry.within_grounded depth
  refine leads_rooted fun r root => batch_leads hre ?_
  refine (leads_settles (C := fun _ => True) ((updateNode_does hre id recursive).mono
    fun v r v' h a ha _ => h.settles ha) (fun root => ?_) r root).imp (fun _ h => ⟨h, trivial⟩)
      fun _ _ h => h
  exact updateNode_keeps (root_stable root).closed hre.operates id recursive

/-- Building a component instance anew. -/
theorem rebuild_leads (ctx : NodeId) : (rebuild depth ctx).Leads Rooted fun _ => Rooted := by
  have hre := Reentry.within_grounded depth
  refine leads_rooted fun r root => leads_bind (Q := fun _ e => e.RootedAt r ∧ e.root = root) ?_
    fun _ => batch_leads hre ?_
  · refine evaluation_leads hre (fun I h _ => keeps_change fun e he => ?_) r root
    split
    · exact h.tracking.send _ he
    · exact he
  · refine (leads_settles (C := fun _ => True) ((rebuildContext_does hre ctx).mono
      fun v r v' h a ha _ => h.settles ha) (fun root => ?_) r root).imp (fun _ h => ⟨h, trivial⟩)
        fun _ _ h => h
    exact rebuildContext_keeps (root_stable root).closed hre.operates ctx

/-- Running an evaluation and following its writes up. -/
theorem batch_evaluation_leads {x : Act α} (hx : x.Evaluates (.within depth)) (r : NodeId)
    (root : Option NodeId) : (batch (.within depth) x).Leads
      (fun e => e.RootedAt r ∧ e.root = root) fun _ e => e.RootedAt r ∧ e.root = root :=
  batch_leads (Reentry.within_grounded depth)
    (evaluation_leads (Reentry.within_grounded depth) hx r root)

/-- Writing a variable. -/
theorem setVar_leads (ctx : NodeId) (name : String) (v : Value) :
    (setVar depth ctx name v).Leads Rooted fun _ => Rooted := by
  have hre := Reentry.within_grounded depth
  refine leads_rooted fun r root => leads_bind (evaluation_leads hre
    (fun I _ _ => checkedOwner_keeps ctx) r root) fun owner => ?_
  exact batch_evaluation_leads depth (fun I h _ => keeps_change fun _ he => h.tracking.writeVar owner name v he)
    r root

/-- Calling a function. -/
theorem call_leads (ctx : NodeId) (name : String) (args : List Value) :
    (call depth ctx name args).Leads Rooted fun _ => Rooted := by
  have hre := Reentry.within_grounded depth
  refine leads_rooted fun r root => leads_bind (evaluation_leads hre
    (fun I _ _ => checkedOwner_keeps ctx) r root) fun _ => ?_
  exact batch_evaluation_leads depth (fun I h hen => callHook_keeps h.tracking hen ctx none name args) r root

/-- Reporting every node again. -/
theorem refresh_leads : (change refresh).Leads Rooted fun _ => Rooted := by
  have hsame (e : Engine) : e.refresh.nodes = e.nodes ∧ e.refresh.root = e.root ∧
      e.refresh.entries = e.entries := by
    unfold refresh
    split
    · exact ⟨rfl, rfl, rfl⟩
    · exact ⟨rfl, rfl, rfl⟩
  refine leads_change (fun e he h => he ?_) fun e ⟨r, he⟩ => ⟨r, ?_⟩
  · obtain ⟨hnodes, -, hentries⟩ := hsame e
    unfold Calm at h ⊢
    rwa [hnodes, hentries] at h
  · obtain ⟨hnodes, hroot, -⟩ := hsame e
    exact he.congr (hnodes ▸ he.valid) (view_congr hnodes) hroot

/-- Taking the changes since the last shot. -/
theorem drainShot_leads : (step drainShot).Leads Rooted fun _ => Rooted := by
  refine leads_step (fun e he => drainShot_keeps calm_stable.closed (fun _ h => h) he)
    fun e _ ⟨r, he⟩ => ⟨r, he.congr ?_ ?_ ?_⟩
  · exact drainShot_keeps valid_stable.closed (fun _ h => h) he.valid
  · -- only flags are lowered
    refine List.foldlRecOn (motive := fun e' : Engine => e'.view = e.view) _ _ rfl fun e' h id _ => ?_
    rw [← h]
    refine View.ext ?_ (funext fun x => propext (Arena.spent_modify x id _))
    exact Engine.shape_modifyNode_of_same fun _ _ => rfl
  · exact drainShot_keeps (root_stable e.root).closed (fun _ h => h) rfl

/-- Acting upon a message. -/
theorem handle_leads (message : Inbound) : (handle depth message).Leads Rooted fun _ => Rooted := by
  have hre := Reentry.within_grounded depth
  have hread {β : Type} (f : Engine → β) (r : NodeId) (root : Option NodeId) :=
    evaluation_leads hre (fun I _ _ => keeps_read (I := I) f) r root
  have hfind (oid : UInt64) (r : NodeId) (root : Option NodeId) :=
    evaluation_leads hre (fun I _ _ => checkedNode_keeps (I := I) oid) r root
  cases message with
  | click oid method args =>
    refine leads_rooted fun r root => leads_bind (hfind oid r root) fun id => ?_
    refine leads_bind (hread _ r root) fun ctx => ?_
    exact batch_evaluation_leads depth (fun I h hen => callHookSafely_keeps h.tracking hen ctx _ method _) r root
  | bind oid value =>
    refine leads_rooted fun r root => leads_bind (hfind oid r root) fun id => ?_
    refine leads_bind (hread _ r root) fun found => ?_
    cases found with
    | none => exact leads_pure fun _ he => he
    | some name =>
      refine leads_bind (hread _ r root) fun owner => ?_
      exact batch_evaluation_leads depth
        (fun I h _ => keeps_change fun _ he => h.tracking.writeVar owner name _ he) r root
  | answer kind oid value => exact leads_pure fun _ he => he
  | refresh => exact refresh_leads

/-- Removing a node that the engine does not take for the root any more. -/
theorem removeNode_leads (r id : NodeId) (root : Option NodeId) :
    (batchChange (.within depth) (·.removeNode id)).Leads
      (fun e => e.Losing r id ∧ e.root = root) fun _ e => e.RootedAt r ∧ e.root = root := by
  refine batch_leads (Reentry.within_grounded depth) (leads_change ?_ ?_)
  · exact fun e he => calm_stable.closed.removeNode id he
  · exact fun e ⟨he, hroot⟩ => ⟨he.removeNode, (root_stable root).closed.removeNode id hroot⟩

/-- Removing a node. -/
theorem remove_leads (id : NodeId) : (remove depth id).Leads Rooted fun _ => Rooted := by
  let forget (e : Engine) : Engine := if e.root = some id then { e with root := none } else e
  have hforget (e : Engine) : (forget e).nodes = e.nodes ∧ (forget e).entries = e.entries ∧
      (forget e).root = if e.root = some id then none else e.root := by
    unfold forget
    split
    · exact ⟨rfl, rfl, rfl⟩
    · exact ⟨rfl, rfl, rfl⟩
  have hrest (r : NodeId) : Act.Leads
      (fun e => e.RootedAt r ∧ e.contains id = true) (do
        Act.change forget
        batchChange (.within depth) (·.removeNode id)) fun _ => Rooted := by
    refine leads_bind (leads_change (Q := fun _ e => e.Losing r id) (fun e he h => he ?_) ?_)
      fun _ => ?_
    · obtain ⟨hnodes, hentries, -⟩ := hforget e
      unfold Calm at h ⊢
      rwa [hnodes, hentries] at h
    · rintro e ⟨he, hid⟩
      obtain ⟨hnodes, -, hroot⟩ := hforget e
      have he' : ({ forget e with root := e.root } : Engine).RootedAt r :=
        he.congr (hnodes ▸ he.valid) (view_congr hnodes) rfl
      refine ⟨he'.valid, he'.tree, he'.sound, ?_, ?_⟩
      · unfold contains at hid ⊢
        rwa [hnodes]
      · rw [hroot, he.root_of_live hid]
        simp only [Option.some.injEq]
    · exact (leads_exists fun root => removeNode_leads depth r id root).imp
        (fun e he => ⟨_, he, rfl⟩) fun _ e ⟨_, he, _⟩ => ⟨r, he⟩
  refine leads_bind (leads_read _) fun live => ?_
  cases live with
  | true =>
    have hall := leads_exists hrest
    exact hall.imp (fun e ⟨⟨r, he⟩, hid⟩ => ⟨r, he, hid.symm⟩) fun _ _ ⟨_, h⟩ => h
  | false => exact leads_bind (leads_throw _) fun _ => hrest default

/-- Showing a component in an engine without nodes. -/
theorem show_leads (routine : Routine) (scope : Scope) (r : NodeId) : Act.Leads
    (fun e => e.RootedAt r ∧ e.root = none) (do
      let id ← Act.step (·.addRoot routine scope)
      tryCatch (batch (.within depth) (runRoutine (.within depth) id .html)) fun err => do
        batchChange (.within depth) (·.removeNode id)
        Act.change fun e => { e with root := none }
        throw err
      return id) fun _ => Rooted := by
  have hre := Reentry.within_grounded depth
  refine leads_bind (Q := fun id e => e.RootedAt id ∧ e.root = some id) (leads_step ?_ ?_)
    fun id => ?_
  · exact fun e he => calm_stable.closed.addRoot (fun _ _ h => h) routine scope he
  · exact fun e hcalm ⟨he, hroot⟩ => ⟨he.addRoot hroot routine scope hcalm, rfl⟩
  refine leads_bind (Q := fun _ e => e.RootedAt id ∧ e.root = some id)
    (leads_tryCatch (batch_leads hre ?_) fun err => ?_) fun _ =>
      leads_pure fun e he => ⟨id, he.1⟩
  · have hbuilt : Act.Ensures (runRoutine (.within depth) id .html) fun v _ v' =>
        v.shape.IsContext id → v.Settles v' :=
      (runRoutine_does hre.toBuilds id .html).mono fun v r v' h a ha hctx => (h hctx).settles ha hctx
    refine (leads_settles hbuilt (fun root => ?_) id (some id)).imp (fun e he => ⟨he, ?_⟩)
      fun _ _ h => h
    · exact runRoutine_keeps (root_stable root).closed hre.operates id .html
    · obtain ⟨n, hn⟩ := contains_iff_shape.1 (he.1.eq_of_root he.2).2
      exact ⟨n, hn, (he.1.tree.root n hn).2.1⟩
  · refine leads_bind (Q := fun _ _ => True) ⟨?_, fun _ _ _ _ _ _ => trivial⟩ fun _ => ?_
    · exact batchChange_keeps calm_stable.closed hre.operates fun e he => calm_stable.closed.removeNode id he
    · exact leads_bind (Q := fun _ _ => True) (leads_change (fun _ he => he) fun _ _ => trivial)
        fun _ => leads_throw err

/-- Showing a component. -/
theorem mount_leads (name : String) (scope : Scope) :
    (mount depth name scope).Leads Rooted fun _ => Rooted := by
  have hre := Reentry.within_grounded depth
  have hresolve (r : NodeId) (root : Option NodeId) := evaluation_leads hre
    (fun I h _ => resolveComponent_keeps h.tracking name) r root
  refine leads_of_roots fun r root => leads_bind (hresolve r root) fun found => ?_
  cases found with
  | none => exact leads_throw _
  | some routine =>
    refine leads_bind (leads_read _) fun found => ?_
    cases found with
    | none => exact (show_leads depth routine scope r).imp (fun e he => ⟨he.1.1, he.2.symm⟩) fun _ _ h => h
    | some old =>
      refine leads_bind (leads_change (Q := fun _ e => e.Losing r old ∧ e.root = none)
        (fun _ he => he) ?_) fun _ => ?_
      · rintro e ⟨⟨he, -⟩, hroot⟩
        obtain ⟨rfl, hlive⟩ := he.eq_of_root hroot.symm
        exact ⟨⟨he.valid, he.tree, he.sound, hlive, (if_pos rfl).symm⟩, rfl⟩
      · exact leads_bind (removeNode_leads depth r old none) fun _ => show_leads depth routine scope r

end Engine

/-- Whether an operation builds at a cursor that the host gives. -/
def Operation.builds : Operation → Bool
  | build _ _ => true
  | _ => false

/-- Every operation that succeeds leaves a tree below the root. -/
theorem Operation.act_leads (depth : Nat) {op : Operation} (hop : op.builds = false) :
    (op.act depth).Leads Engine.Rooted fun _ => Engine.Rooted := by
  have hsame {f : Engine → Engine} (hnodes : ∀ e, (f e).nodes = e.nodes)
      (hroot : ∀ e, (f e).root = e.root) (hentries : ∀ e, (f e).entries = e.entries) :
      (∀ e, ¬e.Calm → ¬(f e).Calm) ∧ ∀ e, e.Rooted → (f e).Rooted := by
    refine ⟨fun e he h => he ?_, fun e ⟨r, he⟩ => ⟨r, ?_⟩⟩
    · unfold Engine.Calm at h ⊢
      rwa [hnodes, hentries] at h
    · exact he.congr ((hnodes e).symm ▸ he.valid) (Engine.view_congr (hnodes e)) (hroot e)
  cases op with
  | mount name scope => exact Act.leads_map (Engine.mount_leads depth name scope)
  | build body cursor => cases hop
  | update id => exact Act.leads_map (Engine.update_leads depth id false)
  | updateTree id => exact Act.leads_map (Engine.update_leads depth id true)
  | rebuild ctx => exact Act.leads_map (Engine.rebuild_leads depth ctx)
  | remove id => exact Act.leads_map (Engine.remove_leads depth id)
  | setVar ctx name v => exact Act.leads_map (Engine.setVar_leads depth ctx name v)
  | call ctx name args => exact Act.leads_map (Engine.call_leads depth ctx name args)
  | handle message => exact Act.leads_map (Engine.handle_leads depth message)
  | refresh => exact Act.leads_map Engine.refresh_leads
  | drainShot => exact Act.leads_map Engine.drainShot_leads
  | takeDiagnostics =>
    obtain ⟨hcalm, hkept⟩ := hsame (f := fun e => e.takeDiagnostics.2) (fun _ => rfl) (fun _ => rfl)
      fun _ => rfl
    exact Act.leads_map (Act.leads_step hcalm fun e _ he => hkept e he)
  | takeMessages =>
    obtain ⟨hcalm, hkept⟩ := hsame (f := fun e => e.takeMessages.2) (fun _ => rfl) (fun _ => rfl)
      fun _ => rfl
    exact Act.leads_map (Act.leads_step hcalm fun e _ he => hkept e he)
  | setCancel token =>
    obtain ⟨hcalm, hkept⟩ := hsame (f := fun e => { e with cancel := token }) (fun _ => rfl)
      (fun _ => rfl) fun _ => rfl
    exact Act.leads_map (Act.leads_change hcalm hkept)

/-- Runs do not calm an engine. -/
theorem Engine.Runs.calm {e e' : Engine} {ops : List Operation}
    {rs : List (Except EngineError Outcome)} (hrun : e.Runs ops rs e') (hcalm : e'.Calm) :
    e.Calm := by
  refine Classical.byContradiction fun h => ?_
  refine hrun.keeps Engine.calm_stable.closed (fun _ _ h => h) (fun _ _ _ e he hc => he ?_)
    (fun _ _ _ _ h => h) h hcalm
  unfold Engine.Calm Engine.refresh at hc
  split at hc
  · exact hc
  · exact hc

/-- Runs of operations that all succeed leave a tree below the root. -/
theorem Engine.Runs.rooted {e e' : Engine} {ops : List Operation}
    {rs : List (Except EngineError Outcome)} (hrun : e.Runs ops rs e')
    (hops : ∀ op ∈ ops, op.builds = false) (hok : ∀ r ∈ rs, ∃ outcome, r = .ok outcome)
    (hcalm : e'.Calm) (he : e.Rooted) : e'.Rooted := by
  induction hrun with
  | nil e => exact he
  | cons first rest ih =>
    rename_i op ops depth r rs
    obtain ⟨outcome, rfl⟩ := hok r List.mem_cons_self
    refine ih (fun op hop => hops op (List.mem_cons_of_mem _ hop))
      (fun r hr => hok r (List.mem_cons_of_mem _ hr)) hcalm ?_
    exact (Operation.act_leads depth (hops op List.mem_cons_self)).spec first (rest.calm hcalm) he

/-- A new engine has no nodes. -/
theorem Host.rooted_start (host : Host) : host.start.Rooted := by
  have hnone (x : NodeId) : host.start.shape x = none := rfl
  refine ⟨default, Arena.valid_empty, .of_none hnone, fun x n hn => ?_, rfl⟩
  rw [show host.start.view.shape x = none from hnone x] at hn
  cases hn

end ReactiveView
