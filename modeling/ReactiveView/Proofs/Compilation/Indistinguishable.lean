import ReactiveView.Proofs.Compilation.Rendering
import ReactiveView.Proofs.Operation

/-!
# Interpreted and compiled execution

Two hosts that differ only in whether the templates of their libraries are run as they stand or
compiled cannot tell which of them they are. Every operation on engines with one norm has the same
result (`Operation.act_refines`), and engines with one norm show the same to a host
(`Engine.indistinguishable_of_norm_eq`). With this, operations have outcomes on the one host exactly
if they have outcomes on the other, and then they have the same results and leave engines that look
the same (`Host.interpreted_compiled`).
-/

namespace ReactiveView

/-- Two engines that show the same to a host. -/
structure Engine.Indistinguishable (e e' : Engine) : Prop where
  /-- The same nodes are live. -/
  contains : ∀ id, e.contains id = e'.contains id
  /-- The root is the same. -/
  root : e.root = e'.root
  /-- Every subtree has the same outline. -/
  outline : ∀ id, e.outline id = e'.outline id
  /-- The consumer is told the same of every node. -/
  payload : ∀ id, e.payload id = e'.payload id
  /-- The next shot has the same nodes in the same order. -/
  batch : e.drainShot.1 = e'.drainShot.1
  /-- The same problems were recorded. -/
  diagnostics : e.diagnostics = e'.diagnostics
  /-- The same messages were sent. -/
  messages : e.takeMessages.1 = e'.takeMessages.1
  /-- Every component instance has the same variables of its own. -/
  scope : ∀ ctx, e.scopeOf ctx = e'.scopeOf ctx
  /-- Every component instance shares variables with the same one. -/
  owner : ∀ ctx, e.scopeOwner ctx = e'.scopeOwner ctx
  /-- The same writes are still to be followed up. -/
  pending : e.pending = e'.pending

/-- What engines have in common with their norms, they have in common with each other. -/
theorem Engine.eq_of_norm_eq {α : Type} {f : Engine → α} (hf : ∀ e : Engine, f e.norm = f e)
    {e e' : Engine} (h : e.norm = e'.norm) : f e = f e' := by
  rw [← hf e, h, hf e']

/-- Engines with one norm show the same to a host. -/
theorem Engine.indistinguishable_of_norm_eq {e e' : Engine} (h : e.norm = e'.norm) :
    e.Indistinguishable e' where
  contains id := eq_of_norm_eq (f := (·.contains id)) (fun e => e.contains_norm id) h
  root := eq_of_norm_eq root_norm h
  outline id := eq_of_norm_eq (f := (·.outline id)) (fun e => e.outline_norm id) h
  payload id := eq_of_norm_eq (f := (·.payload id)) (fun e => e.payload_norm id) h
  batch := eq_of_norm_eq (f := (·.drainShot.1)) (fun e => by rw [drainShot_norm]) h
  diagnostics := eq_of_norm_eq diagnostics_norm h
  messages := eq_of_norm_eq (f := (·.takeMessages.1)) (fun _ => rfl) h
  scope ctx := eq_of_norm_eq (f := (·.scopeOf ctx)) (fun e => e.scopeOf_norm ctx) h
  owner ctx := eq_of_norm_eq (f := (·.scopeOwner ctx)) (fun e => e.scopeOwner_norm ctx) h
  pending := eq_of_norm_eq pending_norm h

open Act

/-! ## Operations -/

namespace Render

variable {re re' : Reentry}

/-- Running an operation and following its writes up. -/
theorem batch_refines (hre : re.Refines re') {α : Type} {x y : Act α} (hx : x.Refines Eq y) :
    (batch re x).Refines Eq (batch re' y) := by
  refine refines_bind (refines_run hx) fun outcome => ?_
  refine refines_bind (refines_read fun e => rfl) fun limit => ?_
  refine refines_bind (refines_run (flush_refines hre limit limit)) fun followed => ?_
  cases outcome with
  | error err => exact refines_throw err
  | ok a =>
    cases followed with
    | error err => exact refines_throw err
    | ok => exact refines_pure a

/-- Changing the engine and following the writes up. -/
theorem batchChange_refines (hre : re.Refines re') {f : Engine → Engine}
    (hf : ∀ e : Engine, f e.norm = (f e).norm) :
    (batchChange re f).Refines Eq (batchChange re' f) :=
  batch_refines hre (refines_change hf)

/-- Finding the variables of a context. -/
theorem checkedOwner_refines (ctx : NodeId) : (checkedOwner ctx).Refines Eq (checkedOwner ctx) := by
  refine refines_node ctx (refines_throw _) fun n n' h => ?_
  have hcontext : n.isContext = n'.isContext := by
    rw [← n.isContext_norm, h, n'.isContext_norm]
  dsimp only
  rw [hcontext]
  exact refines_ite (refines_read fun e => e.scopeOwner_norm ctx) (refines_throw _)

/-- Finding the node of a message. -/
theorem checkedNode_refines (oid : UInt64) : (checkedNode oid).Refines Eq (checkedNode oid) := by
  refine refines_bind (refines_read fun e => e.nodeByOid_norm oid) fun found => ?_
  cases found with
  | none => exact refines_throw _
  | some id => exact refines_pure id

end Render

namespace Engine

open Render

variable {depth depth' : Nat} (h : depth ≤ depth')
include h

/-- Showing a component. -/
theorem mount_refines (name : String) (scope : Scope) :
    (mount depth name scope).Refines Eq (mount depth' name scope) := by
  have hre := Reentry.within_refines h
  have hremove (id : NodeId) := batchChange_refines (f := (·.removeNode id)) hre fun e =>
    e.removeNode_norm id
  have hroot : Act.Refines Eq (Act.change fun e => { e with root := none })
      (Act.change fun e => { e with root := none }) := refines_change fun _ => rfl
  refine resolveComponent_refines name (refines_throw _) fun routine routine' hroutine => ?_
  have hshow : Act.Refines Eq (do
      let id ← Act.step (·.addRoot routine scope)
      tryCatch (batch (.within depth) (runRoutine (.within depth) id .html)) fun err => do
        batchChange (.within depth) (·.removeNode id)
        Act.change fun e => { e with root := none }
        throw err
      return id) (do
      let id ← Act.step (·.addRoot routine' scope)
      tryCatch (batch (.within depth') (runRoutine (.within depth') id .html)) fun err => do
        batchChange (.within depth') (·.removeNode id)
        Act.change fun e => { e with root := none }
        throw err
      return id) := by
    refine refines_bind (refines_step_of fun e e' he => addRoot_norm hroutine scope he) fun id => ?_
    refine refines_bind (refines_tryCatch ?_ fun err => ?_) fun _ => refines_pure id
    · exact batch_refines hre (runRoutine_refines hre id .html)
    · exact refines_bind (hremove id) fun _ => refines_bind hroot fun _ => refines_throw err
  refine refines_bind (refines_read fun e => e.root_norm) fun root => ?_
  cases root with
  | none => exact hshow
  | some old => exact refines_bind hroot fun _ => refines_bind (hremove old) fun _ => hshow

/-- Removing a node. -/
theorem remove_refines (id : NodeId) : (remove depth id).Refines Eq (remove depth' id) := by
  have hrest : Act.Refines Eq (do
      Act.change fun e => if e.root = some id then { e with root := none } else e
      batchChange (.within depth) (·.removeNode id)) (do
      Act.change fun e => if e.root = some id then { e with root := none } else e
      batchChange (.within depth') (·.removeNode id)) := by
    refine refines_bind (refines_change fun e => ?_) fun _ => ?_
    · rw [root_norm]
      split <;> rfl
    · exact batchChange_refines (Reentry.within_refines h) fun e => e.removeNode_norm id
  refine refines_bind (refines_read fun e => e.contains_norm id) fun live => ?_
  exact refines_ite (refines_bind (refines_throw _) fun _ => hrest) hrest

/-- Building a component instance anew. -/
theorem rebuild_refines (ctx : NodeId) : (rebuild depth ctx).Refines Eq (rebuild depth' ctx) := by
  have hre := Reentry.within_refines h
  refine refines_bind (refines_change fun e => ?_) fun _ => ?_
  · rw [root_norm]
    split <;> rfl
  · exact batch_refines hre (rebuildContext_refines hre ctx)

/-- Writing a variable. -/
theorem setVar_refines (ctx : NodeId) (name : String) (v : Value) :
    (setVar depth ctx name v).Refines Eq (setVar depth' ctx name v) :=
  refines_bind (checkedOwner_refines ctx) fun owner =>
    batchChange_refines (Reentry.within_refines h) fun e => e.writeVar_norm owner name v

/-- Calling a function. -/
theorem call_refines (ctx : NodeId) (name : String) (args : List Value) :
    (call depth ctx name args).Refines Eq (call depth' ctx name args) := by
  have hre := Reentry.within_refines h
  refine refines_bind (checkedOwner_refines ctx) fun _ => ?_
  exact batch_refines hre (callHook_refines hre ctx none name args)

/-- Acting upon a message. -/
theorem handle_refines (message : Inbound) :
    (handle depth message).Refines Eq (handle depth' message) := by
  have hre := Reentry.within_refines h
  cases message with
  | click oid method args =>
    refine refines_bind (checkedNode_refines oid) fun id => ?_
    refine refines_bind (refines_read fun e => e.owningContext_norm id) fun ctx => ?_
    exact batch_refines hre (callHookSafely_refines hre ctx _ method _)
  | bind oid value =>
    refine refines_bind (checkedNode_refines oid) fun id => ?_
    refine refines_bind (refines_read fun e => by rw [element?_norm]) fun found => ?_
    cases found with
    | none => exact refines_pure _
    | some name =>
      refine refines_bind (refines_read fun e => ?_) fun owner => ?_
      · rw [owningContext_norm, scopeOwner_norm]
      · exact batchChange_refines hre fun e => e.writeVar_norm owner name _
  | answer kind oid value => exact refines_pure _
  | refresh => exact refines_change fun e => e.refresh_norm

end Engine

/-- Every operation has the same outcome on engines with one norm, if it has one. -/
theorem Operation.act_refines {depth depth' : Nat} (h : depth ≤ depth') (op : Operation) :
    (op.act depth).Refines Eq (op.act depth') := by
  have hre := Reentry.within_refines h
  cases op with
  | mount name scope => exact refines_map _ (Engine.mount_refines h name scope)
  | build body cursor => exact refines_map _ (Render.batch_refines hre (hre.build cursor rfl))
  | update id =>
    exact refines_map _ (Render.batch_refines hre (Render.updateNode_refines hre id false))
  | updateTree id =>
    exact refines_map _ (Render.batch_refines hre (Render.updateNode_refines hre id true))
  | rebuild ctx => exact refines_map _ (Engine.rebuild_refines h ctx)
  | remove id => exact refines_map _ (Engine.remove_refines h id)
  | setVar ctx name v => exact refines_map _ (Engine.setVar_refines h ctx name v)
  | call ctx name args => exact refines_map _ (Engine.call_refines h ctx name args)
  | handle message => exact refines_map _ (Engine.handle_refines h message)
  | refresh => exact refines_map _ (refines_change fun e => e.refresh_norm)
  | drainShot => exact refines_map _ (refines_step fun e => e.drainShot_norm)
  | takeDiagnostics => exact refines_map _ (refines_step fun _ => rfl)
  | takeMessages => exact refines_map _ (refines_step fun _ => rfl)
  | setCancel token => exact refines_map _ (refines_change fun _ => rfl)

/-! ## Runs -/

/-- An operation has at most one outcome. -/
theorem Act.Gives.unique {α : Type} {x : Act α} {e e₁ e₂ : Engine} {r r' : Except EngineError α}
    (h : x.Gives e r e₁) (h' : x.Gives e r' e₂) : r = r' ∧ e₁ = e₂ :=
  Prod.mk.inj (Option.some.inj (h.symm.trans h'))

/-- An operation has corresponding outcomes on engines with one norm, whatever the depths at which
it has them. -/
theorem Operation.act_gives_norm {op : Operation} {depth depth' : Nat} {e e' e₁ e₁' : Engine}
    {r r' : Except EngineError Outcome} (he : e.norm = e'.norm) (h : (op.act depth).Gives e r e₁)
    (h' : (op.act depth').Gives e' r' e₁') : r = r' ∧ e₁.norm = e₁'.norm := by
  -- Both outcomes are also those at the greater depth.
  have hle : depth ≤ max depth depth' := Nat.le_max_left _ _
  have hle' : depth' ≤ max depth depth' := Nat.le_max_right _ _
  obtain ⟨s, e₂, hs, he₂, hrs⟩ := act_refines hle op he h
  obtain ⟨s', e₂', hs', he₂', hrs'⟩ := act_refines hle' op rfl h'
  obtain ⟨rfl, rfl⟩ := hs.unique hs'
  exact ⟨hrs.eq.trans hrs'.eq.symm, he₂.trans he₂'.symm⟩

namespace Engine.Runs

variable {e e' e₁ e₁' : Engine} {ops : List Operation} {rs rs' : List (Except EngineError Outcome)}

/-- What has outcomes on an engine has outcomes on all engines of its norm. -/
theorem exists_of_norm_eq (h : e.Runs ops rs e₁) (he : e.norm = e'.norm) :
    ∃ e₁', e'.Runs ops rs e₁' ∧ e₁.norm = e₁'.norm := by
  induction h generalizing e' with
  | nil e => exact ⟨e', .nil e', he⟩
  | @cons e e₁ e₂ op ops depth r rs first _ ih =>
    obtain ⟨r', e₁', first', he₁, hr⟩ := op.act_refines (Nat.le_refl depth) he first
    obtain rfl := hr.eq
    obtain ⟨e₂', rest', he₂⟩ := ih he₁
    exact ⟨e₂', .cons first' rest', he₂⟩

/-- Runs of the same operations on engines with one norm have the same results. -/
theorem norm_eq (h : e.Runs ops rs e₁) (h' : e'.Runs ops rs' e₁') (he : e.norm = e'.norm) :
    rs = rs' ∧ e₁.norm = e₁'.norm := by
  induction h generalizing e' rs' with
  | nil e =>
    cases h'
    exact ⟨rfl, he⟩
  | cons first _ ih =>
    obtain _ | ⟨first', rest'⟩ := h'
    obtain ⟨rfl, he₁⟩ := Operation.act_gives_norm he first first'
    obtain ⟨rfl, he₂⟩ := ih rest' he₁
    exact ⟨rfl, he₂⟩

end Engine.Runs

/-! ## Hosts -/

namespace Host

/-- A host that runs its templates as they stand, and has read none of them yet. -/
def interpreted (host : Host) : Host :=
  { host with library := ⟨host.library.registry.clear, .interpreted, host.library.files⟩ }

/-- A host that compiles its templates, and has read and compiled none of them yet. -/
def compiled (host : Host) : Host :=
  { host with library := ⟨host.library.registry.clear, .compiled .empty none, host.library.files⟩ }

/-- Hosts that run their templates as they stand and hosts that compile them start with one norm. -/
theorem start_norm (host : Host) : host.interpreted.start.norm = host.compiled.start.norm := by
  have hreads := host.library.registry.reads_clear host.library.files
  have hlibrary : host.interpreted.library.Alike host.compiled.library :=
    ⟨_, _, .interpreted hreads, .compiled hreads fun _ _ h => by cases h⟩
  simp only [start, Engine.norm, Arena.map]
  rw [hlibrary.norm_eq]
  rfl

/-- Operations have outcomes on a host that runs its templates as they stand exactly if they have
outcomes on one that compiles them. Each of them then has the same result, and the engines show the
same afterwards. -/
theorem interpreted_compiled (host : Host) (ops : List Operation) :
    ((∃ rs e, host.interpreted.start.Runs ops rs e) ↔
      ∃ rs e, host.compiled.start.Runs ops rs e) ∧
    ∀ {rs rs' : List (Except EngineError Outcome)} {e e' : Engine},
      host.interpreted.start.Runs ops rs e → host.compiled.start.Runs ops rs' e' →
        rs = rs' ∧ e.Indistinguishable e' := by
  refine ⟨⟨?_, ?_⟩, fun h h' => ?_⟩
  · rintro ⟨rs, e, h⟩
    obtain ⟨e', h', -⟩ := h.exists_of_norm_eq host.start_norm
    exact ⟨rs, e', h'⟩
  · rintro ⟨rs, e, h⟩
    obtain ⟨e', h', -⟩ := h.exists_of_norm_eq host.start_norm.symm
    exact ⟨rs, e', h'⟩
  · obtain ⟨hrs, he⟩ := h.norm_eq h' host.start_norm
    exact ⟨hrs, Engine.indistinguishable_of_norm_eq he⟩

/-- A page whose component has a slot. -/
theorem interpreted_compiled_slot :
    let host : Host :=
      { library :=
        { registry :=
          { sources := .ofList [("Page", "<Box><p>{{!n}}</p></Box>"), ("Box", "<slot>none</slot>")] } } }
    let ops : List Operation :=
      [.mount "Page" (.ofList [("n", .int 1)]), .drainShot, .setVar ⟨0, 0⟩ "n" (.int 2)]
    ∃ rs e e', host.interpreted.start.Runs ops rs e ∧ host.compiled.start.Runs ops rs e' ∧
      e.Indistinguishable e' ∧ e'.outline ⟨0, 0⟩ = "[Page]\n  [Box]\n    <p> \"2\"\n" := by
  intro host ops
  obtain ⟨rs, h⟩ := Engine.runs_after 6 ops host.interpreted.start (by decide +kernel)
  obtain ⟨rs', h'⟩ := Engine.runs_after 6 ops host.compiled.start (by decide +kernel)
  obtain ⟨rfl, halike⟩ := (host.interpreted_compiled ops).2 h h'
  exact ⟨rs, _, _, h, h', halike, by decide +kernel⟩

end Host
end ReactiveView
