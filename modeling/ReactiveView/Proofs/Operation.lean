import ReactiveView.Proofs.Rendering

/-!
# Runs of a host

What a host can do with an engine is an `Operation`. A run is any sequence of them, each with enough
depth to have an outcome, which may be a failure (`Engine.Runs`). Between the operations the host
may put any token in place, so that a token that is raised at any poll of any operation is covered.

Every operation keeps every invariant that operations cannot break (`Operation.act_keeps`), and so
do runs (`Engine.Runs.keeps`), provided that the invariant survives the reports of a refresh and an
empty shot where these occur.
-/

namespace ReactiveView

/-- What a host does with an engine. -/
inductive Operation where
  /-- Show a component in place of the present one. -/
  | mount (name : String) (scope : Scope)
  /-- Build a body at a cursor. -/
  | build (body : Body) (cursor : Cursor)
  /-- Evaluate a node again. -/
  | update (id : NodeId)
  /-- Evaluate a node and everything under it again. -/
  | updateTree (id : NodeId)
  /-- Build a component instance anew. -/
  | rebuild (ctx : NodeId)
  /-- Remove a node. -/
  | remove (id : NodeId)
  /-- Write a variable. -/
  | setVar (ctx : NodeId) (name : String) (v : Value)
  /-- Call a function. -/
  | call (ctx : NodeId) (name : String) (args : List Value)
  /-- Act upon a message of the consumer. -/
  | handle (message : Inbound)
  /-- Report every node again. -/
  | refresh
  /-- Take the changes since the last shot. -/
  | drainShot
  /-- Take the recorded problems. -/
  | takeDiagnostics
  /-- Take the messages that were sent. -/
  | takeMessages
  /-- Put a token in place. -/
  | setCancel (token : Cancel)

/-- What an operation gives its host. -/
inductive Outcome where
  /-- Nothing. -/
  | done
  /-- A node. -/
  | node (id : NodeId)
  /-- A value. -/
  | value (v : Value)
  /-- The changes since the last shot. -/
  | batch (b : ShotBatch)
  /-- Problems. -/
  | problems (ds : List Diagnostic)
  /-- Messages. -/
  | messages (ms : List Message)

namespace Operation

/-- What an operation does, at a depth. -/
def act (depth : Nat) : Operation → Act Outcome
  | mount name scope => Outcome.node <$> Engine.mount depth name scope
  | build body cursor => (fun _ => .done) <$> Engine.build depth body cursor
  | update id => (fun _ => .done) <$> Engine.update depth id
  | updateTree id => (fun _ => .done) <$> Engine.updateTree depth id
  | rebuild ctx => (fun _ => .done) <$> Engine.rebuild depth ctx
  | remove id => (fun _ => .done) <$> Engine.remove depth id
  | setVar ctx name v => (fun _ => .done) <$> Engine.setVar depth ctx name v
  | call ctx name args => Outcome.value <$> Engine.call depth ctx name args
  | handle message => (fun _ => .done) <$> Engine.handle depth message
  | refresh => (fun _ => .done) <$> Act.change Engine.refresh
  | drainShot => Outcome.batch <$> Act.step Engine.drainShot
  | takeDiagnostics => Outcome.problems <$> Act.step Engine.takeDiagnostics
  | takeMessages => Outcome.messages <$> Act.step Engine.takeMessages
  | setCancel token => (fun _ => .done) <$> Act.change fun e => { e with cancel := token }

/-- Whether an operation reports every node again. -/
def refreshes : Operation → Bool
  | refresh | handle .refresh => true
  | _ => false

/-- Whether an operation takes the changes since the last shot. -/
def drains : Operation → Bool
  | drainShot => true
  | _ => false

end Operation

/-- A run of operations and what each of them gave or failed with. -/
inductive Engine.Runs : Engine → List Operation → List (Except EngineError Outcome) → Engine → Prop
  /-- Nothing is done. -/
  | nil (e : Engine) : Runs e [] [] e
  /-- An operation is done before others. -/
  | cons {e e₁ e₂ : Engine} {op : Operation} {ops : List Operation} {depth : Nat}
      {r : Except EngineError Outcome} {rs : List (Except EngineError Outcome)}
      (first : (op.act depth).Gives e r e₁) (rest : Runs e₁ ops rs e₂) :
      Runs e (op :: ops) (r :: rs) e₂

/-- A run after another one is a run. -/
theorem Engine.Runs.append {e e₁ e₂ : Engine} {ops ops' : List Operation}
    {rs rs' : List (Except EngineError Outcome)} (h : e.Runs ops rs e₁)
    (h' : e₁.Runs ops' rs' e₂) : e.Runs (ops ++ ops') (rs ++ rs') e₂ := by
  induction h with
  | nil e => exact h'
  | cons first _ ih => exact .cons first (ih h')

/-- A run of operations after others is a run after a run of those. -/
theorem Engine.Runs.split {e e' : Engine} {ops ops' : List Operation}
    {rs : List (Except EngineError Outcome)} (h : e.Runs (ops ++ ops') rs e') :
    ∃ e₁ rs₁ rs₂, rs = rs₁ ++ rs₂ ∧ e.Runs ops rs₁ e₁ ∧ e₁.Runs ops' rs₂ e' := by
  induction ops generalizing e rs with
  | nil => exact ⟨e, [], rs, rfl, .nil e, h⟩
  | cons op ops ih =>
    obtain _ | ⟨first, rest⟩ := h
    obtain ⟨e₁, rs₁, rs₂, rfl, h₁, h₂⟩ := ih rest
    exact ⟨e₁, _ :: rs₁, rs₂, rfl, .cons first h₁, h₂⟩

/-- Do operations in turn, all at one depth. -/
def Engine.runAt (depth : Nat) :
    List Operation → Engine → Option (List (Except EngineError Outcome) × Engine)
  | [], e => some ([], e)
  | op :: ops, e => do
    let (r, e) ← (op.act depth).runOn e
    let (rs, e) ← Engine.runAt depth ops e
    return (r :: rs, e)

/-- The engine after operations at one depth; the engine itself if one of them has no outcome. -/
def Engine.after (depth : Nat) (ops : List Operation) (e : Engine) : Engine :=
  ((e.runAt depth ops).map (·.2)).getD e

/-- Operations that have outcomes at one depth are a run. -/
theorem Engine.runs_of_runAt {depth : Nat} {ops : List Operation} {e e' : Engine}
    {rs : List (Except EngineError Outcome)} (h : e.runAt depth ops = some (rs, e')) :
    e.Runs ops rs e' := by
  induction ops generalizing e rs with
  | nil =>
    cases h
    exact .nil e'
  | cons op ops ih =>
    obtain ⟨⟨r, e₁⟩, hfirst, h⟩ := Option.bind_eq_some_iff.1 h
    obtain ⟨⟨rs, e₂⟩, hrest, h⟩ := Option.bind_eq_some_iff.1 h
    cases h
    exact .cons hfirst (ih hrest)

/-- Operations that have outcomes at one depth lead to the engine after them. -/
theorem Engine.runs_after (depth : Nat) (ops : List Operation) (e : Engine)
    (h : (e.runAt depth ops).isSome = true) : ∃ rs, e.Runs ops rs (e.after depth ops) := by
  obtain ⟨⟨rs, e'⟩, hrun⟩ := Option.isSome_iff_exists.1 h
  refine ⟨rs, ?_⟩
  rw [after, hrun]
  exact runs_of_runAt hrun

/-- Operations that succeed at one depth are a run of successes. -/
theorem Engine.runs_after_ok (depth : Nat) (ops : List Operation) (e : Engine)
    (h : (e.runAt depth ops).any (·.1.all (·.isOk)) = true) :
    ∃ rs, e.Runs ops rs (e.after depth ops) ∧ ∀ r ∈ rs, ∃ outcome, r = .ok outcome := by
  unfold after
  cases hrun : e.runAt depth ops with
  | none =>
    rw [hrun] at h
    cases h
  | some found =>
    rw [hrun, Option.any_some, List.all_eq_true] at h
    refine ⟨found.1, runs_of_runAt hrun, fun r hr => ?_⟩
    have hok := h r hr
    cases r with
    | ok outcome => exact ⟨outcome, rfl⟩
    | error err => cases hok

section

variable {I : Engine → Prop} (h : Engine.OperationClosed I)
include h

namespace Render

/-- Changing the engine and following the writes up. -/
theorem batchChange_keeps {re : Reentry} (hre : re.Operates) {f : Engine → Engine}
    (hf : ∀ e, I e → I (f e)) : (batchChange re f).Keeps I :=
  batch_keeps h hre (Act.keeps_change hf)

omit h in
/-- Finding the variables of a context. -/
theorem checkedOwner_keeps (ctx : NodeId) : (checkedOwner ctx).Keeps I := by
  refine Act.keeps_bind (Act.keeps_read _) fun found => ?_
  cases found with
  | none => exact Act.keeps_throw _
  | some n => exact Act.keeps_ite (Act.keeps_read _) (Act.keeps_throw _)

omit h in
/-- Finding the node of a message. -/
theorem checkedNode_keeps (oid : UInt64) : (checkedNode oid).Keeps I := by
  refine Act.keeps_bind (Act.keeps_read _) fun found => ?_
  cases found with
  | none => exact Act.keeps_throw _
  | some id => exact Act.keeps_pure _

end Render

namespace Engine

open Render

variable (depth : Nat)

/-- Showing a component. -/
theorem mount_keeps (hroot : ∀ e root, I e → I { e with root := root }) (name : String)
    (scope : Scope) : (mount depth name scope).Keeps I := by
  have hre := Reentry.within_operates depth
  have hremove (id : NodeId) := batchChange_keeps h hre fun e he => h.removeNode (e := e) id he
  have hplace (root : Option NodeId) : Act.Keeps I (Act.change fun e => { e with root := root }) :=
    Act.keeps_change fun _ he => hroot _ root he
  have hshow (routine : Routine) : Act.Keeps I (do
      let id ← Act.step (·.addRoot routine scope)
      tryCatch (batch (.within depth) (runRoutine (.within depth) id .html)) fun err => do
        batchChange (.within depth) (·.removeNode id)
        Act.change fun e => { e with root := none }
        throw err
      return id) := by
    refine Act.keeps_bind (Act.keeps_step fun _ he => h.addRoot hroot routine scope he) fun id => ?_
    refine Act.keeps_bind (Act.keeps_tryCatch ?_ fun err => ?_) fun _ => Act.keeps_pure _
    · exact batch_keeps h hre (runRoutine_keeps h hre id .html)
    · refine Act.keeps_bind (hremove id) fun _ => ?_
      exact Act.keeps_bind (hplace none) fun _ => Act.keeps_throw _
  refine Act.keeps_bind (resolveComponent_keeps h.evaluation name) fun found => ?_
  cases found with
  | none => exact Act.keeps_throw _
  | some routine =>
    refine Act.keeps_bind (Act.keeps_read _) fun root => ?_
    cases root with
    | none => exact hshow routine
    | some old =>
      refine Act.keeps_bind (hplace none) fun _ => ?_
      exact Act.keeps_bind (hremove old) fun _ => hshow routine

/-- Removing a node. -/
theorem remove_keeps (hroot : ∀ e root, I e → I { e with root := root }) (id : NodeId) :
    (remove depth id).Keeps I := by
  have hrest : Act.Keeps I (do
      Act.change fun e => if e.root = some id then { e with root := none } else e
      batchChange (.within depth) (·.removeNode id)) := by
    refine Act.keeps_bind (Act.keeps_change fun e he => ?_) fun _ => ?_
    · split
      · exact hroot _ none he
      · exact he
    · exact batchChange_keeps h (Reentry.within_operates depth) fun _ he => h.removeNode id he
  refine Act.keeps_bind (Act.keeps_read _) fun live => ?_
  cases live with
  | true => exact hrest
  | false => exact Act.keeps_bind (Act.keeps_throw _) fun _ => hrest

/-- Building a component instance anew. -/
theorem rebuild_keeps (ctx : NodeId) : (rebuild depth ctx).Keeps I := by
  have hre := Reentry.within_operates depth
  refine Act.keeps_bind (Act.keeps_change fun e he => ?_) fun _ => ?_
  · split
    · exact h.evaluation.send _ he
    · exact he
  · exact batch_keeps h hre (rebuildContext_keeps h hre ctx)

/-- Writing a variable. -/
theorem setVar_keeps (ctx : NodeId) (name : String) (v : Value) :
    (setVar depth ctx name v).Keeps I := by
  refine Act.keeps_bind (checkedOwner_keeps ctx) fun owner => ?_
  exact batchChange_keeps h (Reentry.within_operates depth) fun _ he =>
    h.evaluation.writeVar owner name v he

/-- Calling a function. -/
theorem call_keeps (ctx : NodeId) (name : String) (args : List Value) :
    (call depth ctx name args).Keeps I := by
  have hre := Reentry.within_operates depth
  refine Act.keeps_bind (checkedOwner_keeps ctx) fun _ => ?_
  exact batch_keeps h hre (callHook_keeps h.evaluation (hre.enters h) ctx none name args)

/-- Acting upon a message. -/
theorem handle_keeps {message : Inbound} (hm : message = .refresh → ∀ e, I e → I e.refresh) :
    (handle depth message).Keeps I := by
  have hre := Reentry.within_operates depth
  cases message with
  | click oid method args =>
    refine Act.keeps_bind (checkedNode_keeps oid) fun id => ?_
    refine Act.keeps_bind (Act.keeps_read _) fun ctx => ?_
    exact batch_keeps h hre (callHookSafely_keeps h.evaluation (hre.enters h) ctx _ method _)
  | bind oid value =>
    refine Act.keeps_bind (checkedNode_keeps oid) fun id => ?_
    refine Act.keeps_bind (Act.keeps_read _) fun found => ?_
    cases found with
    | none => exact Act.keeps_pure _
    | some name =>
      refine Act.keeps_bind (Act.keeps_read _) fun owner => ?_
      exact batchChange_keeps h hre fun _ he => h.evaluation.writeVar owner name _ he
  | answer kind oid value => exact Act.keeps_pure _
  | refresh => exact Act.keeps_change (hm rfl)

/-- Taking the changes since the last shot. -/
theorem drainShot_keeps (hd : ∀ e, I e → I { e with shot := .empty }) {e : Engine} (he : I e) :
    I e.drainShot.2 := by
  refine hd _ (List.foldlRecOn _ _ he fun _ he _ _ => ?_)
  exact h.quiet _ _ (fun _ _ => ⟨rfl, rfl, rfl, rfl, rfl, fun h => h⟩) he

end Engine

/-- Every operation keeps an invariant. -/
theorem Operation.act_keeps {op : Operation} (hroot : ∀ e root, I e → I { e with root := root })
    (hr : op.refreshes = true → ∀ e, I e → I e.refresh)
    (hd : op.drains = true → ∀ e, I e → I { e with shot := .empty }) (depth : Nat) :
    (op.act depth).Keeps I := by
  have hre := Reentry.within_operates depth
  cases op with
  | mount name scope => exact Act.keeps_map (Engine.mount_keeps h depth hroot name scope)
  | build body cursor => exact Act.keeps_map (Render.batch_keeps h hre ((hre I h).build body cursor))
  | update id =>
    exact Act.keeps_map (Render.batch_keeps h hre (Render.updateNode_keeps h hre id false))
  | updateTree id =>
    exact Act.keeps_map (Render.batch_keeps h hre (Render.updateNode_keeps h hre id true))
  | rebuild ctx => exact Act.keeps_map (Engine.rebuild_keeps h depth ctx)
  | remove id => exact Act.keeps_map (Engine.remove_keeps h depth hroot id)
  | setVar ctx name v => exact Act.keeps_map (Engine.setVar_keeps h depth ctx name v)
  | call ctx name args => exact Act.keeps_map (Engine.call_keeps h depth ctx name args)
  | handle message =>
    refine Act.keeps_map (Engine.handle_keeps h depth ?_)
    rintro rfl
    exact hr rfl
  | refresh => exact Act.keeps_map (Act.keeps_change (hr rfl))
  | drainShot =>
    exact Act.keeps_map (Act.keeps_step fun _ he => Engine.drainShot_keeps h (hd rfl) he)
  | takeDiagnostics =>
    exact Act.keeps_map (Act.keeps_step fun _ he => h.outside he rfl rfl rfl rfl)
  | takeMessages => exact Act.keeps_map (Act.keeps_step fun _ he => h.outside he rfl rfl rfl rfl)
  | setCancel token => exact Act.keeps_map (Act.keeps_change fun _ he => h.outside he rfl rfl rfl rfl)

/-- Runs keep an invariant. -/
theorem Engine.Runs.keeps {e e' : Engine} {ops : List Operation}
    {rs : List (Except EngineError Outcome)} (hrun : e.Runs ops rs e')
    (hroot : ∀ e root, I e → I { e with root := root })
    (hr : ∀ op ∈ ops, op.refreshes = true → ∀ e, I e → I e.refresh)
    (hd : ∀ op ∈ ops, op.drains = true → ∀ e, I e → I { e with shot := .empty }) (he : I e) :
    I e' := by
  induction hrun with
  | nil e => exact he
  | cons first _ ih =>
    rename_i op ops depth r rs _
    have hfirst := Operation.act_keeps h hroot (hr op List.mem_cons_self)
      (hd op List.mem_cons_self) depth
    refine ih (fun op hop => hr op (List.mem_cons_of_mem _ hop))
      (fun op hop => hd op (List.mem_cons_of_mem _ hop)) ?_
    exact hfirst first he

end

/-- What a host gives a new engine. -/
structure Host where
  /-- Where components come from. -/
  library : Library := {}
  /-- How the engine works. -/
  options : EngineOptions := {}
  /-- The connection to the consumer, if there is one. -/
  remote : Option Remote := none
  /-- Whether running operations are to stop. -/
  cancel : Cancel := {}
  /-- The translations of texts. -/
  translator : Translator := {}
  /-- The place from which assets are served. -/
  assets : String := "/static"

/-- A new engine. -/
def Host.start (host : Host) : Engine :=
  { library := host.library, options := host.options, remote := host.remote, cancel := host.cancel,
    translator := host.translator, assets := host.assets }

end ReactiveView
