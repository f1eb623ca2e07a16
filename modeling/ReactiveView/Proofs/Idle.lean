import ReactiveView.Proofs.Refreshing

/-!
# Writes that are waiting

An operation of a host that runs code follows the writes up that the code has queued
(`Render.gives_batch`). If it succeeds, none is waiting any more (`Render.pending_of_flush`). So after
operations that have all succeeded no write is waiting (`Engine.Runs.pending_eq_empty`), and where
none is waiting nothing is updated (`Render.gives_flush_of_idle`).
-/

namespace ReactiveView

namespace Render

variable {re : Reentry} {α : Type} {e e' : Engine}

/-- An operation of a host runs, then its writes are followed up; its own failure comes first. -/
theorem gives_batch {x : Act α} {r : Except EngineError α} : (batch re x).Gives e r e' ↔
    ∃ r₁ e₁ r₂, x.Gives e r₁ e₁ ∧
      (flush re e₁.options.maxUpdateDepth e₁.options.maxUpdateDepth).Gives e₁ r₂ e' ∧
        r = r₁.bind fun a => r₂.map fun _ => a := by
  unfold batch
  constructor
  · intro h
    obtain ⟨r₁, e₁, h₁, h⟩ | ⟨err, h₁, -⟩ := Act.gives_bind.1 h
    · obtain ⟨_, hr₁, h₁⟩ := Act.gives_lift.1 h₁
      obtain rfl := Except.ok.inj hr₁
      obtain ⟨_, _, hlimit, h⟩ | ⟨err, hlimit, -⟩ := Act.gives_bind.1 h
      · obtain ⟨hlimit, rfl⟩ := Act.gives_read.1 hlimit
        obtain rfl := Except.ok.inj hlimit
        obtain ⟨r₂, e₂, h₂, h⟩ | ⟨err, h₂, -⟩ := Act.gives_bind.1 h
        · obtain ⟨_, hr₂, h₂⟩ := Act.gives_lift.1 h₂
          obtain rfl := Except.ok.inj hr₂
          cases r₁ with
          | error err =>
            obtain ⟨rfl, rfl⟩ := Act.gives_throw.1 h
            exact ⟨_, _, r₂, h₁, h₂, rfl⟩
          | ok a =>
            cases r₂ with
            | error err =>
              obtain ⟨rfl, rfl⟩ := Act.gives_throw.1 h
              exact ⟨_, _, _, h₁, h₂, rfl⟩
            | ok _ =>
              obtain ⟨rfl, rfl⟩ := Act.gives_pure.1 h
              exact ⟨_, _, _, h₁, h₂, rfl⟩
        · obtain ⟨_, hcontra, -⟩ := Act.gives_lift.1 h₂
          cases hcontra
      · cases (Act.gives_read.1 hlimit).1
    · obtain ⟨_, hcontra, -⟩ := Act.gives_lift.1 h₁
      cases hcontra
  · rintro ⟨r₁, e₁, r₂, h₁, h₂, rfl⟩
    refine Act.gives_bind.2 (.inl ⟨r₁, e₁, Act.gives_lift.2 ⟨r₁, rfl, h₁⟩, ?_⟩)
    refine Act.gives_bind.2 (.inl ⟨_, e₁, Act.gives_read.2 ⟨rfl, rfl⟩, ?_⟩)
    refine Act.gives_bind.2 (.inl ⟨r₂, e', Act.gives_lift.2 ⟨r₂, rfl, h₂⟩, ?_⟩)
    cases r₁ with
    | error err => exact Act.gives_throw.2 ⟨rfl, rfl⟩
    | ok a =>
      cases r₂ with
      | error err => exact Act.gives_throw.2 ⟨rfl, rfl⟩
      | ok _ => exact Act.gives_pure.2 ⟨rfl, rfl⟩

/-- Where no write is waiting, there is nothing to follow up. -/
theorem gives_flush_of_idle (hidle : e.pending = .empty) (limit rounds : Nat)
    {r : Except EngineError Unit} : (flush re limit rounds).Gives e r e' ↔ r = .ok () ∧ e' = e := by
  cases rounds with
  | zero =>
    refine Act.gives_read_bind.trans ?_
    rw [hidle]
    exact Act.gives_pure
  | succ rounds =>
    refine Act.gives_read_bind.trans ?_
    rw [hidle]
    exact Act.gives_pure

/-- Writes that have been followed up are not waiting any more. -/
theorem pending_of_flush {limit rounds : Nat} {u : Unit}
    (h : (flush re limit rounds).Gives e (.ok u) e') : e'.pending = .empty := by
  induction rounds generalizing e with
  | zero =>
    have h := Act.gives_read_bind.1 h
    split at h
    · rename_i hnone
      obtain ⟨-, rfl⟩ := Act.gives_pure.1 h
      exact congrArg OrderedSet.mk (List.head?_eq_none_iff.1 hnone)
    · obtain ⟨-, rfl⟩ := Act.gives_change.1 h
      rfl
  | succ rounds ih =>
    have h := Act.gives_read_bind.1 h
    split at h
    · rename_i hempty
      obtain ⟨-, rfl⟩ := Act.gives_pure.1 h
      exact congrArg OrderedSet.mk (List.isEmpty_iff.1 hempty)
    · obtain ⟨readers, e₁, h₁, h⟩ | ⟨err, -, h⟩ := Act.gives_bind.1 h
      · obtain ⟨u, e₂, h₂, h⟩ | ⟨err, -, h⟩ := Act.gives_bind.1 h
        · exact ih h
        · cases h
      · cases h

end Render

/-- After an operation that has succeeded no write is waiting, if none was waiting before. -/
def Act.Settles {α : Type} (x : Act α) : Prop :=
  ∀ ⦃e a e'⦄, x.Gives e (.ok a) e' → e.pending = .empty → e'.pending = .empty

namespace Act

variable {α β : Type}

/-- A result. -/
theorem settles_pure (a : α) : Act.Settles (pure a) := by
  intro e b e' h he
  rwa [(gives_pure.1 h).2]

/-- A failure. -/
theorem settles_throw (err : EngineError) : Act.Settles (throw err : Act α) := by
  intro e b e' h
  cases (gives_throw.1 h).1

/-- Reading the engine. -/
theorem settles_read (f : Engine → α) : (read f).Settles := by
  intro e b e' h he
  rwa [(gives_read.1 h).2]

/-- Changing the engine, with a result. -/
theorem settles_step {f : Engine → α × Engine} (hf : ∀ e, (f e).2.pending = e.pending) :
    (step f).Settles := by
  intro e b e' h he
  rw [(gives_step.1 h).2, hf, he]

/-- Changing the engine. -/
theorem settles_change {f : Engine → Engine} (hf : ∀ e, (f e).pending = e.pending) :
    (change f).Settles := by
  intro e b e' h he
  rw [(gives_change.1 h).2, hf, he]

/-- One operation after another. -/
theorem settles_bind {x : Act α} {f : α → Act β} (hx : x.Settles) (hf : ∀ a, (f a).Settles) :
    Act.Settles (x >>= f) := by
  intro e b e' h he
  obtain ⟨a, e₁, h₁, h₂⟩ | ⟨err, -, h⟩ := gives_bind.1 h
  · exact hf a h₂ (hx h₁ he)
  · cases h

/-- Changing a result. -/
theorem settles_map {x : Act α} {f : α → β} (hx : x.Settles) : Act.Settles (f <$> x) := by
  intro e b e' h he
  obtain ⟨a, h₁, -⟩ | ⟨err, -, h⟩ := gives_map.1 h
  · exact hx h₁ he
  · cases h

/-- An operation whose failures are passed on. -/
theorem settles_tryCatch {x : Act α} {f : EngineError → Act α} (hx : x.Settles)
    (hf : ∀ err ⦃e a e'⦄, ¬(f err).Gives e (.ok a) e') : Act.Settles (tryCatch x f) := by
  intro e b e' h he
  obtain ⟨a, h₁, -⟩ | ⟨err, e₁, -, h⟩ := gives_tryCatch.1 h
  · exact hx h₁ he
  · exact (hf err h).elim

end Act

/-- An operation of a host whose writes have been followed up. -/
theorem Render.batch_settles {re : Reentry} {α : Type} (x : Act α) : (batch re x).Settles := by
  intro e a e' h _
  obtain ⟨r₁, e₁, r₂, -, h₂, hr⟩ := gives_batch.1 h
  cases r₁ with
  | error err => cases hr
  | ok a =>
    cases r₂ with
    | error err => cases hr
    | ok u => exact pending_of_flush h₂

namespace Engine

open Act Render

/-- Showing a component. -/
theorem mount_settles (depth : Nat) (name : String) (scope : Scope) :
    (mount depth name scope).Settles := by
  have hshow (routine : Routine) : Act.Settles (do
      let id ← Act.step (·.addRoot routine scope)
      tryCatch (batch (.within depth) (runRoutine (.within depth) id .html)) fun err => do
        batchChange (.within depth) (·.removeNode id)
        Act.change fun e => { e with root := none }
        throw err
      return id) := by
    refine settles_bind (settles_step fun e => rfl) fun id => ?_
    refine settles_bind (settles_tryCatch (batch_settles _) fun err e a e' h => ?_) fun _ =>
      settles_pure _
    obtain ⟨u, e₁, -, h⟩ | ⟨err, -, h⟩ := gives_bind.1 h
    · obtain ⟨u, e₂, -, h⟩ | ⟨err, -, h⟩ := gives_bind.1 h
      · cases (gives_throw.1 h).1
      · cases h
    · cases h
  refine settles_bind (settles_step fun _ => rfl) fun found => ?_
  cases found with
  | none => exact settles_throw _
  | some routine =>
    refine settles_bind (settles_read _) fun root => ?_
    cases root with
    | none => exact hshow routine
    | some old =>
      refine settles_bind (settles_change fun _ => rfl) fun _ => ?_
      exact settles_bind (batch_settles _) fun _ => hshow routine

/-- Acting upon a message. -/
theorem handle_settles (depth : Nat) (message : Inbound) : (handle depth message).Settles := by
  have hnode (oid : UInt64) : (checkedNode oid).Settles := by
    refine settles_bind (settles_read _) fun found => ?_
    cases found with
    | none => exact settles_throw _
    | some id => exact settles_pure _
  cases message with
  | click oid method args =>
    exact settles_bind (hnode oid) fun id => settles_bind (settles_read _) fun ctx =>
      batch_settles _
  | bind oid value =>
    refine settles_bind (hnode oid) fun id => settles_bind (settles_read _) fun found => ?_
    cases found with
    | none => exact settles_pure _
    | some name => exact settles_bind (settles_read _) fun owner => batch_settles _
  | answer kind oid value => exact settles_pure _
  | refresh =>
    refine settles_change fun e => ?_
    rw [refresh_eq]

/-- Finding the variables of a context. -/
theorem checkedOwner_settles (ctx : NodeId) : (checkedOwner ctx).Settles := by
  refine settles_bind (settles_read _) fun found => ?_
  cases found with
  | none => exact settles_throw _
  | some n =>
    dsimp only
    split
    · exact settles_read _
    · exact settles_throw _

/-- Removing a node. -/
theorem remove_settles (depth : Nat) (id : NodeId) : (remove depth id).Settles := by
  have hrest : Act.Settles (do
      Act.change fun e => if e.root = some id then { e with root := none } else e
      batchChange (.within depth) (·.removeNode id)) := by
    refine settles_bind (settles_change fun e => ?_) fun _ => batch_settles _
    split
    · rfl
    · rfl
  refine settles_bind (settles_read _) fun live => ?_
  cases live with
  | true => exact hrest
  | false => exact settles_bind (settles_throw _) fun _ => hrest

end Engine

/-- No operation that succeeds leaves a write waiting. -/
theorem Operation.act_settles (depth : Nat) (op : Operation) : (op.act depth).Settles := by
  cases op with
  | mount name scope => exact Act.settles_map (Engine.mount_settles depth name scope)
  | build body cursor => exact Act.settles_map (Render.batch_settles _)
  | update id => exact Act.settles_map (Render.batch_settles _)
  | updateTree id => exact Act.settles_map (Render.batch_settles _)
  | rebuild ctx =>
    refine Act.settles_map (Act.settles_bind (Act.settles_change fun e => ?_) fun _ =>
      Render.batch_settles _)
    split
    · rfl
    · rfl
  | remove id => exact Act.settles_map (Engine.remove_settles depth id)
  | setVar ctx name v =>
    exact Act.settles_map (Act.settles_bind (Engine.checkedOwner_settles ctx) fun _ =>
      Render.batch_settles _)
  | call ctx name args =>
    exact Act.settles_map (Act.settles_bind (Engine.checkedOwner_settles ctx) fun _ =>
      Render.batch_settles _)
  | handle message => exact Act.settles_map (Engine.handle_settles depth message)
  | refresh =>
    refine Act.settles_map (Act.settles_change fun e => ?_)
    rw [Engine.refresh_eq]
  | drainShot =>
    refine Act.settles_map (Act.settles_step fun e => ?_)
    exact List.foldlRecOn (motive := fun e' : Engine => e'.pending = e.pending) _ _ rfl
      fun _ h _ _ => h
  | takeDiagnostics => exact Act.settles_map (Act.settles_step fun _ => rfl)
  | takeMessages => exact Act.settles_map (Act.settles_step fun _ => rfl)
  | setCancel token => exact Act.settles_map (Act.settles_change fun _ => rfl)

namespace Engine

variable {e e' : Engine} {id x : NodeId}

/-- After operations that have all succeeded no write is waiting. -/
theorem Runs.pending_eq_empty {ops : List Operation} {rs : List (Except EngineError Outcome)}
    (hrun : e.Runs ops rs e') (hok : ∀ r ∈ rs, ∃ outcome, r = .ok outcome)
    (hidle : e.pending = .empty) : e'.pending = .empty := by
  induction hrun with
  | nil e => exact hidle
  | cons first _ ih =>
    obtain ⟨outcome, rfl⟩ := hok _ List.mem_cons_self
    exact ih (fun r hr => hok r (List.mem_cons_of_mem _ hr)) (Operation.act_settles _ _ first hidle)

end Engine
end ReactiveView
