import ReactiveView.Render.Session

/-!
# Outcomes of operations

An operation on the engine, started in a state, has no outcome, or fails or succeeds in a state
(`Act.Gives`). The lemmas `gives_bind`, `gives_tryCatch` and their like take the outcome of a
composed operation apart into those of its parts, so that proofs about operations never unfold the
monads they are written in.

An operation keeps an invariant of the engine if every state in which it ends has the invariant
when the state in which it started had it (`Act.Keeps`), whether it succeeds or fails. Composed
operations inherit this from their parts. A relation to a fixed earlier state is an invariant too.
-/

namespace ReactiveView

variable {α β : Type}

/-- A change of the engine has an outcome: a result and the engine after it. -/
def RenderM.Gives (x : RenderM α) (e : Engine) (a : α) (e' : Engine) : Prop :=
  x.run e = some (a, e')

/-- An operation has an outcome: a result or an error, and the engine after it. -/
def Act.Gives (x : Act α) (e : Engine) (r : Except EngineError α) (e' : Engine) : Prop :=
  x.runOn e = some (r, e')

namespace RenderM

/-- A result without a change. -/
@[simp] theorem gives_pure {a b : α} {e e' : Engine} :
    (pure a : RenderM α).Gives e b e' ↔ b = a ∧ e' = e := by
  constructor
  · intro h
    cases h
    exact ⟨rfl, rfl⟩
  · rintro ⟨rfl, rfl⟩
    rfl

/-- One change after another. -/
theorem gives_bind {x : RenderM α} {f : α → RenderM β} {e e' : Engine} {b : β} :
    (x >>= f).Gives e b e' ↔ ∃ a e₁, x.Gives e a e₁ ∧ (f a).Gives e₁ b e' := by
  have hrun : (x >>= f).run e = (x.run e).bind fun p => (f p.1).run p.2 := rfl
  unfold Gives
  rw [hrun]
  constructor
  · intro h
    cases hx : x.run e with
    | none => simp [hx] at h
    | some p => exact ⟨p.1, p.2, rfl, by simpa [hx] using h⟩
  · rintro ⟨a, e₁, hx, hf⟩
    simpa [hx] using hf

/-- A step of the engine. -/
@[simp] theorem gives_step {f : Engine → α × Engine} {e e' : Engine} {a : α} :
    (step f).Gives e a e' ↔ f e = (a, e') := by
  constructor
  · intro h
    exact Option.some.inj h
  · intro h
    exact congrArg some h

/-- Reading the engine. -/
@[simp] theorem gives_get {a e e' : Engine} :
    (get : RenderM Engine).Gives e a e' ↔ a = e ∧ e' = e := by
  constructor
  · intro h
    cases h
    exact ⟨rfl, rfl⟩
  · rintro ⟨rfl, rfl⟩
    rfl

/-- Putting an engine in place. -/
@[simp] theorem gives_set {e₁ e e' : Engine} {u : PUnit} :
    (set e₁ : RenderM PUnit).Gives e u e' ↔ e' = e₁ := by
  constructor
  · intro h
    cases h
    rfl
  · rintro rfl
    rfl

/-- Changing the engine. -/
@[simp] theorem gives_modify {f : Engine → Engine} {e e' : Engine} {u : PUnit} :
    (modify f : RenderM PUnit).Gives e u e' ↔ e' = f e := by
  constructor
  · intro h
    cases h
    rfl
  · rintro rfl
    rfl

end RenderM

namespace Act

/-- A result without a change. -/
@[simp] theorem gives_pure {a : α} {r : Except EngineError α} {e e' : Engine} :
    Act.Gives (pure a) e r e' ↔ r = .ok a ∧ e' = e := by
  constructor
  · intro h
    cases h
    exact ⟨rfl, rfl⟩
  · rintro ⟨rfl, rfl⟩
    rfl

/-- A failure. -/
@[simp] theorem gives_throw {err : EngineError} {r : Except EngineError α} {e e' : Engine} :
    Act.Gives (throw err) e r e' ↔ r = .error err ∧ e' = e := by
  constructor
  · intro h
    cases h
    exact ⟨rfl, rfl⟩
  · rintro ⟨rfl, rfl⟩
    rfl

/-- One operation after another: the second is not run when the first fails. -/
theorem gives_bind {x : Act α} {f : α → Act β} {e e' : Engine} {r : Except EngineError β} :
    Act.Gives (x >>= f) e r e' ↔
      (∃ a e₁, x.Gives e (.ok a) e₁ ∧ (f a).Gives e₁ r e') ∨
        ∃ err, x.Gives e (.error err) e' ∧ r = .error err := by
  have hrun : Act.Gives (x >>= f) e r e' ↔
      RenderM.Gives (x.run >>= ExceptT.bindCont f) e r e' := Iff.rfl
  rw [hrun, RenderM.gives_bind]
  constructor
  · rintro ⟨a, e₁, hx, hf⟩
    cases a with
    | ok a => exact Or.inl ⟨a, e₁, hx, hf⟩
    | error err =>
      obtain ⟨rfl, rfl⟩ := RenderM.gives_pure.1 hf
      exact Or.inr ⟨err, hx, rfl⟩
  · rintro (⟨a, e₁, hx, hf⟩ | ⟨err, hx, rfl⟩)
    · exact ⟨.ok a, e₁, hx, hf⟩
    · exact ⟨.error err, e', hx, RenderM.gives_pure.2 ⟨rfl, rfl⟩⟩

/-- An operation with a way out of its failures. -/
theorem gives_tryCatch {x : Act α} {f : EngineError → Act α} {e e' : Engine}
    {r : Except EngineError α} :
    Act.Gives (tryCatch x f) e r e' ↔
      (∃ a, x.Gives e (.ok a) e' ∧ r = .ok a) ∨
        ∃ err e₁, x.Gives e (.error err) e₁ ∧ (f err).Gives e₁ r e' := by
  have hrun : (tryCatch x f).runOn e = (x.runOn e).bind fun p =>
      match p.1 with
      | .ok a => some (.ok a, p.2)
      | .error err => (f err).runOn p.2 := by
    simp only [runOn, tryCatch, tryCatchThe, MonadExceptOf.tryCatch, ExceptT.tryCatch, ExceptT.mk,
      ExceptT.run, StateT.run, bind, StateT.bind]
    congr 1
    funext p
    obtain ⟨res, e₁⟩ := p
    cases res <;> rfl
  unfold Gives
  rw [hrun]
  constructor
  · intro h
    cases hx : x.runOn e with
    | none => simp [hx] at h
    | some p =>
      obtain ⟨res, e₁⟩ := p
      cases res with
      | ok a =>
        simp only [hx, Option.bind_some, Option.some.injEq, Prod.mk.injEq] at h
        obtain ⟨rfl, rfl⟩ := h
        exact Or.inl ⟨a, rfl, rfl⟩
      | error err => exact Or.inr ⟨err, e₁, rfl, by simpa [hx] using h⟩
  · rintro (⟨a, hx, rfl⟩ | ⟨err, e₁, hx, hf⟩)
    · simp [hx]
    · simpa [hx] using hf

/-- A change of the engine that cannot fail. -/
theorem gives_lift {x : RenderM α} {r : Except EngineError α} {e e' : Engine} :
    Act.Gives (ExceptT.lift x) e r e' ↔ ∃ a, r = .ok a ∧ x.Gives e a e' := by
  have hrun : Act.Gives (ExceptT.lift x) e r e' ↔
      RenderM.Gives (x >>= fun a => pure (Except.ok a)) e r e' := Iff.rfl
  rw [hrun, RenderM.gives_bind]
  constructor
  · rintro ⟨a, e₁, hx, hf⟩
    obtain ⟨rfl, rfl⟩ := RenderM.gives_pure.1 hf
    exact ⟨a, rfl, hx⟩
  · rintro ⟨a, rfl, hx⟩
    exact ⟨a, e', hx, RenderM.gives_pure.2 ⟨rfl, rfl⟩⟩

/-- Reading the engine. -/
@[simp] theorem gives_read {f : Engine → α} {r : Except EngineError α} {e e' : Engine} :
    Act.Gives (read f) e r e' ↔ r = .ok (f e) ∧ e' = e := by
  unfold read
  rw [gives_lift]
  simp only [RenderM.gives_step, Prod.mk.injEq]
  constructor
  · rintro ⟨a, rfl, rfl, rfl⟩
    exact ⟨rfl, rfl⟩
  · rintro ⟨rfl, rfl⟩
    exact ⟨_, rfl, rfl, rfl⟩

/-- Changing the engine. -/
@[simp] theorem gives_change {f : Engine → Engine} {r : Except EngineError Unit}
    {e e' : Engine} : Act.Gives (change f) e r e' ↔ r = .ok () ∧ e' = f e := by
  unfold change
  rw [gives_lift]
  simp only [RenderM.gives_step, Prod.mk.injEq, true_and]
  constructor
  · rintro ⟨⟨⟩, rfl, rfl⟩
    exact ⟨rfl, rfl⟩
  · rintro ⟨rfl, rfl⟩
    exact ⟨_, rfl, rfl⟩

/-- Changing the engine, with a result. -/
@[simp] theorem gives_step {f : Engine → α × Engine} {r : Except EngineError α}
    {e e' : Engine} : Act.Gives (step f) e r e' ↔ r = .ok (f e).1 ∧ e' = (f e).2 := by
  unfold step
  rw [gives_lift]
  simp only [RenderM.gives_step]
  constructor
  · rintro ⟨a, rfl, h⟩
    rw [h]
    exact ⟨rfl, rfl⟩
  · rintro ⟨rfl, rfl⟩
    exact ⟨_, rfl, rfl⟩

/-- Reading the engine and going on. -/
theorem gives_read_bind {f : Engine → α} {g : α → Act β} {e e' : Engine}
    {r : Except EngineError β} : Act.Gives (read f >>= g) e r e' ↔ (g (f e)).Gives e r e' := Iff.rfl

/-- Changing the engine and going on. -/
theorem gives_change_bind {f : Engine → Engine} {g : Unit → Act β} {e e' : Engine}
    {r : Except EngineError β} : Act.Gives (change f >>= g) e r e' ↔ (g ()).Gives (f e) r e' :=
  Iff.rfl

/-- Changing the engine, with a result, and going on. -/
theorem gives_step_bind {f : Engine → α × Engine} {g : α → Act β} {e e' : Engine}
    {r : Except EngineError β} :
    Act.Gives (step f >>= g) e r e' ↔ (g (f e).1).Gives (f e).2 r e' := Iff.rfl

/-- One operation after another that does not fail. -/
theorem gives_bind_of_ok {x : Act α} {f : α → Act β} {e e' : Engine} {r : Except EngineError β}
    (h : Act.Gives (x >>= f) e r e') (hx : ∀ r₁, x.Gives e r₁ e' → ∃ a, r₁ = .ok a) :
    ∃ a e₁, x.Gives e (.ok a) e₁ ∧ (f a).Gives e₁ r e' := by
  rcases gives_bind.1 h with h | ⟨err, h₁, -⟩
  · exact h
  · obtain ⟨a, ha⟩ := hx _ h₁
    cases ha

/-- An evaluation, whose error is a result. -/
theorem gives_evaluating {x : Eval RenderM α} {r : Except EngineError (Except EvalError α)}
    {e e' : Engine} :
    Act.Gives (evaluating x) e r e' ↔ ∃ a, r = .ok a ∧ RenderM.Gives x.run e a e' := gives_lift

/-- Forgetting a result. -/
theorem gives_discard {x : Act α} {r : Except EngineError PUnit} {e e' : Engine} :
    Act.Gives (discard x) e r e' ↔
      (∃ a, x.Gives e (.ok a) e' ∧ r = .ok ⟨⟩) ∨ ∃ err, x.Gives e (.error err) e' ∧ r = .error err := by
  have hrun : (discard x : Act PUnit) = x >>= fun _ => pure ⟨⟩ := by
    rw [← map_eq_pure_bind]
    rfl
  rw [hrun, gives_bind]
  simp only [gives_pure]
  constructor
  · rintro (⟨a, e₁, hx, rfl, rfl⟩ | h)
    · exact Or.inl ⟨a, hx, rfl⟩
    · exact Or.inr h
  · rintro (⟨a, hx, rfl⟩ | h)
    · exact Or.inl ⟨a, e', hx, rfl, rfl⟩
    · exact Or.inr h

/-- Changing a result. -/
theorem gives_map {x : Act α} {f : α → β} {r : Except EngineError β} {e e' : Engine} :
    Act.Gives (f <$> x) e r e' ↔
      (∃ a, x.Gives e (.ok a) e' ∧ r = .ok (f a)) ∨
        ∃ err, x.Gives e (.error err) e' ∧ r = .error err := by
  rw [map_eq_pure_bind, gives_bind]
  simp only [gives_pure]
  constructor
  · rintro (⟨a, e₁, hx, rfl, rfl⟩ | h)
    · exact Or.inl ⟨a, hx, rfl⟩
    · exact Or.inr h
  · rintro (⟨a, hx, rfl⟩ | h)
    · exact Or.inl ⟨a, e', hx, rfl, rfl⟩
    · exact Or.inr h

end Act

/-! ## Keeping an invariant -/

/-- Whatever comes of a change of the engine, the invariant is kept. -/
def RenderM.Keeps (I : Engine → Prop) (x : RenderM α) : Prop :=
  ∀ ⦃e a e'⦄, x.Gives e a e' → I e → I e'

/-- Whatever comes of an operation, failures included, the invariant is kept. -/
def Act.Keeps (I : Engine → Prop) (x : Act α) : Prop :=
  ∀ ⦃e r e'⦄, x.Gives e r e' → I e → I e'

namespace RenderM

variable {I : Engine → Prop}

/-- A result without a change. -/
theorem keeps_pure (a : α) : RenderM.Keeps I (pure a) := by
  intro e b e' h he
  obtain ⟨-, rfl⟩ := gives_pure.1 h
  exact he

/-- One change after another. -/
theorem keeps_bind {x : RenderM α} {f : α → RenderM β} (hx : x.Keeps I)
    (hf : ∀ a, (f a).Keeps I) : RenderM.Keeps I (x >>= f) := by
  intro e b e' h he
  obtain ⟨a, e₁, h₁, h₂⟩ := gives_bind.1 h
  exact hf a h₂ (hx h₁ he)

/-- A step of the engine. -/
theorem keeps_step {f : Engine → α × Engine} (hf : ∀ e, I e → I (f e).2) :
    (step f).Keeps I := by
  intro e a e' h he
  have hstep := gives_step.1 h
  have := hf e he
  rwa [hstep] at this

/-- A change of the engine. -/
theorem keeps_modify {f : Engine → Engine} (hf : ∀ e, I e → I (f e)) :
    RenderM.Keeps I (modify f) := by
  intro e u e' h he
  rw [gives_modify.1 h]
  exact hf e he

end RenderM

namespace Act

variable {I : Engine → Prop}

/-- A result without a change. -/
theorem keeps_pure (a : α) : Act.Keeps I (pure a) := by
  intro e r e' h he
  obtain ⟨-, rfl⟩ := gives_pure.1 h
  exact he

/-- A failure. -/
theorem keeps_throw (err : EngineError) : Act.Keeps I (throw err : Act α) := by
  intro e r e' h he
  obtain ⟨-, rfl⟩ := gives_throw.1 h
  exact he

/-- One operation after another. -/
theorem keeps_bind {x : Act α} {f : α → Act β} (hx : x.Keeps I) (hf : ∀ a, (f a).Keeps I) :
    Act.Keeps I (x >>= f) := by
  intro e r e' h he
  rcases gives_bind.1 h with ⟨a, e₁, h₁, h₂⟩ | ⟨err, h₁, -⟩
  · exact hf a h₂ (hx h₁ he)
  · exact hx h₁ he

/-- An operation with a way out of its failures. -/
theorem keeps_tryCatch {x : Act α} {f : EngineError → Act α} (hx : x.Keeps I)
    (hf : ∀ err, (f err).Keeps I) : Act.Keeps I (tryCatch x f) := by
  intro e r e' h he
  rcases gives_tryCatch.1 h with ⟨a, h₁, -⟩ | ⟨err, e₁, h₁, h₂⟩
  · exact hx h₁ he
  · exact hf err h₂ (hx h₁ he)

/-- An operation whose error is a result. -/
theorem keeps_lift {x : RenderM α} (hx : x.Keeps I) : Act.Keeps I (ExceptT.lift x) := by
  intro e r e' h he
  obtain ⟨a, -, h₁⟩ := gives_lift.1 h
  exact hx h₁ he

/-- Reading the engine. -/
theorem keeps_read (f : Engine → α) : (read f).Keeps I := by
  intro e r e' h he
  obtain ⟨-, rfl⟩ := gives_read.1 h
  exact he

/-- Changing the engine. -/
theorem keeps_change {f : Engine → Engine} (hf : ∀ e, I e → I (f e)) : (change f).Keeps I := by
  intro e r e' h he
  obtain ⟨-, rfl⟩ := gives_change.1 h
  exact hf e he

/-- Changing the engine, with a result. -/
theorem keeps_step {f : Engine → α × Engine} (hf : ∀ e, I e → I (f e).2) : (step f).Keeps I := by
  intro e r e' h he
  obtain ⟨-, rfl⟩ := gives_step.1 h
  exact hf e he

/-- Forgetting a result. -/
theorem keeps_discard {x : Act α} (hx : x.Keeps I) : Act.Keeps I (discard x) := by
  intro e r e' h he
  rcases gives_discard.1 h with ⟨a, h₁, -⟩ | ⟨err, h₁, -⟩
  · exact hx h₁ he
  · exact hx h₁ he

/-- Changing a result. -/
theorem keeps_map {x : Act α} {f : α → β} (hx : x.Keeps I) : Act.Keeps I (f <$> x) := by
  intro e r e' h he
  rcases gives_map.1 h with ⟨a, h₁, -⟩ | ⟨err, h₁, -⟩
  · exact hx h₁ he
  · exact hx h₁ he

/-- One of two operations. -/
theorem keeps_ite {c : Prop} [Decidable c] {x y : Act α} (hx : x.Keeps I) (hy : y.Keeps I) :
    Act.Keeps I (if c then x else y) := by
  split
  · exact hx
  · exact hy

/-- One operation for each element of a list. -/
theorem keeps_forM {f : α → Act PUnit} {xs : List α} (hf : ∀ x ∈ xs, (f x).Keeps I) :
    Act.Keeps I (xs.forM f) := by
  induction xs with
  | nil => exact keeps_pure _
  | cons x xs ih =>
    refine keeps_bind (hf x List.mem_cons_self) fun _ => ?_
    exact ih fun y hy => hf y (List.mem_cons_of_mem x hy)

/-- One operation for each element of a list, from which the next one takes its argument. -/
theorem keeps_foldlM {f : β → α → Act β} {xs : List α} (hf : ∀ b, ∀ x ∈ xs, (f b x).Keeps I) :
    ∀ b, Act.Keeps I (xs.foldlM f b) := by
  induction xs with
  | nil => exact fun b => keeps_pure b
  | cons x xs ih =>
    intro b
    rw [List.foldlM_cons]
    refine keeps_bind (hf b x List.mem_cons_self) fun b => ?_
    exact ih (fun b y hy => hf b y (List.mem_cons_of_mem x hy)) b

/-- One operation for each element of a list, whose results are collected. -/
theorem keeps_mapM {f : α → Act β} {xs : List α} (hf : ∀ x ∈ xs, (f x).Keeps I) :
    Act.Keeps I (xs.mapM f) := by
  induction xs with
  | nil =>
    rw [List.mapM_nil]
    exact keeps_pure _
  | cons x xs ih =>
    rw [List.mapM_cons]
    refine keeps_bind (hf x List.mem_cons_self) fun _ => ?_
    refine keeps_bind (ih fun y hy => hf y (List.mem_cons_of_mem x hy)) fun _ => ?_
    exact keeps_pure _

/-- Whatever comes of an operation that starts under one condition, it ends under another one. -/
def Takes (P : Engine → Prop) (x : Act α) (Q : Engine → Prop) : Prop :=
  ∀ ⦃e r e'⦄, x.Gives e r e' → P e → Q e'

/-- An operation that keeps an invariant may start under a stronger condition. -/
theorem Keeps.takes {P : Engine → Prop} {x : Act α} (hx : x.Keeps I) (hP : ∀ e, P e → I e) :
    x.Takes P I := fun _ _ _ hgives he => hx hgives (hP _ he)

/-- One operation after another. -/
theorem takes_bind {P R Q : Engine → Prop} {x : Act α} {f : α → Act β} (hx : x.Takes P R)
    (hRQ : ∀ e, R e → Q e) (hf : ∀ a, (f a).Takes R Q) : Act.Takes P (x >>= f) Q := by
  intro e r e' h he
  rcases gives_bind.1 h with ⟨a, e₁, h₁, h₂⟩ | ⟨err, h₁, -⟩
  · exact hf a h₂ (hx h₁ he)
  · exact hRQ _ (hx h₁ he)

/-- Changing the engine. -/
theorem takes_change {P Q : Engine → Prop} {f : Engine → Engine} (hf : ∀ e, P e → Q (f e)) :
    (change f).Takes P Q := by
  intro e r e' h he
  obtain ⟨-, rfl⟩ := gives_change.1 h
  exact hf e he

/-- An operation with a way out of its failures. -/
theorem takes_tryCatch {P : Engine → Prop} {x : Act α} {f : EngineError → Act α} (hx : x.Takes P I)
    (hf : ∀ err, (f err).Keeps I) : Act.Takes P (tryCatch x f) I := by
  intro e r e' h he
  rcases gives_tryCatch.1 h with ⟨a, h₁, -⟩ | ⟨err, e₁, h₁, h₂⟩
  · exact hx h₁ he
  · exact hf err h₂ (hx h₁ he)

/-- One operation after another, where the success of the first one tells more than the invariant. -/
theorem keeps_bind_of {x : Act α} {f : α → Act β} {J : Engine → α → Engine → Prop} (hx : x.Keeps I)
    (hJ : ∀ {e a e'}, x.Gives e (.ok a) e' → I e → J e a e')
    (hf : ∀ e a, I e → (f a).Takes (J e a) I) : Act.Keeps I (x >>= f) := by
  intro e r e' h he
  rcases gives_bind.1 h with ⟨a, e₁, h₁, h₂⟩ | ⟨err, h₁, -⟩
  · exact hf e a he h₂ (hJ h₁ he)
  · exact hx h₁ he

/-- Reading the engine, and what follows in the engine that was read. -/
theorem keeps_bind_read {g : Engine → β} {f : β → Act α}
    (hf : ∀ e, I e → (f (g e)).Takes (· = e) I) : Act.Keeps I (read g >>= f) := by
  intro e r e' h he
  rcases gives_bind.1 h with ⟨a, e₁, h₁, h₂⟩ | ⟨err, h₁, -⟩
  · obtain ⟨ha, rfl⟩ := gives_read.1 h₁
    rw [Except.ok.inj ha] at h₂
    exact hf e₁ he h₂ rfl
  · cases (gives_read.1 h₁).1

/-- Whenever an operation succeeds, its result has a property. -/
def Returns (x : Act α) (P : α → Prop) : Prop := ∀ ⦃e a e'⦄, x.Gives e (.ok a) e' → P a

/-- A result. -/
theorem returns_pure {P : α → Prop} {a : α} (h : P a) : Act.Returns (pure a) P := by
  intro e b e' hgives
  obtain ⟨hb, -⟩ := gives_pure.1 hgives
  rw [Except.ok.inj hb]
  exact h

/-- Two properties of a result. -/
theorem Returns.and {P Q : α → Prop} {x : Act α} (h : x.Returns P) (h' : x.Returns Q) :
    x.Returns fun a => P a ∧ Q a := fun _ _ _ hgives => ⟨h hgives, h' hgives⟩

/-- The result of one operation after another. -/
theorem returns_bind {P : β → Prop} {x : Act α} {f : α → Act β} (hf : ∀ a, (f a).Returns P) :
    Act.Returns (x >>= f) P := by
  intro e b e' hgives
  rcases gives_bind.1 hgives with ⟨a, e₁, -, h⟩ | ⟨err, -, h⟩
  · exact hf a h
  · cases h

/-- The result of one operation after another, the first of which has a property. -/
theorem returns_bind_of {P : β → Prop} {Q : α → Prop} {x : Act α} {f : α → Act β}
    (hx : x.Returns Q) (hf : ∀ a, Q a → (f a).Returns P) : Act.Returns (x >>= f) P := by
  intro e b e' hgives
  rcases gives_bind.1 hgives with ⟨a, e₁, ha, h⟩ | ⟨err, -, h⟩
  · exact hf a (hx ha) h
  · cases h

/-- Asking the token. -/
theorem keeps_poll (h : ∀ e, I e → I e.poll.2) : poll.Keeps I := by
  refine keeps_bind (keeps_step h) fun stop => ?_
  cases stop
  · exact keeps_pure _
  · exact keeps_throw _

end Act
end ReactiveView
