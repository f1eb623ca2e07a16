import ReactiveView.Proofs.Compilation.Changes
import ReactiveView.Proofs.Computation
import ReactiveView.Proofs.Correspondence

/-!
# Refinement of operations

One operation is refined by another if, on engines with one norm, whenever the first has an outcome
the second has a corresponding one (`Act.Refines`): the same error or corresponding results, and
engines with one norm afterwards. The second may have outcomes where the first has none, because it
may be allowed to nest more deeply. Composed operations inherit refinement from their parts, and so
does all code that is run in the tree (`Site.env_refines`).
-/

namespace ReactiveView

variable {α β : Type}

/-- Outcomes that fail alike or have corresponding results. -/
inductive Matching (V : α → α → Prop) : Except EngineError α → Except EngineError α → Prop
  /-- Both fail. -/
  | error (err : EngineError) : Matching V (.error err) (.error err)
  /-- Both succeed. -/
  | ok {a b : α} (related : V a b) : Matching V (.ok a) (.ok b)

/-- Outcomes with the same results are the same. -/
theorem Matching.eq {r r' : Except EngineError α} (h : Matching Eq r r') : r = r' := by
  cases h with
  | error err => rfl
  | ok related => exact congrArg Except.ok related

/-- The same outcomes have the same results. -/
theorem Matching.of_eq {r r' : Except EngineError α} (h : r = r') : Matching Eq r r' := by
  subst h
  cases r with
  | error err => exact .error err
  | ok a => exact .ok rfl

/-- On engines with one norm, the second change has an outcome corresponding to that of the first,
whenever the first has one. -/
def RenderM.Refines (V : α → α → Prop) (x y : RenderM α) : Prop :=
  ∀ ⦃e e' : Engine⦄, e.norm = e'.norm → ∀ ⦃a e₁⦄, x.Gives e a e₁ →
    ∃ b e₁', y.Gives e' b e₁' ∧ e₁.norm = e₁'.norm ∧ V a b

/-- On engines with one norm, the second operation has an outcome corresponding to that of the
first, whenever the first has one. -/
def Act.Refines (V : α → α → Prop) (x y : Act α) : Prop :=
  ∀ ⦃e e' : Engine⦄, e.norm = e'.norm → ∀ ⦃r e₁⦄, x.Gives e r e₁ →
    ∃ r' e₁', y.Gives e' r' e₁' ∧ e₁.norm = e₁'.norm ∧ Matching V r r'

namespace RenderM

/-- A result without a change. -/
theorem refines_pure (a : α) : RenderM.Refines Eq (pure a) (pure a) := by
  intro e e' he b e₁ h
  obtain ⟨rfl, rfl⟩ := gives_pure.1 h
  exact ⟨b, e', gives_pure.2 ⟨rfl, rfl⟩, he, rfl⟩

/-- One change after another. -/
theorem refines_bind {x y : RenderM α} {f g : α → RenderM β} (hx : x.Refines Eq y)
    (hf : ∀ a, (f a).Refines Eq (g a)) : RenderM.Refines Eq (x >>= f) (y >>= g) := by
  intro e e' he b e₂ h
  obtain ⟨a, e₁, hfirst, hrest⟩ := gives_bind.1 h
  obtain ⟨a', e₁', hfirst', he₁, rfl⟩ := hx he hfirst
  obtain ⟨b', e₂', hrest', he₂, hb⟩ := hf a he₁ hrest
  exact ⟨b', e₂', gives_bind.2 ⟨a, e₁', hfirst', hrest'⟩, he₂, hb⟩

/-- A step that has the same result on engines with one norm. -/
theorem refines_step {f : Engine → α × Engine}
    (hf : ∀ e : Engine, f e.norm = ((f e).1, (f e).2.norm)) : (step f).Refines Eq (step f) := by
  intro e e' he a e₁ h
  have hfst : (f e).1 = (f e').1 := by
    rw [show (f e).1 = (f e.norm).1 by rw [hf], he, hf]
  have hsnd : (f e).2.norm = (f e').2.norm := by
    rw [show (f e).2.norm = (f e.norm).2 by rw [hf], he, hf]
  rw [gives_step] at h
  rw [h] at hfst hsnd
  exact ⟨(f e').1, (f e').2, gives_step.2 rfl, hsnd, hfst⟩

/-- A change that is the same on engines with one norm. -/
theorem refines_modify {f : Engine → Engine} (hf : ∀ e : Engine, f e.norm = (f e).norm) :
    RenderM.Refines Eq (modify f) (modify f) := by
  intro e e' he u e₁ h
  rw [gives_modify] at h
  refine ⟨u, f e', gives_modify.2 rfl, ?_, rfl⟩
  rw [h, ← hf, he, hf]

end RenderM

namespace Act

variable {V : α → α → Prop} {W : β → β → Prop}

/-- A result without a change. -/
theorem refines_pure_of {a b : α} (h : V a b) : Act.Refines V (pure a) (pure b) := by
  intro e e' he r e₁ hgives
  obtain ⟨rfl, rfl⟩ := gives_pure.1 hgives
  exact ⟨.ok b, e', gives_pure.2 ⟨rfl, rfl⟩, he, .ok h⟩

/-- The same result without a change. -/
theorem refines_pure (a : α) : Act.Refines Eq (pure a) (pure a) := refines_pure_of rfl

/-- A failure. -/
theorem refines_throw (err : EngineError) : Act.Refines V (throw err) (throw err) := by
  intro e e' he r e₁ h
  obtain ⟨rfl, rfl⟩ := gives_throw.1 h
  exact ⟨.error err, e', gives_throw.2 ⟨rfl, rfl⟩, he, .error err⟩

/-- One operation after another. -/
theorem refines_bind_of {x y : Act α} {f g : α → Act β} (hx : x.Refines V y)
    (hf : ∀ a b, V a b → (f a).Refines W (g b)) : Act.Refines W (x >>= f) (y >>= g) := by
  intro e e' he r e₂ h
  rcases gives_bind.1 h with ⟨a, e₁, hfirst, hrest⟩ | ⟨err, hfirst, rfl⟩
  · obtain ⟨r', e₁', hfirst', he₁, hr'⟩ := hx he hfirst
    cases hr' with
    | @ok _ b hab =>
      obtain ⟨r', e₂', hrest', he₂, hr⟩ := hf a b hab he₁ hrest
      exact ⟨r', e₂', gives_bind.2 (.inl ⟨b, e₁', hfirst', hrest'⟩), he₂, hr⟩
  · obtain ⟨r', e₁', hfirst', he₁, hr'⟩ := hx he hfirst
    cases hr' with
    | error => exact ⟨_, e₁', gives_bind.2 (.inr ⟨err, hfirst', rfl⟩), he₁, .error err⟩

/-- One operation after another, which has the same result. -/
theorem refines_bind {x y : Act α} {f g : α → Act β} (hx : x.Refines Eq y)
    (hf : ∀ a, (f a).Refines W (g a)) : Act.Refines W (x >>= f) (y >>= g) := by
  refine refines_bind_of hx fun a b hab => ?_
  subst hab
  exact hf a

/-- Operations with a way out of their failures. -/
theorem refines_tryCatch {x y : Act α} {f g : EngineError → Act α} (hx : x.Refines V y)
    (hf : ∀ err, (f err).Refines V (g err)) : Act.Refines V (tryCatch x f) (tryCatch y g) := by
  intro e e' he r e₂ h
  rcases gives_tryCatch.1 h with ⟨a, hfirst, rfl⟩ | ⟨err, e₁, hfirst, hrest⟩
  · obtain ⟨r', e₁', hfirst', he₁, hr'⟩ := hx he hfirst
    cases hr' with
    | ok hab => exact ⟨_, e₁', gives_tryCatch.2 (.inl ⟨_, hfirst', rfl⟩), he₁, .ok hab⟩
  · obtain ⟨r', e₁', hfirst', he₁, hr'⟩ := hx he hfirst
    cases hr' with
    | error =>
      obtain ⟨r', e₂', hrest', he₂, hr⟩ := hf err he₁ hrest
      exact ⟨r', e₂', gives_tryCatch.2 (.inr ⟨err, e₁', hfirst', hrest'⟩), he₂, hr⟩

/-- Changes that cannot fail. -/
theorem refines_lift {x y : RenderM α} (hx : x.Refines Eq y) :
    Act.Refines Eq (ExceptT.lift x) (ExceptT.lift y) := by
  intro e e' he r e₁ h
  obtain ⟨a, rfl, hgives⟩ := gives_lift.1 h
  obtain ⟨b, e₁', hgives', he₁, rfl⟩ := hx he hgives
  exact ⟨.ok a, e₁', gives_lift.2 ⟨a, rfl, hgives'⟩, he₁, .ok rfl⟩

/-- Operations whose errors are results. -/
theorem refines_run {x y : Act α} (hx : x.Refines Eq y) :
    Act.Refines Eq (ExceptT.lift x.run) (ExceptT.lift y.run) := by
  refine refines_lift fun e e' he r e₁ h => ?_
  obtain ⟨r', e₁', h', he₁, hr⟩ := hx he h
  exact ⟨r', e₁', h', he₁, hr.eq⟩

/-- Reading what engines with one norm have in common, up to `g`. -/
theorem refines_read_of {f : Engine → α} {g : α → α} (hf : ∀ e : Engine, f e.norm = g (f e)) :
    (read f).Refines (fun a b => g a = g b) (read f) := by
  intro e e' he r e₁ h
  obtain ⟨rfl, rfl⟩ := gives_read.1 h
  refine ⟨_, e', gives_read.2 ⟨rfl, rfl⟩, he, .ok ?_⟩
  rw [← hf, he, hf]

/-- Reading what engines with one norm have in common. -/
theorem refines_read {f : Engine → α} (hf : ∀ e : Engine, f e.norm = f e) :
    (read f).Refines Eq (read f) := refines_read_of hf

/-- Changes that are the same on engines with one norm. -/
theorem refines_change_of {f f' : Engine → Engine}
    (hf : ∀ e e' : Engine, e.norm = e'.norm → (f e).norm = (f' e').norm) :
    (change f).Refines Eq (change f') := by
  intro e e' he r e₁ h
  obtain ⟨rfl, rfl⟩ := gives_change.1 h
  exact ⟨_, _, gives_change.2 ⟨rfl, rfl⟩, hf e e' he, .ok rfl⟩

/-- A change that is the same on engines with one norm. -/
theorem refines_change {f : Engine → Engine} (hf : ∀ e : Engine, f e.norm = (f e).norm) :
    (change f).Refines Eq (change f) := by
  refine refines_change_of fun e e' he => ?_
  rw [← hf, he, hf]

/-- Steps that have the same result on engines with one norm. -/
theorem refines_step_of {f f' : Engine → α × Engine}
    (hf : ∀ e e' : Engine, e.norm = e'.norm → V (f e).1 (f' e').1 ∧ (f e).2.norm = (f' e').2.norm) :
    (step f).Refines V (step f') := by
  intro e e' he r e₁ h
  obtain ⟨rfl, rfl⟩ := gives_step.1 h
  exact ⟨_, _, gives_step.2 ⟨rfl, rfl⟩, (hf e e' he).2, .ok (hf e e' he).1⟩

/-- A step that has the same result on engines with one norm. -/
theorem refines_step {f : Engine → α × Engine}
    (hf : ∀ e : Engine, f e.norm = ((f e).1, (f e).2.norm)) : (step f).Refines Eq (step f) :=
  refines_lift (RenderM.refines_step hf)

/-- Forgetting results. -/
theorem refines_discard {x y : Act α} (hx : x.Refines V y) :
    Act.Refines Eq (discard x) (discard y) := by
  intro e e' he r e₁ h
  rcases gives_discard.1 h with ⟨a, hfirst, rfl⟩ | ⟨err, hfirst, rfl⟩
  · obtain ⟨r', e₁', hfirst', he₁, hr'⟩ := hx he hfirst
    cases hr' with
    | ok => exact ⟨_, e₁', gives_discard.2 (.inl ⟨_, hfirst', rfl⟩), he₁, .ok rfl⟩
  · obtain ⟨r', e₁', hfirst', he₁, hr'⟩ := hx he hfirst
    cases hr' with
    | error => exact ⟨_, e₁', gives_discard.2 (.inr ⟨err, hfirst', rfl⟩), he₁, .error err⟩

/-- Changing results. -/
theorem refines_map {x y : Act α} (f : α → β) (hx : x.Refines Eq y) :
    Act.Refines Eq (f <$> x) (f <$> y) := by
  rw [map_eq_pure_bind, map_eq_pure_bind]
  exact refines_bind hx fun a => refines_pure (f a)

/-- One of two operations. -/
theorem refines_ite {c : Prop} [Decidable c] {x y x' y' : Act α} (hx : x.Refines V x')
    (hy : y.Refines V y') : Act.Refines V (if c then x else y) (if c then x' else y') := by
  split
  · exact hx
  · exact hy

/-- One operation for each element of a list. -/
theorem refines_forM {f g : α → Act PUnit} (hf : ∀ a, (f a).Refines Eq (g a)) (xs : List α) :
    Act.Refines Eq (xs.forM f) (xs.forM g) := by
  induction xs with
  | nil => exact refines_pure _
  | cons x xs ih => exact refines_bind (hf x) fun _ => ih

/-- One operation for each element of a list, from which the next one takes its argument. The lists
have the same elements up to `k`. -/
theorem refines_foldlM {γ : Type} {k : α → γ} {f g : β → α → Act β}
    (hf : ∀ b x y, k x = k y → (f b x).Refines Eq (g b y)) {xs : List α} :
    ∀ {ys : List α}, xs.map k = ys.map k → ∀ b, Act.Refines Eq (xs.foldlM f b) (ys.foldlM g b) := by
  induction xs with
  | nil =>
    intro ys h b
    rw [List.map_nil, List.nil_eq, List.map_eq_nil_iff] at h
    subst h
    exact refines_pure b
  | cons x xs ih =>
    intro ys h b
    cases ys with
    | nil => cases h
    | cons y ys =>
      rw [List.map_cons, List.map_cons, List.cons.injEq] at h
      rw [List.foldlM_cons, List.foldlM_cons]
      exact refines_bind (hf b x y h.1) (ih h.2)

/-- One operation for each element of a list, whose results are collected. -/
theorem refines_mapM {f g : α → Act β} (hf : ∀ a, (f a).Refines Eq (g a)) (xs : List α) :
    Act.Refines Eq (xs.mapM f) (xs.mapM g) := by
  induction xs with
  | nil =>
    rw [List.mapM_nil, List.mapM_nil]
    exact refines_pure _
  | cons x xs ih =>
    rw [List.mapM_cons, List.mapM_cons]
    exact refines_bind (hf x) fun _ => refines_bind ih fun _ => refines_pure _

/-- Asking the token. -/
theorem refines_poll : poll.Refines Eq poll := by
  refine refines_bind (refines_step Engine.poll_norm) fun stop => ?_
  cases stop
  · exact refines_pure _
  · exact refines_throw _

end Act

/-! ## Code -/

/-- Refinement as a relation between the computations of two hosts. -/
def refinesCorrespondence : Correspondence RenderM RenderM where
  rel x y := x.Refines Eq y
  rel_pure a := RenderM.refines_pure a
  rel_bind hx hf := RenderM.refines_bind hx hf
  rel_map f hx := RenderM.refines_bind hx fun a => RenderM.refines_pure (f a)

/-- Entering operations anew is refined, on bodies with one norm. -/
structure Reentry.Refines (re re' : Reentry) : Prop where
  /-- Building a body. -/
  build : ∀ {body body' : Body} (cursor : Cursor), body.norm = body'.norm →
    (re.build body cursor).Refines Eq (re'.build body' cursor)
  /-- Updating a node. -/
  update : ∀ id, (re.update id).Refines Eq (re'.update id)
  /-- Rebuilding a context. -/
  rebuild : ∀ ctx, (re.rebuild ctx).Refines Eq (re'.rebuild ctx)

section

variable {re re' : Reentry} (hre : re.Refines re')
include hre

namespace Intrinsic

omit hre in
/-- An operation that is run from code. -/
theorem enter_refines (name : String) {x y : Act Unit} (hx : x.Refines Eq y) :
    (enter name x).Refines Eq (enter name y) := by
  refine RenderM.refines_bind (RenderM.refines_modify fun _ => rfl) fun _ => ?_
  refine RenderM.refines_bind (fun e e' he r e₁ h => ?_) fun outcome => ?_
  · obtain ⟨r', e₁', h', he₁, hr⟩ := hx he h
    exact ⟨r', e₁', h', he₁, hr.eq⟩
  · cases outcome with
    | ok => exact RenderM.refines_pure _
    | error err => exact RenderM.refines_pure _

/-- Calling an intrinsic. -/
theorem call_refines (site : Site) (name : String) (args : List Value) :
    (call re site name args).Refines Eq (call re' site name args) := by
  intro e e' he outcome e₂ h
  have htarget (name : String) : target e site name args = target e' site name args := by
    rw [← e.target_norm, he, e'.target_norm]
  have hrebuild : rebuildTarget e site args = rebuildTarget e' site args := by
    rw [← e.rebuildTarget_norm, he, e'.rebuildTarget_norm]
  simp only [call, RenderM.gives_bind, RenderM.gives_get, and_assoc, exists_and_left,
    exists_eq_left] at h ⊢
  split at h
  · rw [hrebuild] at h
    cases hctx : rebuildTarget e' site args with
    | error err =>
      rw [hctx] at h
      exact RenderM.refines_pure _ he h
    | ok ctx =>
      rw [hctx] at h
      exact enter_refines _ (hre.rebuild ctx) he h
  · rw [htarget] at h
    cases htarget' : target e' site "update" args with
    | error err =>
      rw [htarget'] at h
      exact RenderM.refines_pure _ he h
    | ok p =>
      rw [htarget'] at h
      exact enter_refines _ (hre.update p.1) he h
  · rename_i hrebuild hupdate
    have hpure : RenderM.Refines Eq (RenderM.step fun e => callPure e site name args)
        (RenderM.step fun e => callPure e site name args) :=
      RenderM.refines_step fun e => e.callPure_norm site name args
    have htail (e : Engine) {b : Outcome Value} {e₁ : Engine} :
        RenderM.Gives (do
          set (callPure e site name args).2
          pure (callPure e site name args).1) e b e₁ ↔
        (RenderM.step fun e => callPure e site name args).Gives e b e₁ := by
      simp only [RenderM.gives_bind, RenderM.gives_set, RenderM.gives_pure, RenderM.gives_step]
      constructor
      · rintro ⟨_, _, rfl, rfl, rfl⟩
        rfl
      · intro hcall
        rw [hcall]
        exact ⟨⟨⟩, e₁, rfl, rfl, rfl⟩
    simp only [htail] at h ⊢
    exact hpure he h

end Intrinsic

/-- The operations of the tree as an environment. -/
theorem Site.env_refines (site : Site) :
    (site.env re).Related refinesCorrespondence (site.env re') where
  lookup name := RenderM.refines_step fun e => e.lookupAt_norm site name
  has name := RenderM.refines_step fun e => by simp only [Engine.frames_norm, Engine.getVar_norm]
  assign name v := RenderM.refines_step fun e => by
    simp only [Engine.scopeOwner_norm, Engine.writeVar_norm]
  this := RenderM.refines_pure _
  member target name := RenderM.refines_step fun e => e.memberAt_norm site target name
  isIntrinsic _ := rfl
  callIntrinsic name args := Intrinsic.call_refines hre site name args
  interrupted := RenderM.refines_step Engine.poll_norm
  freshSerial := RenderM.refines_step fun _ => rfl

end
end ReactiveView
