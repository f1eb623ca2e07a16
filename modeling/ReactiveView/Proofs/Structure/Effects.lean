import ReactiveView.Proofs.Structure.Shape
import ReactiveView.Proofs.Structure.Views

/-!
# What operations do to views

An operation is described by a relation between the view of the engine before it, its outcome, and
the view of the engine after it (`Act.Does`). The description holds as long as code has entered no
operation from inside and the slots suffice (`Engine.Calm`); an engine that is not calm never becomes
calm again, so that descriptions of parts make up descriptions of the whole (`does_bind`).

Evaluation leaves the view as it is, whatever is evaluated (`Act.does_evaluation`), so descriptions
need to look at the few changes of the tree only.
-/

namespace ReactiveView

variable {α β : Type}

/-! ## Views of engines -/

namespace Engine

variable {e e' : Engine} {r id : NodeId}

/-- The view of an engine. -/
def view (e : Engine) : View where
  shape := e.shape
  spent := e.nodes.Spent
  disjoint _ h := node?_eq_none.1 h.get?

/-- The live nodes of the view are those of the engine. -/
theorem live_view (e : Engine) (id : NodeId) : e.view.live id = e.contains id := by
  unfold View.live contains Arena.contains
  exact Option.isSome_map

/-- No change of an engine brings a node back or hides that it is gone. -/
theorem known_stable (id : NodeId) : OperationStable fun e =>
    e.nodes.Valid ∧ (e.contains id = true ∨ e.nodes.Spent id) where
  outside he hnodes _ _ _ := by
    unfold contains at he ⊢
    rwa [hnodes]
  enter he := he
  change id' f _ he := by
    refine ⟨he.1.modify id' f, he.2.imp (fun h => ?_) fun h => h.modify id' f⟩
    unfold contains modifyNode
    rwa [Arena.contains_modify]
  update _ he := he
  insert := by
    intro e n he
    refine ⟨he.1.insert n, ?_⟩
    refine he.2.imp (fun h => ?_) fun h => h.insert he.1 n
    obtain ⟨m, hm⟩ := Option.isSome_iff_exists.1 h
    exact Option.isSome_iff_exists.2 ⟨m, Arena.get?_insert_of_some he.1 hm n⟩
  remove := by
    intro e id' n hn he
    refine ⟨he.1.remove id', ?_⟩
    by_cases hid : id = id'
    · rw [hid]
      exact .inr (Arena.spent_remove he.1 hn)
    · refine he.2.imp (fun h => ?_) fun h => h.remove he.1 id'
      change ((e.nodes.remove id').2.get? id).isSome = true
      rw [Arena.get?_remove, if_neg hid]
      exact h

/-- Whatever survives all changes survives a change. -/
def Operates (e e' : Engine) : Prop := ∀ I : Engine → Prop, OperationStable I → I e → I e'

/-- Changes lead to later views. -/
theorem Operates.later (h : e.Operates e') (hvalid : e.nodes.Valid) : e.view.Later e'.view where
  spent id hid := (h _ (spent_stable id) ⟨hvalid, hid⟩).2
  known id hid := by
    rw [live_view] at hid ⊢
    exact (h _ (known_stable id) ⟨hvalid, .inl hid⟩).2

/-- The view survives evaluation, as long as the engine is calm. -/
theorem view_stable (v : View) :
    EvaluationStable fun e => e.Calm → e.nodes.Valid ∧ e.view = v where
  outside he hnodes _ _ hentries := by
    have hview {e e' : Engine} (hnodes : e'.nodes = e.nodes) : e'.view = e.view :=
      View.ext (shape_congr hnodes) (congrArg Arena.Spent hnodes)
    rw [hview hnodes]
    unfold Calm at he ⊢
    rwa [hnodes, hentries]
  node {e id f} hf he hcalm := by
    obtain ⟨hvalid, hview⟩ := he ⟨hcalm.1, (Arena.roomy_modify id f).1 hcalm.2⟩
    refine ⟨hvalid.modify id f, View.ext ?_ (funext fun id' => ?_)⟩
    · rw [← hview]
      exact shape_modifyNode_of_same fun n hn => RenderNode.shape_of_skeleton (hf n hn)
    · rw [← hview]
      exact propext (Arena.spent_modify id' id f)
  report {e id} he := by
    unfold report
    split
    · exact he
    · exact he

end Engine

/-! ## Descriptions -/

/-- An operation does what a relation says. -/
structure Act.Does (x : Act α) (T : View → Except EngineError α → View → Prop) : Prop where
  /-- It does not calm the engine. -/
  calm : x.Keeps fun e => ¬e.Calm
  /-- It keeps the arena valid. -/
  valid : x.Keeps fun e => e.nodes.Valid
  /-- As long as the engine is calm, the views before and after it are related. -/
  spec : ∀ ⦃e r e'⦄, x.Gives e r e' → e'.Calm → e.nodes.Valid → T e.view r e'.view

namespace Act

variable {T T' : View → Except EngineError α → View → Prop}
  {U : View → Except EngineError β → View → Prop}

/-- A description that says less. -/
theorem Does.mono {x : Act α} (h : x.Does T) (hT : ∀ v r v', T v r v' → T' v r v') : x.Does T' :=
  ⟨h.calm, h.valid, fun _ _ _ hgives hcalm hvalid => hT _ _ _ (h.spec hgives hcalm hvalid)⟩

/-- Two descriptions. -/
theorem Does.and {x : Act α} (h : x.Does T) (h' : x.Does T') :
    x.Does fun v r v' => T v r v' ∧ T' v r v' :=
  ⟨h.calm, h.valid, fun _ _ _ hgives hcalm hvalid =>
    ⟨h.spec hgives hcalm hvalid, h'.spec hgives hcalm hvalid⟩⟩

/-- What an operation did, if the engine is calm after it; then the engine was calm before it. -/
theorem Does.gives {x : Act α} (h : x.Does T) {e e' : Engine} {r : Except EngineError α}
    (hgives : x.Gives e r e') (hvalid : e.nodes.Valid) :
    e'.nodes.Valid ∧ (e'.Calm → e.Calm ∧ T e.view r e'.view) :=
  ⟨h.valid hgives hvalid, fun hcalm =>
    ⟨Classical.byContradiction fun hwild => h.calm hgives hwild hcalm,
      h.spec hgives hcalm hvalid⟩⟩

/-- A result without a change. -/
theorem does_pure {a : α} (h : ∀ v, T v (.ok a) v) : Act.Does (pure a) T where
  calm := keeps_pure a
  valid := keeps_pure a
  spec e r e' hgives _ _ := by
    obtain ⟨rfl, rfl⟩ := gives_pure.1 hgives
    exact h _

/-- A failure. -/
theorem does_throw {err : EngineError} (h : ∀ v, T v (.error err) v) :
    Act.Does (throw err : Act α) T where
  calm := keeps_throw err
  valid := keeps_throw err
  spec e r e' hgives _ _ := by
    obtain ⟨rfl, rfl⟩ := gives_throw.1 hgives
    exact h _

/-- One operation after another. -/
theorem does_bind {x : Act α} {f : α → Act β} {S : α → View → Except EngineError β → View → Prop}
    (hx : x.Does T) (hf : ∀ a, (f a).Does (S a))
    (hok : ∀ v a v₁ r v', T v (.ok a) v₁ → S a v₁ r v' → U v r v')
    (herr : ∀ v err v', T v (.error err) v' → U v (.error err) v') : Act.Does (x >>= f) U where
  calm := keeps_bind hx.calm fun a => (hf a).calm
  valid := keeps_bind hx.valid fun a => (hf a).valid
  spec e r e' hgives hcalm hvalid := by
    rcases gives_bind.1 hgives with ⟨a, e₁, h₁, h₂⟩ | ⟨err, h₁, rfl⟩
    · -- what is not calm does not become calm
      have hcalm₁ : e₁.Calm := Classical.byContradiction fun h => (hf a).calm h₂ h hcalm
      exact hok _ a _ r _ (hx.spec h₁ hcalm₁ hvalid) ((hf a).spec h₂ hcalm (hx.valid h₁ hvalid))
    · exact herr _ err _ (hx.spec h₁ hcalm hvalid)

/-- An operation with a way out of its failures. -/
theorem does_tryCatch {x : Act α} {f : EngineError → Act α}
    {S : EngineError → View → Except EngineError α → View → Prop}
    (hx : x.Does T) (hf : ∀ err, (f err).Does (S err))
    (hok : ∀ v a v', T v (.ok a) v' → T' v (.ok a) v')
    (herr : ∀ v err v₁ r v', T v (.error err) v₁ → S err v₁ r v' → T' v r v') :
    Act.Does (tryCatch x f) T' where
  calm := keeps_tryCatch hx.calm fun err => (hf err).calm
  valid := keeps_tryCatch hx.valid fun err => (hf err).valid
  spec e r e' hgives hcalm hvalid := by
    rcases gives_tryCatch.1 hgives with ⟨a, h₁, rfl⟩ | ⟨err, e₁, h₁, h₂⟩
    · exact hok _ a _ (hx.spec h₁ hcalm hvalid)
    · have hcalm₁ : e₁.Calm := Classical.byContradiction fun h => (hf err).calm h₂ h hcalm
      exact herr _ err _ r _ (hx.spec h₁ hcalm₁ hvalid)
        ((hf err).spec h₂ hcalm (hx.valid h₁ hvalid))

/-- One of two operations. -/
theorem does_ite {c : Prop} [Decidable c] {x y : Act α} (hx : x.Does T) (hy : y.Does T) :
    Act.Does (if c then x else y) T := by
  split
  · exact hx
  · exact hy

/-- Forgetting a result. -/
theorem does_discard {x : Act α} {T : View → Except EngineError PUnit → View → Prop}
    {S : View → Except EngineError α → View → Prop} (hx : x.Does S)
    (hok : ∀ v a v', S v (.ok a) v' → T v (.ok ⟨⟩) v')
    (herr : ∀ v err v', S v (.error err) v' → T v (.error err) v') : Act.Does (discard x) T where
  calm := keeps_discard hx.calm
  valid := keeps_discard hx.valid
  spec e r e' hgives hcalm hvalid := by
    rcases gives_discard.1 hgives with ⟨a, h, rfl⟩ | ⟨err, h, rfl⟩
    · exact hok _ a _ (hx.spec h hcalm hvalid)
    · exact herr _ err _ (hx.spec h hcalm hvalid)

/-- Reading the engine. The engine that is read has the view before what follows. -/
theorem does_bind_read {f : Engine → α} {g : α → Act β}
    (hg : ∀ e : Engine, (g (f e)).Does fun v r v' => v = e.view → U v r v') :
    Act.Does (read f >>= g) U where
  calm := by
    intro e r e' hgives he
    rcases gives_bind.1 hgives with ⟨a, e₁, h₁, h₂⟩ | ⟨err, h₁, rfl⟩
    · obtain ⟨ha, rfl⟩ := gives_read.1 h₁
      obtain rfl := Except.ok.inj ha
      exact (hg e₁).calm h₂ he
    · cases (gives_read.1 h₁).1
  valid := by
    intro e r e' hgives he
    rcases gives_bind.1 hgives with ⟨a, e₁, h₁, h₂⟩ | ⟨err, h₁, rfl⟩
    · obtain ⟨ha, rfl⟩ := gives_read.1 h₁
      obtain rfl := Except.ok.inj ha
      exact (hg e₁).valid h₂ he
    · cases (gives_read.1 h₁).1
  spec e r e' hgives hcalm hvalid := by
    rcases gives_bind.1 hgives with ⟨a, e₁, h₁, h₂⟩ | ⟨err, h₁, rfl⟩
    · obtain ⟨ha, rfl⟩ := gives_read.1 h₁
      obtain rfl := Except.ok.inj ha
      exact (hg e₁).spec h₂ hcalm hvalid rfl
    · cases (gives_read.1 h₁).1

/-- Changing the engine, with a result. -/
theorem does_step {f : Engine → α × Engine} (hf : ∀ e : Engine, e.Operates (f e).2)
    (h : ∀ e, e.nodes.Valid → (f e).2.Calm → e.view.Later (f e).2.view →
      T e.view (.ok (f e).1) (f e).2.view) : (step f).Does T where
  calm := keeps_step fun e he => hf e _ Engine.calm_stable he
  valid := keeps_step fun e he => hf e _ Engine.valid_stable he
  spec e r e' hgives hcalm hvalid := by
    obtain ⟨rfl, rfl⟩ := gives_step.1 hgives
    exact h e hvalid hcalm ((hf e).later hvalid)

/-- Changing the engine. -/
theorem does_change {f : Engine → Engine} {T : View → Except EngineError Unit → View → Prop}
    (hf : ∀ e : Engine, e.Operates (f e))
    (h : ∀ e, e.nodes.Valid → e.view.Later (f e).view → T e.view (.ok ()) (f e).view) :
    (change f).Does T where
  calm := keeps_change fun e he => hf e _ Engine.calm_stable he
  valid := keeps_change fun e he => hf e _ Engine.valid_stable he
  spec e r e' hgives _ hvalid := by
    obtain ⟨rfl, rfl⟩ := gives_change.1 hgives
    exact h e hvalid ((hf e).later hvalid)

/-! ## Successes -/

/-- If an operation succeeds, then as a relation says. -/
def Ensures (x : Act α) (S : View → α → View → Prop) : Prop :=
  x.Does fun v r v' => ∀ a, r = .ok a → S v a v'

/-- A promise of less. -/
theorem Ensures.imp {x : Act α} {S S' : View → α → View → Prop} (h : x.Ensures S)
    (hS : ∀ v a v', S v a v' → S' v a v') : x.Ensures S' :=
  Does.mono h fun v _ v' h a ha => hS v a v' (h a ha)

/-- Two promises. -/
theorem Ensures.and {x : Act α} {S S' : View → α → View → Prop} (h : x.Ensures S)
    (h' : x.Ensures S') : x.Ensures fun v a v' => S v a v' ∧ S' v a v' :=
  Does.mono (Does.and h h') fun _ _ _ hboth a ha => ⟨hboth.1 a ha, hboth.2 a ha⟩

/-- A result without a change. -/
theorem ensures_pure {a : α} {S : View → α → View → Prop} (h : ∀ v, S v a v) :
    Act.Ensures (pure a) S := does_pure fun v a' ha => by
  obtain rfl := Except.ok.inj ha
  exact h v

/-- One operation after another: there are a result and a view between them. -/
theorem ensures_bind {x : Act α} {f : α → Act β} {S : View → α → View → Prop}
    {S' : α → View → β → View → Prop} (hx : x.Ensures S) (hf : ∀ a, (f a).Ensures (S' a)) :
    Act.Ensures (x >>= f) fun v b v' => ∃ a v₁, S v a v₁ ∧ S' a v₁ b v' :=
  does_bind hx hf (fun _ a v₁ _ _ h₁ h₂ b hb => ⟨a, v₁, h₁ a rfl, h₂ b hb⟩)
    fun _ _ _ _ _ h => by cases h

end Act

/-! ## Evaluation -/

/-- An operation only evaluates: it keeps what evaluation cannot break. -/
def Act.Evaluates (re : Reentry) (x : Act α) : Prop :=
  ∀ I : Engine → Prop, Engine.EvaluationStable I → re.EntersKeeping I → x.Keeps I

namespace Render

variable {re : Reentry} (id : NodeId)

/-- Refreshing an element only evaluates. -/
theorem evaluates_refreshElement : (refreshElement re id).Evaluates re := fun _ h hen =>
  refreshElement_keeps h.tracking hen trivial fun _ _ _ _ he => h.showState id _ he

/-- Refreshing a text node only evaluates. -/
theorem evaluates_refreshText : (refreshText re id).Evaluates re := fun _ h hen =>
  refreshText_keeps h.tracking hen trivial fun _ text he => h.showText id text he

/-- Giving an element a text only evaluates. -/
theorem evaluates_setElementText (source : TextSource) :
    (setElementText re id source).Evaluates re := fun _ h hen =>
  setElementText_keeps h.tracking hen trivial (fun _ _ _ _ he => h.showState id _ he)
    (fun _ _ he => h.modifyElement (fun _ => rfl) he) source

end Render

namespace Act

variable {re : Reentry} (hre : re.Operates)
include hre

/-- Evaluation leaves the view. -/
theorem does_evaluation {x : Act α} (hx : x.Evaluates re) : x.Does fun v _ v' => v' = v where
  calm := hx _ Engine.calm_stable.evaluation (hre.enters Engine.calm_stable.closed)
  valid := hx _ Engine.valid_stable.evaluation (hre.enters Engine.valid_stable.closed)
  spec e _ _ hgives hcalm' he := by
    have hen : re.EntersKeeping fun e' => e'.Calm → e'.nodes.Valid ∧ e'.view = e.view :=
      Reentry.enters_wild (hre _ Engine.calm_stable.closed) fun _ hwild hcalm => absurd hcalm hwild
    exact (hx _ (Engine.view_stable e.view) hen hgives (fun _ => ⟨he, rfl⟩) hcalm').2

/-- What follows an evaluation does not notice it. -/
theorem does_bind_evaluation {x : Act α} {f : α → Act β}
    {U : View → Except EngineError β → View → Prop} (hx : x.Evaluates re)
    (hf : ∀ a, (f a).Does U) (herr : ∀ v err, U v (.error err) v) : Act.Does (x >>= f) U := by
  refine does_bind (does_evaluation hre hx) hf (fun v a v₁ r v' h hU => ?_)
    fun v err v' h => ?_
  · rwa [h] at hU
  · rw [h]
    exact herr v err

end Act

end ReactiveView
