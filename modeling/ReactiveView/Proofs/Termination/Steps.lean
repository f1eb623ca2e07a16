import Mathlib.Logic.Relation
import ReactiveView.Eval.Machine

/-!
# What a machine comes to

A piece of work is done when what waited for it gets an answer or an error. Until then that is not
touched: it stays below everything that is put on top of it (`Machine.Busy`), so the moment at which a
piece of work is done is the first one at which nothing more waits than before it.

`Machine.Leads` says that a machine comes from a moment to the result of a computation in this way.
Computations that follow each other are led to one after the other (`Machine.Leads.bind`), so what is
left for a single piece of work is its first step.
-/

namespace ReactiveView

open Interpreter

/-- Go on with a result, and differently with an error. -/
def Eval.both {m : Type → Type} [Monad m] {α β : Type} (x : Eval m α) (f : α → Eval m β)
    (g : EvalError → Eval m β) : Eval m β :=
  ExceptT.mk (x.run >>= fun r =>
    match r with
    | .ok a => (f a).run
    | .error err => (g err).run)

theorem Eval.bind_eq_both {m : Type → Type} [Monad m] {α β : Type} (x : Eval m α)
    (f : α → Eval m β) : x >>= f = x.both f fun err => throw err := by
  refine congrArg (x.run >>= ·) (funext fun r => ?_)
  cases r <;> rfl

theorem Eval.run_both {σ α β : Type} (x : Eval (StateM σ) α) (f : α → Eval (StateM σ) β)
    (g : EvalError → Eval (StateM σ) β) (host : σ) :
    (x.both f g).run.run host =
      match x.run.run host with
      | (.ok a, host) => (f a).run.run host
      | (.error err, host) => (g err).run.run host := by
  rw [Eval.both, ExceptT.run_mk, StateT.run_bind]
  rcases x.run.run host with ⟨_ | _, _⟩ <;> rfl

theorem Eval.run_ask {σ α : Type} (x : StateM σ α) (host : σ) :
    (Interpreter.ask x).run.run host = (.ok (x.run host).1, (x.run host).2) := rfl

theorem Eval.run_map {σ α β : Type} (f : α → β) (x : Eval (StateM σ) α) (host : σ) :
    (f <$> x).run.run host = ((x.run.run host).1.map f, (x.run.run host).2) := by
  rw [map_eq_pure_bind, Eval.bind_eq_both, Eval.run_both]
  rcases x.run.run host with ⟨_ | _, _⟩ <;> rfl

theorem Eval.withLine_eq_both {m : Type → Type} [Monad m] {α : Type} (line : Nat) (x : Eval m α) :
    withLine line x = x.both pure fun err => throw (err.atLine line) := by
  refine congrArg (x.run >>= ·) (funext fun r => ?_)
  cases r <;> rfl

/-- A line is attached to an error before it is passed on. -/
theorem Eval.withLine_bind {σ α β : Type} (line : Nat) (x : Eval (StateM σ) α)
    (f : α → Eval (StateM σ) β) :
    withLine line x >>= f = x.both f fun err => throw (err.atLine line) := by
  refine ExceptT.ext (StateT.ext fun host => ?_)
  rw [Eval.withLine_eq_both, Eval.bind_eq_both, Eval.run_both, Eval.run_both, Eval.run_both]
  rcases x.run.run host with ⟨_ | _, _⟩ <;> rfl

namespace Machine

variable {σ : Type} {env : Env (StateM σ)} {control : Control} {above below : List Waiting}
  {frames : List CallFrame} {lineOffset : Nat} {w : Waiting}

/-! ## Work above something that waits -/

/-- What waits below has no answer yet, and is not touched. -/
def Busy (below : List Waiting) (m : Machine σ) : Prop :=
  below <:+ m.waiting ∧ ∀ r, m.control = .gave r → m.waiting ≠ below

/-- A step of work above something that waits. -/
def Works (env : Env (StateM σ)) (below : List Waiting) (m m' : Machine σ) : Prop :=
  m.Busy below ∧ m.step env = some m'

/-- Steps of work above something that waits. -/
abbrev Reaches (env : Env (StateM σ)) (below : List Waiting) : Machine σ → Machine σ → Prop :=
  Relation.ReflTransGen (Works env below)

theorem Busy.of_cons {m : Machine σ} (h : m.Busy (w :: below)) : m.Busy below := by
  refine ⟨(List.suffix_cons w below).trans h.1, fun _ _ heq => ?_⟩
  have hlength := h.1.length_le
  rw [heq, List.length_cons] at hlength
  omega

theorem Reaches.of_cons {m m' : Machine σ} (h : Reaches env (w :: below) m m') :
    Reaches env below m m' :=
  Relation.ReflTransGen.mono (fun _ _ hworks => ⟨hworks.1.of_cons, hworks.2⟩) _ _ h

/-- Work is going on, whatever waits below. -/
def Going (control : Control) (above : List Waiting) : Prop :=
  above ≠ [] ∨ ∃ t, control = .task t

theorem going_task (t : Task) : Going (.task t) [] := .inr ⟨t, rfl⟩

theorem going_gave (r : Except EvalError Answer) (w : Waiting) : Going (.gave r) [w] :=
  .inl (List.cons_ne_nil _ _)

theorem Going.busy (h : Going control above) (below : List Waiting) (host : σ) :
    (⟨control, above ++ below, frames, lineOffset, host⟩ : Machine σ).Busy below := by
  refine ⟨List.suffix_append _ _, fun r hr heq => ?_⟩
  rcases h with habove | ⟨t, ht⟩
  · exact habove (List.append_left_eq_self.1 heq)
  · cases ht.symm.trans hr

/-! ## Results -/

/-- A machine comes to the result of a computation. What waits below is untouched, and so is the line;
the locals of the calls are then as `keeps` says. -/
def Leads {α : Type} (env : Env (StateM σ)) (control : Control) (above : List Waiting)
    (frames : List CallFrame) (lineOffset : Nat) (x : Eval (StateM σ) α) (answer : α → Answer)
    (keeps : Except EvalError α → List CallFrame → Prop) : Prop :=
  ∀ below host, ∃ frames', keeps (x.run.run host).1 frames' ∧
    Reaches env below ⟨control, above ++ below, frames, lineOffset, host⟩
      ⟨.gave ((x.run.run host).1.map answer), below, frames', lineOffset, (x.run.run host).2⟩

/-- The locals of all calls stay. -/
def Stays {α : Type} (frames : List CallFrame) (_ : Except EvalError α)
    (frames' : List CallFrame) : Prop := frames' = frames

/-- The same calls are active, and all but the innermost one have the same locals. -/
def SameCalls (frames frames' : List CallFrame) : Prop :=
  frames'.length = frames.length ∧ frames'.tail = frames.tail

/-- The innermost call has the locals that statements come to. -/
def Writes (frames : List CallFrame) (r : Except EvalError (Flow × Locals))
    (frames' : List CallFrame) : Prop :=
  SameCalls frames frames' ∧ ∀ p, r = .ok p → frames'.head? = p.2

theorem SameCalls.refl (frames : List CallFrame) : SameCalls frames frames := ⟨rfl, rfl⟩

theorem SameCalls.trans {frames' frames'' : List CallFrame} (h : SameCalls frames frames')
    (h' : SameCalls frames' frames'') : SameCalls frames frames'' :=
  ⟨h'.1.trans h.1, h'.2.trans h.2⟩

variable {α β : Type} {answer : α → Answer} {answer' : β → Answer}
  {keeps : Except EvalError α → List CallFrame → Prop}
  {keeps' : Except EvalError β → List CallFrame → Prop}

/-- Nothing is left to do. -/
theorem leads_pure (a : α) (hkeeps : keeps (.ok a) frames) :
    Leads env (.gave (.ok (answer a))) [] frames lineOffset (pure a) answer keeps :=
  fun _ _ => ⟨frames, hkeeps, .refl⟩

theorem leads_throw (err : EvalError) (hkeeps : keeps (.error err) frames) :
    Leads env (.gave (.error err)) [] frames lineOffset (throw err) answer keeps :=
  fun _ _ => ⟨frames, hkeeps, .refl⟩

/-- A step without an effect on the host, to something that leads on. -/
theorem Leads.step {control' : Control} {above' : List Waiting} {frames' : List CallFrame}
    {x : Eval (StateM σ) α} (h : Leads env control' above' frames' lineOffset x answer keeps)
    (hgoing : Going control above)
    (hstep : ∀ below host,
      (⟨control, above ++ below, frames, lineOffset, host⟩ : Machine σ).step env =
        some ⟨control', above' ++ below, frames', lineOffset, host⟩) :
    Leads env control above frames lineOffset x answer keeps := by
  intro below host
  obtain ⟨frames'', hkeeps, hreaches⟩ := h below host
  exact ⟨frames'', hkeeps, .head ⟨hgoing.busy below host, hstep below host⟩ hreaches⟩

/-- What waits for a result takes it, and takes an error in its own way. -/
theorem Leads.both {x : Eval (StateM σ) α} {f : α → Eval (StateM σ) β}
    {g : EvalError → Eval (StateM σ) β}
    (hx : Leads env control [] frames lineOffset x answer keeps)
    (hok : ∀ a frames', keeps (.ok a) frames' →
      Leads env (.gave (.ok (answer a))) [w] frames' lineOffset (f a) answer' keeps')
    (herr : ∀ err frames', keeps (.error err) frames' →
      Leads env (.gave (.error err)) [w] frames' lineOffset (g err) answer' keeps') :
    Leads env control [w] frames lineOffset (x.both f g) answer' keeps' := by
  intro below host
  obtain ⟨frames', hkeeps, hreaches⟩ := hx (w :: below) host
  have hboth := x.run_both f g host
  revert hkeeps hreaches hboth
  rcases x.run.run host with ⟨err | a, host'⟩
  · intro hkeeps hreaches hboth
    obtain ⟨frames'', hkeeps', hreaches'⟩ := herr err frames' hkeeps below host'
    rw [hboth]
    exact ⟨frames'', hkeeps', hreaches.of_cons.trans hreaches'⟩
  · intro hkeeps hreaches hboth
    obtain ⟨frames'', hkeeps', hreaches'⟩ := hok a frames' hkeeps below host'
    rw [hboth]
    exact ⟨frames'', hkeeps', hreaches.of_cons.trans hreaches'⟩

/-- Most of what waits for a result lets an error pass. -/
theorem Leads.bind {x : Eval (StateM σ) α} {f : α → Eval (StateM σ) β}
    (hx : Leads env control [] frames lineOffset x answer keeps)
    (hok : ∀ a frames', keeps (.ok a) frames' →
      Leads env (.gave (.ok (answer a))) [w] frames' lineOffset (f a) answer' keeps')
    (herr : ∀ err frames', keeps (.error err) frames' → keeps' (.error err) frames')
    (hw : ∀ (m : Machine σ) err, m.unwind env err w = m.raise err) :
    Leads env control [w] frames lineOffset (x >>= f) answer' keeps' := by
  rw [Eval.bind_eq_both]
  refine hx.both hok fun err frames' hkeeps => ?_
  refine (leads_throw err (herr err frames' hkeeps)).step (going_gave _ w) fun _ _ => ?_
  exact congrArg some (hw _ err)

/-- The value of an operand is waited for. -/
theorem Leads.operand {x : Eval (StateM σ) α} {f : α → Eval (StateM σ) β} {t : Task}
    (hx : Leads env (.task t) [] frames lineOffset x answer (Stays frames))
    (hgoing : Going control above)
    (hstep : ∀ below host,
      (⟨control, above ++ below, frames, lineOffset, host⟩ : Machine σ).step env =
        some ⟨.task t, w :: below, frames, lineOffset, host⟩)
    (hw : ∀ (m : Machine σ) err, m.unwind env err w = m.raise err)
    (herr : ∀ err, keeps' (.error err) frames)
    (hok : ∀ a, Leads env (.gave (.ok (answer a))) [w] frames lineOffset (f a) answer' keeps') :
    Leads env control above frames lineOffset (x >>= f) answer' keeps' := by
  have hbind : Leads env (.task t) [w] frames lineOffset (x >>= f) answer' keeps' := by
    refine hx.bind (fun a frames' hframes => ?_) (fun err frames' hframes => ?_) hw
    · obtain rfl : frames' = frames := hframes
      exact hok a
    · obtain rfl : frames' = frames := hframes
      exact herr err
  exact hbind.step hgoing hstep

/-- The host is asked, and the machine goes on with its answer. -/
theorem Leads.ask {y : Eval (StateM σ) α} {f : α → Eval (StateM σ) β} {control₀ : Control}
    (next : Machine σ → α → Machine σ) (control' : α → Control) (above' : α → List Waiting)
    (frames' : α → List CallFrame) (hgoing : Going control above)
    (hstep : ∀ below host,
      (⟨control, above ++ below, frames, lineOffset, host⟩ : Machine σ).step env =
        some ((⟨control₀, below, frames, lineOffset, host⟩ : Machine σ).ask y next))
    (herr : ∀ err, keeps' (.error err) frames)
    (hnext : ∀ a below host, next ⟨control₀, below, frames, lineOffset, host⟩ a =
      ⟨control' a, above' a ++ below, frames' a, lineOffset, host⟩)
    (hok : ∀ a host host', y.run.run host = (.ok a, host') →
      Leads env (control' a) (above' a) (frames' a) lineOffset (f a) answer' keeps') :
    Leads env control above frames lineOffset (y >>= f) answer' keeps' := by
  intro below host
  have hfirst : Works env below _ _ := ⟨hgoing.busy below host, hstep below host⟩
  rw [Eval.bind_eq_both, Eval.run_both]
  unfold Machine.ask at hfirst
  rcases hy : y.run.run host with ⟨err | a, host'⟩
  · simp only [hy] at hfirst
    exact ⟨frames, herr err, .single hfirst⟩
  · simp only [hy, hnext] at hfirst
    obtain ⟨frames'', hkeeps, hreaches⟩ := hok a host host' hy below host'
    exact ⟨frames'', hkeeps, .head hfirst hreaches⟩

/-- The host is asked, and its answer is the result. -/
theorem leads_ask {x : Eval (StateM σ) α} {control₀ : Control} (hgoing : Going control above)
    (hstep : ∀ below host,
      (⟨control, above ++ below, frames, lineOffset, host⟩ : Machine σ).step env =
        some ((⟨control₀, below, frames, lineOffset, host⟩ : Machine σ).ask x
          fun m a => m.give (answer a))) :
    Leads env control above frames lineOffset x answer (Stays frames) := by
  have h : Leads env control above frames lineOffset (x >>= pure) answer (Stays frames) :=
    Leads.ask _ (fun a => .gave (.ok (answer a))) (fun _ => []) (fun _ => frames) hgoing hstep
      (fun _ => rfl) (fun _ _ _ => rfl) fun a _ _ _ => leads_pure a rfl
  rwa [bind_pure] at h

end Machine
end ReactiveView
