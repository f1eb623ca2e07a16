import ReactiveView.Eval.Machine
import ReactiveView.Proofs.Simulation
import ReactiveView.Proofs.Termination.Steps
import ReactiveView.Scope

/-!
# Where a run is cut off

Code asks whether to stop before every statement and before every round of a loop. `Scope.watched` is a
scope that never says so and notes what its variables are each time it is asked; so a watched run is the
run that is not cut off, together with the moments at which it could have been. A run that is told to stop
when it asks for the `n + 1`st time ends there, in an interruption that nothing on the way catches or
changes, and with the variables as they were noted (`Invocation.cut_at_poll`).

The simulation behind this (`Scope.cutting`) relates the evaluations of both: it holds of a question and
its answer together, not of the answers, which differ at the last one.
-/

namespace ReactiveView
namespace Scope

open Interpreter

/-- The state of a run that is watched. -/
structure Watch where
  /-- The run. -/
  run : Run
  /-- The variables at each moment at which the run was asked whether to stop, earliest first. -/
  polls : List Scope := []

/-- Let a run go on while it is watched. -/
def Watch.on {α : Type} (x : StateM Run α) : StateM Watch α := fun w =>
  ((x.run w.run).1, { w with run := (x.run w.run).2 })

/-- A scope as an environment that is never cut off, and notes its variables when it is asked. -/
def watched : Env (StateM Watch) where
  lookup name := Watch.on (Scope.env.lookup name)
  has name := Watch.on (Scope.env.has name)
  assign name v := Watch.on (Scope.env.assign name v)
  this := Watch.on Scope.env.this
  member target name := Watch.on (Scope.env.member target name)
  isIntrinsic name := Scope.env.isIntrinsic name
  callIntrinsic name args := Watch.on (Scope.env.callIntrinsic name args)
  interrupted := fun w => (false, { w with polls := w.polls ++ [w.run.scope] })
  freshSerial := Watch.on Scope.env.freshSerial

/-- A run with a token that is raised after a number of polls, or never. -/
def Run.fused (r : Run) (fuse : Option Nat) : Run := { r with cancel := ⟨false, fuse⟩ }

/-- An evaluation that is cut off does what a watched one does, which asks `asked` times on its way to
`watch`: it comes to the same if it is cut off later, and else to an interruption at the moment that was
noted. -/
structure Cuts {α : Type} (x : Eval (StateM Run) α) (start : Run) (result : Except EvalError α)
    (last : Run) (asked : List Scope) : Prop where
  /-- It is never cut off. -/
  never : x.run.run (start.fused none) = (result, last.fused none)
  /-- It is cut off later, if at all. -/
  later : ∀ n, asked.length ≤ n →
    x.run.run (start.fused (some n)) = (result, last.fused (some (n - asked.length)))
  /-- It is cut off on its way. -/
  cut : ∀ n (h : n < asked.length), ∃ r : Run, r.scope = asked[n] ∧
    x.run.run (start.fused (some n)) = (.error ⟨.interrupted, none⟩, r)

namespace Cuts

variable {α β : Type} {x : Eval (StateM Run) α} {start last : Run} {result : Except EvalError α}

/-- Nothing is asked. -/
theorem of_run (h : ∀ fuse, x.run.run (start.fused fuse) = (result, last.fused fuse)) :
    Cuts x start result last [] where
  never := h none
  later n _ := h (some n)
  cut _ h := absurd h (Nat.not_lt_zero _)

/-- One evaluation after another, and what it does with an error. -/
theorem both {asked asked' : List Scope} {f : α → Eval (StateM Run) β}
    {g : EvalError → Eval (StateM Run) β} {result' : Except EvalError β} {last' : Run}
    (hx : Cuts x start result last asked)
    (hnext : match result with
      | .ok a => Cuts (f a) last result' last' asked'
      | .error err => Cuts (g err) last result' last' asked')
    (hinterrupted : g ⟨.interrupted, none⟩ = throw ⟨.interrupted, none⟩) :
    Cuts (x.both f g) start result' last' (asked ++ asked') := by
  have hrun (r : Run) := Eval.run_both x f g r
  refine ⟨?_, fun n hn => ?_, fun n hn => ?_⟩
  · rw [hrun, hx.never]
    cases result with
    | ok a => exact hnext.never
    | error err => exact hnext.never
  · rw [List.length_append] at hn ⊢
    rw [hrun, hx.later n (by omega), ← Nat.sub_sub]
    cases result with
    | ok a => exact hnext.later _ (by omega)
    | error err => exact hnext.later _ (by omega)
  · rw [hrun]
    -- it is cut off in the first evaluation, or in what comes after it
    by_cases hfirst : n < asked.length
    · obtain ⟨r, hscope, hr⟩ := hx.cut n hfirst
      refine ⟨r, hscope.trans (List.getElem_append_left hfirst).symm, ?_⟩
      rw [hr]
      exact congrArg (fun y => y.run.run r) hinterrupted
    · have hle : asked.length ≤ n := Nat.not_lt.1 hfirst
      rw [List.length_append] at hn
      have hlt : n - asked.length < asked'.length := by omega
      rw [hx.later n hle, List.getElem_append_right hle]
      cases result with
      | ok a => exact hnext.cut _ hlt
      | error err => exact hnext.cut _ hlt

end Cuts

/-- Evaluations that are watched, and the same ones cut off. -/
def cutting : Simulation (StateM Watch) (StateM Run) where
  rel x x' := ∀ w : Watch, ∃ asked, (x.run.run w).2.polls = w.polls ++ asked ∧
    Cuts x' w.run (x.run.run w).1 (x.run.run w).2.run asked
  rel_pure a w := ⟨[], (List.append_nil _).symm, .of_run fun _ => rfl⟩
  rel_throw err w := ⟨[], (List.append_nil _).symm, .of_run fun _ => rfl⟩
  rel_bind := by
    intro α β x x' f f' hx hf w
    obtain ⟨asked, hpolls, hcuts⟩ := hx w
    rw [Eval.bind_eq_both, Eval.bind_eq_both, Eval.run_both]
    rcases hrun : x.run.run w with ⟨err | a, w'⟩
    · rw [hrun] at hpolls hcuts
      exact ⟨asked ++ [], by rw [List.append_nil]; exact hpolls,
        hcuts.both (.of_run fun _ => rfl) rfl⟩
    · rw [hrun] at hpolls hcuts
      obtain ⟨asked', hpolls', hcuts'⟩ := hf a w'
      refine ⟨asked ++ asked', ?_, hcuts.both hcuts' rfl⟩
      rw [hpolls', hpolls, List.append_assoc]
  rel_withLine := by
    intro α line x x' hx w
    obtain ⟨asked, hpolls, hcuts⟩ := hx w
    rw [Eval.withLine_eq_both, Eval.withLine_eq_both, Eval.run_both]
    -- an interruption gets no line
    rcases hrun : x.run.run w with ⟨err | a, w'⟩
    all_goals
      rw [hrun] at hpolls hcuts
      exact ⟨asked ++ [], by rw [List.append_nil]; exact hpolls,
        hcuts.both (.of_run fun _ => rfl) rfl⟩

/-- What does not concern the token is no place to be cut off. -/
theorem cutting_on {α : Type} {x : StateM Run α}
    (h : ∀ (r : Run) fuse, x.run (r.fused fuse) = ((x.run r).1, (x.run r).2.fused fuse)) :
    cutting.rel (Interpreter.ask (Watch.on x)) (Interpreter.ask x) := by
  refine fun w => ⟨[], (List.append_nil _).symm, .of_run fun fuse => ?_⟩
  rw [Eval.run_ask, h]
  rfl

/-- A watched scope is related to one that is cut off in all that code can ask. -/
theorem watched_cutting : watched.Simulated cutting Scope.env where
  looks := {
    lookup name _ := cutting_on fun _ _ => rfl
    this := cutting_on fun _ _ => rfl
    member target name := cutting_on fun _ _ => rfl
    isIntrinsic _ := rfl }
  has name := cutting_on fun _ _ => rfl
  assign name v := cutting_on fun _ _ => rfl
  callIntrinsic name args w := ⟨[], (List.append_nil _).symm, .of_run fun _ => rfl⟩
  poll w := by
    refine ⟨[w.run.scope], rfl, rfl, fun n hn => ?_, fun n hn => ?_⟩
    · obtain ⟨n, rfl⟩ := Nat.exists_eq_add_of_le' hn
      rfl
    · obtain rfl : n = 0 := Nat.lt_one_iff.1 hn
      exact ⟨w.run.fused (some 0), rfl, rfl⟩
  freshSerial := cutting_on fun _ _ => rfl

end Scope

namespace Invocation

open Interpreter

/-- However code is entered, related environments give related results. -/
theorem result_simulated {σ σ' : Type} {S : Simulation (StateM σ) (StateM σ')} {env : Env (StateM σ)}
    {env' : Env (StateM σ')} (h : env.Simulated S env') (invocation : Invocation) :
    S.rel (invocation.result env) (invocation.result env') := by
  cases invocation with
  | eval e =>
    simp only [result, map_eq_pure_bind]
    exact S.rel_bind (eval_simulated h e) fun _ => S.rel_pure _
  | exec lineOffset stmts =>
    refine S.rel_bind (exec_simulated h lineOffset stmts) fun ended => ?_
    cases ended with
    | some v => exact S.rel_pure _
    | none => exact S.rel_pure _
  | call f args =>
    simp only [result, map_eq_pure_bind]
    exact S.rel_bind (callValue_simulated h f args) fun _ => S.rel_pure _

/-- An interruption cuts a run at a poll and nowhere else. Code is entered over a scope three times: with
a token that is never raised, with one that is raised from the `n + 1`st poll on, and watched. The watched
run is the one that is never cut off. If it asks at most `n` times, the run with the fuse comes to the
same result and the same variables. Otherwise that run ends in a bare interruption, and its variables are
those of the watched run when it asked for the `n + 1`st time. -/
theorem cut_at_poll (invocation : Invocation) (r : Scope.Run) (n : Nat) :
    let whole := (invocation.result Scope.env).run.run { r with cancel := {} }
    let part := (invocation.result Scope.env).run.run { r with cancel := ⟨false, some n⟩ }
    let watch := (invocation.result Scope.watched).run.run ⟨r, []⟩
    whole = (watch.1, { watch.2.run with cancel := {} }) ∧
    (watch.2.polls.length ≤ n → part.1 = whole.1 ∧ part.2.scope = whole.2.scope) ∧
    ∀ h : n < watch.2.polls.length,
      part.1 = .error ⟨.interrupted, none⟩ ∧ part.2.scope = watch.2.polls[n] := by
  intro whole part watch
  obtain ⟨asked, hasked, hcuts⟩ :=
    invocation.result_simulated Scope.watched_cutting ⟨r, []⟩
  obtain rfl : asked = watch.2.polls := hasked.symm
  have hwhole : whole = (watch.1, watch.2.run.fused none) := hcuts.never
  refine ⟨hwhole, fun hn => ?_, fun hn => ?_⟩
  · have hpart : part = (watch.1, watch.2.run.fused (some (n - watch.2.polls.length))) :=
      hcuts.later n hn
    rw [hpart, hwhole]
    exact ⟨rfl, rfl⟩
  · obtain ⟨r', hscope, hpart⟩ := hcuts.cut n hn
    have hpart : part = (.error ⟨.interrupted, none⟩, r') := hpart
    rw [hpart]
    exact ⟨rfl, hscope⟩

/-- A loop is cut off before its second round. -/
theorem cut_at_poll_round :
    let stmts : List Stmt := [.loop 1 "x" (.list [.literal (.int 1), .literal (.int 2)]) []]
    let part := ((Invocation.exec 1 stmts).result Scope.env).run.run
      { scope := .empty, cancel := ⟨false, some 2⟩ }
    let watch := ((Invocation.exec 1 stmts).result Scope.watched).run.run ⟨{ scope := .empty }, []⟩
    ∃ h : 2 < watch.2.polls.length,
      part.1 = .error ⟨.interrupted, none⟩ ∧ part.2.scope = watch.2.polls[2] := by
  intro stmts part watch
  have h : 2 < watch.2.polls.length := by decide +kernel
  exact ⟨h, (cut_at_poll (.exec 1 stmts) { scope := .empty } 2).2.2 h⟩

end Invocation
end ReactiveView
