import ReactiveView.Proofs.Outcomes
import ReactiveView.Proofs.Parsing.Spans
import ReactiveView.Proofs.Termination.Calls

/-!
# Free variables

`Expr.freeVars` lists the names that stand in an expression, each once, in the order of their first
occurrences (`Expr.lists_freeVars`, `Expr.pairwise_freeVars`). If an evaluation calls no function of a
code block, it looks up no other name, and depends on the values of these names only
(`Expr.freeVars_sound`).

An evaluation without an outcome over the variables alone (`Scope.outcome?`) is one that comes to a call
of a function of a code block (`Scope.meetsCall_eval`), by induction on the expression: the machine is led
through the operands that have outcomes to the one that has none.
-/

namespace ReactiveView

/-! ## The order of first occurrences -/

theorem OrderedSet.mem_ofList {α : Type} [DecidableEq α] {xs : List α} {x : α} :
    x ∈ (ofList xs).toList ↔ x ∈ xs := by
  rw [ofList, mem_insertAll]
  exact or_iff_right List.not_mem_nil

/-- The elements of a list are collected in the order of their first occurrences. -/
theorem OrderedSet.pairwise_ofList {α : Type} [DecidableEq α] (xs : List α) :
    (ofList xs).toList.Pairwise fun x y => xs.idxOf x < xs.idxOf y := by
  -- the elements are added at the end, so the induction is on the last one
  induction xs using List.reverseRecOn with
  | nil => exact List.Pairwise.nil
  | append_singleton xs x ih =>
    have hsnoc : ofList (xs ++ [x]) = (ofList xs).insert x := List.foldl_concat ..
    have hold : (ofList xs).toList.Pairwise
        fun y z => (xs ++ [x]).idxOf y < (xs ++ [x]).idxOf z := by
      refine ih.imp_of_mem fun {y z} hy hz hlt => ?_
      rwa [List.idxOf_append_of_mem (mem_ofList.1 hy), List.idxOf_append_of_mem (mem_ofList.1 hz)]
    rw [hsnoc]
    unfold OrderedSet.insert contains
    split
    · exact hold
    · rename_i hcontains
      have hnew : x ∉ xs := fun hx => hcontains (List.contains_iff_mem.2 (mem_ofList.2 hx))
      refine List.pairwise_append.2 ⟨hold, List.pairwise_singleton _ _, fun y hy z hz => ?_⟩
      obtain rfl := List.mem_singleton.1 hz
      have hy : y ∈ xs := mem_ofList.1 hy
      rw [List.idxOf_append_of_mem hy, List.idxOf_append_of_notMem hnew]
      exact Nat.lt_of_lt_of_le (List.idxOf_lt_length_of_mem hy) (Nat.le_add_right _ _)

/-- The names of an expression are listed in the order of their first occurrences. -/
theorem Expr.pairwise_freeVars (e : Expr) :
    e.freeVars.Pairwise fun x y => e.names.idxOf x < e.names.idxOf y :=
  OrderedSet.pairwise_ofList e.names

theorem Expr.mem_freeVars {e : Expr} {x : String} : x ∈ e.freeVars ↔ x ∈ e.names :=
  OrderedSet.mem_ofList

/-! ## What an outcome depends on -/

namespace Scope

open Interpreter Machine

variable {s s' : Scope}

/-- Evaluations over variables alone, compared by equality. -/
def equality : Simulation Option Option where
  rel x x' := x = x'
  rel_pure _ := rfl
  rel_throw _ := rfl
  rel_bind hx hf := by rw [hx, funext hf]
  rel_withLine line _ _ h := by rw [h]

/-- The outcome of an expression depends on the values of its names. -/
theorem outcome?_congr {e : Expr} (h : ∀ x ∈ e.names, s'.get? x = s.get? x) :
    s'.outcome? e = s.outcome? e := by
  have hlooks : s'.still.Looks equality (· ∈ e.names) s.still := by
    refine ⟨fun x hx => ?_, rfl, fun _ _ => rfl, fun _ => rfl⟩
    exact congrArg (fun found => Interpreter.ask (some found)) (h x hx)
  exact evalWith_simulated hlooks (callWith_simulated (fun _ _ => rfl) fun _ _ => rfl) none e
    fun _ hx => hx

/-! ## Calls of functions of code blocks -/

end Scope

namespace Machine

variable {σ : Type} {env : Env (StateM σ)}

/-- Whether a machine is about to call a function of a code block. -/
def callsFunction (m : Machine σ) : Bool :=
  match m.control with
  | .task (.call (.func _) _) => true
  | _ => false

/-- Whether a machine ends within a number of steps, and all its moments satisfy `p`. -/
def always (env : Env (StateM σ)) (p : Machine σ → Bool) : Nat → Machine σ → Bool
  | 0, _ => false
  | n + 1, m =>
    p m && match m.step env with
      | none => true
      | some m' => always env p n m'

theorem always_of_steps {p : Machine σ → Bool} {n : Nat} {m m' : Machine σ}
    (h : m.always env p n = true) (hm : Steps env m m') : p m' = true := by
  induction n generalizing m with
  | zero => cases h
  | succ n ih =>
    rw [always, Bool.and_eq_true] at h
    rcases Relation.ReflTransGen.cases_head hm with rfl | ⟨m₁, hstep, hm⟩
    · exact h.1
    · rw [hstep] at h
      exact ih h.2 hm

end Machine

namespace Scope

open Interpreter Machine

variable {s : Scope} {α β : Type} {control : Control} {above : List Waiting} {w : Waiting} {t : Task}

/-- A machine comes to what an evaluation gives that has an outcome. -/
def Comes (s : Scope) (t : Task) (y : Eval Option α) (answer : α → Answer) : Prop :=
  ∀ a, y.run = some (.ok a) → ∀ waiting lineOffset (host : Run), host.scope = s →
    ∃ host' : Run, host'.scope = s ∧ Steps Scope.env ⟨.task t, waiting, [], lineOffset, host⟩
      ⟨.gave (.ok (answer a)), waiting, [], lineOffset, host'⟩

theorem Comes.of_leads {x : Eval (StateM Run) α} {y : Eval Option α} {answer : α → Answer}
    (hlead : ∀ lineOffset, Leads Scope.env (.task t) [] [] lineOffset x answer (Stays []))
    (hxy : (s.reading fun _ => True).simulation.rel x y) : Comes s t y answer := by
  intro a ha waiting lineOffset host hhost
  obtain ⟨host', hrun, hscope, -⟩ := hxy _ ha host hhost
  obtain ⟨_, rfl, hreaches⟩ := hlead lineOffset waiting host
  have hrun : x.run.run host = (.ok a, host') := hrun
  rw [hrun] at hreaches
  exact ⟨host', hscope.trans hhost, hreaches.steps⟩

theorem calls (f : Value) (args : List Value) (lineOffset : Nat) :
    Leads Scope.env (.task (.call f args)) [] [] lineOffset (callValue Scope.env f args) .value
      (Stays []) := callsLead Scope.env callLimit [] rfl f args lineOffset

theorem comes_eval (s : Scope) (e : Expr) :
    Comes s (.eval e) (evalWith s.still s.stillCall none e) .value :=
  .of_leads (leads_eval calls · e)
    (evalWith_simulated (s.env_reading _) (s.callValue_reading _) none e fun _ _ => trivial)

theorem comes_evalList (s : Scope) (es : List Expr) :
    Comes s (.evalList es) (evalList s.still s.stillCall none es) .values :=
  .of_leads (leads_evalList calls · es)
    (evalList_simulated (s.env_reading _) (s.callValue_reading _) none es fun _ _ => trivial)

theorem comes_evalParts (s : Scope) (out : String) (parts : List FormatPart) :
    Comes s (.evalParts out parts) (evalParts s.still s.stillCall none out parts) .text :=
  .of_leads (leads_evalParts calls · out parts)
    (evalParts_simulated (s.env_reading _) (s.callValue_reading _) none out parts fun _ _ => trivial)

/-- If an evaluation has no outcome, the machine that does it calls a function of a code block. -/
def MeetsCall (s : Scope) (control : Control) (above : List Waiting) (y : Eval Option α) : Prop :=
  y.run = none → ∀ below lineOffset (host : Run), host.scope = s →
    ∃ m, Steps Scope.env ⟨control, above ++ below, [], lineOffset, host⟩ m ∧ m.callsFunction = true

/-- There is an outcome. -/
theorem MeetsCall.of_isSome {y : Eval Option α} (h : y.run.isSome = true) :
    MeetsCall s control above y := fun hnone => by
  rw [hnone] at h
  cases h

/-- The machine makes a step. -/
theorem MeetsCall.step {control' : Control} {above' : List Waiting} {y : Eval Option α}
    (h : MeetsCall s control' above' y) (hstep : ∀ below lineOffset (host : Run),
      (⟨control, above ++ below, [], lineOffset, host⟩ : Machine Run).step Scope.env =
        some ⟨control', above' ++ below, [], lineOffset, host⟩) :
    MeetsCall s control above y := by
  intro hnone below lineOffset host hhost
  obtain ⟨m, hsteps, hm⟩ := h hnone below lineOffset host hhost
  exact ⟨m, .head (hstep below lineOffset host) hsteps, hm⟩

/-- The call is made in an operand, or behind it. -/
theorem MeetsCall.operand {y : Eval Option α} {f : α → Eval Option β} {answer : α → Answer}
    (hy : MeetsCall s (.task t) [] y) (hcomes : Comes s t y answer)
    (hstep : ∀ below lineOffset (host : Run),
      (⟨control, above ++ below, [], lineOffset, host⟩ : Machine Run).step Scope.env =
        some ⟨.task t, w :: below, [], lineOffset, host⟩)
    (hok : ∀ a, MeetsCall s (.gave (.ok (answer a))) [w] (f a)) :
    MeetsCall s control above (y >>= f) := by
  intro hnone below lineOffset host hhost
  have hfirst := hstep below lineOffset host
  have hbind : y.run.bind (ExceptT.bindCont f) = none := hnone
  -- an error of the operand would be an outcome of the whole
  rcases hrun : y.run with _ | _ | a
  · obtain ⟨m, hsteps, hm⟩ := hy hrun (w :: below) lineOffset host hhost
    exact ⟨m, .head hfirst hsteps, hm⟩
  · rw [hrun] at hbind
    cases hbind
  · rw [hrun] at hbind
    obtain ⟨host', hscope, hsteps⟩ := hcomes a hrun (w :: below) lineOffset host hhost
    obtain ⟨m, hsteps', hm⟩ := hok a hbind below lineOffset host' hscope
    exact ⟨m, .head hfirst (hsteps.trans hsteps'), hm⟩

/-- Calling a value has no outcome if it is a function of a code block. -/
theorem meetsCall_call (s : Scope) (f : Value) (args : List Value) :
    MeetsCall s (.task (.call f args)) [] (s.stillCall f args) := by
  intro hnone below lineOffset host hhost
  cases f with
  | func f => exact ⟨_, .refl, rfl⟩
  | builtin name =>
    have hsome : (s.stillCall (.builtin name) args).run.isSome = true := by
      change Option.isSome (ExceptT.run (m := Option) (if isBuiltin name then _ else _)) = true
      split
      · exact isSome_lift _
      · rfl
    rw [hnone] at hsome
    cases hsome
  | _ => cases hnone

mutual

/-- An expression without an outcome calls a function of a code block. -/
theorem meetsCall_eval (s : Scope) : ∀ e : Expr,
    MeetsCall s (.task (.eval e)) [] (evalWith s.still s.stillCall none e)
  | .literal _ => .of_isSome rfl
  | .name x => by
    refine .of_isSome ?_
    change (s.outcome? (.name x)).isSome = true
    rw [outcome?_name]
    split
    · rfl
    · split <;> rfl
  | .this => .of_isSome rfl
  | .member object name =>
    (meetsCall_eval s object).operand (comes_eval s object) (fun _ _ _ => rfl) fun v =>
      .of_isSome (isSome_memberOf s v name)
  | .index object key =>
    (meetsCall_eval s object).operand (comes_eval s object) (fun _ _ _ => rfl) fun _ =>
      (meetsCall_eval s key).operand (comes_eval s key) (fun _ _ _ => rfl) fun _ =>
        .of_isSome (isSome_lift _)
  | .call callee args =>
    (meetsCall_eval s callee).operand (comes_eval s callee) (fun _ _ _ => rfl) fun f =>
      (meetsCall_evalList s args).operand (comes_evalList s args) (fun _ _ _ => rfl) fun vs =>
        (meetsCall_call s f vs).step fun _ _ _ => rfl
  | .list items =>
    (meetsCall_evalList s items).operand (comes_evalList s items) (fun _ _ _ => rfl) fun _ =>
      .of_isSome rfl
  | .unary _ operand =>
    (meetsCall_eval s operand).operand (comes_eval s operand) (fun _ _ _ => rfl) fun _ =>
      .of_isSome (isSome_lift _)
  | .binary _ left right =>
    (meetsCall_eval s left).operand (comes_eval s left) (fun _ _ _ => rfl) fun _ =>
      (meetsCall_eval s right).operand (comes_eval s right) (fun _ _ _ => rfl) fun _ =>
        .of_isSome (isSome_lift _)
  | .logical op left right => by
    refine (meetsCall_eval s left).operand (comes_eval s left) (fun _ _ _ => rfl) fun v => ?_
    have hright := meetsCall_eval s right
    cases op <;> cases htruthy : v.truthy
    -- the right side is not evaluated, or it is all that is left
    case and.false | or.true => exact .of_isSome rfl
    case and.true | or.false =>
      refine hright.step fun _ _ _ => ?_
      simp only [step_value, resumeValue, htruthy]
      rfl
  | .cond condition yes no => by
    refine (meetsCall_eval s condition).operand (comes_eval s condition) (fun _ _ _ => rfl)
      fun v => ?_
    cases htruthy : v.truthy
    case false =>
      refine (meetsCall_eval s no).step fun _ _ _ => ?_
      simp only [step_value, resumeValue, htruthy]
      rfl
    case true =>
      refine (meetsCall_eval s yes).step fun _ _ _ => ?_
      simp only [step_value, resumeValue, htruthy]
      rfl
  | .format parts =>
    (meetsCall_evalParts s "" parts).operand (comes_evalParts s "" parts) (fun _ _ _ => rfl)
      fun _ => .of_isSome rfl
termination_by structural e => e

/-- So do expressions in turn. -/
theorem meetsCall_evalList (s : Scope) : ∀ es : List Expr,
    MeetsCall s (.task (.evalList es)) [] (evalList s.still s.stillCall none es)
  | [] => .of_isSome rfl
  | e :: es =>
    (meetsCall_eval s e).operand (comes_eval s e) (fun _ _ _ => rfl) fun _ =>
      (meetsCall_evalList s es).operand (comes_evalList s es) (fun _ _ _ => rfl) fun _ =>
        .of_isSome rfl
termination_by structural es => es

/-- So does a format string. -/
theorem meetsCall_evalParts (s : Scope) : ∀ (out : String) (parts : List FormatPart),
    MeetsCall s (.task (.evalParts out parts)) [] (evalParts s.still s.stillCall none out parts)
  | _, [] => .of_isSome rfl
  | out, .text t :: parts => (meetsCall_evalParts s (out ++ t) parts).step fun _ _ _ => rfl
  | out, .expr e :: parts =>
    (meetsCall_eval s e).operand (comes_eval s e) (fun _ _ _ => rfl) fun v =>
      (meetsCall_evalParts s (out ++ v.display) parts).step fun _ _ _ => rfl
termination_by structural _ parts => parts

end

/-- An evaluation that never calls a function of a code block has an outcome. -/
theorem isSome_outcome?_of_steps {e : Expr} {r : Run}
    (h : ∀ m, Steps Scope.env ((Invocation.eval e).machine r) m → m.callsFunction = false) :
    (r.scope.outcome? e).isSome = true := by
  rw [Option.isSome_iff_ne_none]
  intro hnone
  obtain ⟨m, hsteps, hm⟩ := meetsCall_eval r.scope e hnone [] 0 r rfl
  rw [h m hsteps] at hm
  cases hm

end Scope

/-! ## Soundness -/

open Interpreter Machine

/-- The free variables of an expression are each of its names once, in the order of their first
occurrences. If an evaluation calls no function of a code block, all names that it looks up are among
them, and in every scope that gives them the same values, or none where there was none, the evaluation
comes to the same value or the same error. -/
theorem Expr.freeVars_sound (e : Expr) :
    (e.Lists e.freeVars ∧ e.freeVars.Pairwise fun x y => e.names.idxOf x < e.names.idxOf y) ∧
    ∀ r : Scope.Run,
      (∀ m, Steps Scope.env ((Invocation.eval e).machine r) m → m.callsFunction = false) →
      (∃ new, ((eval Scope.env e).run.run r).2.reads = new ++ r.reads ∧ ∀ x ∈ new, x ∈ e.freeVars) ∧
      ∀ r' : Scope.Run, (∀ x ∈ e.freeVars, r'.scope.get? x = r.scope.get? x) →
        ((eval Scope.env e).run.run r').1 = ((eval Scope.env e).run.run r).1 := by
  refine ⟨⟨e.lists_freeVars, e.pairwise_freeVars⟩, fun r hcalls => ?_⟩
  obtain ⟨a, ha⟩ := Option.isSome_iff_exists.1 (Scope.isSome_outcome?_of_steps hcalls)
  obtain ⟨r₁, hrun, -, new, hnew, hreads⟩ := Scope.eval_reads_of_outcome? ha rfl
  rw [hrun]
  -- nothing is assumed of the calls in the other scope: the outcome is the same there
  refine ⟨⟨new, hnew, fun x hx => mem_freeVars.2 (hreads x hx)⟩, fun r' hr' => ?_⟩
  have ha' : r'.scope.outcome? e = some a := by
    rw [Scope.outcome?_congr fun x hx => hr' x (mem_freeVars.2 hx), ha]
  obtain ⟨r₂, hrun', -⟩ := Scope.eval_of_outcome? ha' rfl
  rw [hrun']

/-- An item of a list, by the length of a text. -/
theorem Expr.freeVars_sound_index :
    let e : Expr := .index (.name "row") (.call (.name "len") [.name "key"])
    let r : Scope.Run := { scope := .ofList [("row", .list [.int 7, .int 8]), ("key", .str "k")] }
    let r' : Scope.Run :=
      { scope := .ofList [("key", .str "k"), ("n", .int 0), ("row", .list [.int 7, .int 8])] }
    (∀ m, Steps Scope.env ((Invocation.eval e).machine r) m → m.callsFunction = false) ∧
      e.freeVars = ["row", "len", "key"] ∧
      ((eval Scope.env e).run.run r').1 = ((eval Scope.env e).run.run r).1 := by
  intro e r r'
  have hcalls : ∀ m, Steps Scope.env ((Invocation.eval e).machine r) m →
      m.callsFunction = false := fun m hm => by
    have halways : ((Invocation.eval e).machine r).always Scope.env (fun m => !m.callsFunction) 20 =
        true := by decide +kernel
    simpa using always_of_steps halways hm
  have hfree : e.freeVars = ["row", "len", "key"] := by decide +kernel
  refine ⟨hcalls, hfree, (e.freeVars_sound.2 r hcalls).2 r' fun x hx => ?_⟩
  rw [hfree] at hx
  simp only [List.mem_cons, List.not_mem_nil, or_false] at hx
  rcases hx with rfl | rfl | rfl <;> rfl

end ReactiveView
