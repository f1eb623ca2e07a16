import Mathlib.Logic.Basic
import ReactiveView.Eval.Builtin

/-!
# Progressions

The function `range` counts from a start by a step as long as it is before a stop. `Progression` says
over the unbounded integers what it has to list. It lists exactly that at both ends of the 64 bits too,
unless the terms are more than a list may have (`callBuiltin_range`).

The loop is taken round by round (`countOn_eq`): what it gives is what was counted before, followed by
the progression that begins at the count. A count that leaves 64 bits is not before the stop, which is
of 64 bits, so the progression ends where the loop does.
-/

namespace ReactiveView

/-- An integer lies strictly before a stop: below it for steps up, above it for steps down. -/
def Before (stop step z : Int) : Prop := 0 < step ∧ z < stop ∨ step < 0 ∧ stop < z

/-- The integers `z`, `z + step`, … as long as they are before the stop. -/
inductive Progression (stop step : Int) : (z : Int) → List Int → Prop where
  /-- There is none where the first one is not before the stop. -/
  | done {z : Int} (h : ¬ Before stop step z) : Progression stop step z []
  /-- Behind one that is, those from the next one on. -/
  | term {z : Int} {rest : List Int} (h : Before stop step z)
    (hrest : Progression stop step (z + step) rest) : Progression stop step z (z :: rest)

namespace Progression

variable {stop step z : Int}

theorem nil_iff : Progression stop step z [] ↔ ¬ Before stop step z := by
  refine ⟨fun h => ?_, .done⟩
  cases h with
  | done h => exact h

theorem cons_iff {first : Int} {rest : List Int} : Progression stop step z (first :: rest) ↔
    first = z ∧ Before stop step z ∧ Progression stop step (z + step) rest := by
  constructor
  · intro h
    cases h with
    | term h hrest => exact ⟨rfl, h, hrest⟩
  · rintro ⟨rfl, h, hrest⟩
    exact .term h hrest

end Progression

/-- A count that leaves 64 bits is not before the stop. -/
theorem not_before_of_int64?_eq_none {stop step i : Int64}
    (h : int64? (i.toInt + step.toInt) = none) :
    ¬ Before stop.toInt step.toInt (i.toInt + step.toInt) := by
  have hstop := stop.minValue_le_toInt
  have hstop' : stop.toInt ≤ Int64.maxValue.toInt := stop.toInt_le
  have hi := i.minValue_le_toInt
  have hi' : i.toInt ≤ Int64.maxValue.toInt := i.toInt_le
  unfold Before
  rcases int64?_eq_none_iff.1 h with hless | hmore <;> omega

/-- The progression that begins at an integer of 64 bits has terms of 64 bits, since they are between it
and the stop. The induction is on the way to the stop. -/
theorem exists_progression (stop step i : Int64) :
    ∃ terms : List Int64, Progression stop.toInt step.toInt i.toInt (terms.map Int64.toInt) := by
  obtain ⟨way, hway⟩ : ∃ way, (stop.toInt - i.toInt).natAbs ≤ way := ⟨_, Nat.le_refl _⟩
  induction way generalizing i with
  | zero =>
    refine ⟨[], .done ?_⟩
    unfold Before
    omega
  | succ way ih =>
    by_cases hbefore : Before stop.toInt step.toInt i.toInt
    · cases hnext : int64? (i.toInt + step.toInt) with
      | none => exact ⟨[i], .term hbefore (.done (not_before_of_int64?_eq_none hnext))⟩
      | some next =>
        have hsum : next.toInt = i.toInt + step.toInt := toInt_of_int64? hnext
        by_cases hlast : Before stop.toInt step.toInt next.toInt
        · obtain ⟨terms, hterms⟩ := ih next (by unfold Before at hbefore hlast; omega)
          exact ⟨i :: terms, .term hbefore (hsum ▸ hterms)⟩
        · exact ⟨[i], .term hbefore (.done (hsum ▸ hlast))⟩
    · exact ⟨[], .done hbefore⟩

namespace Builtin

/-- The check of the loop. -/
theorem isBefore_iff {stop step i : Int64} :
    isBefore stop step i = true ↔ Before stop.toInt step.toInt i.toInt := by
  simp [isBefore, Before, Int64.lt_iff_toInt_lt]

/-- What the loop gives: what was counted before and the progression that begins at the count, or an
error where there is not enough room for it. -/
theorem countOn_eq {stop step i : Int64} {terms : List Int64} (items : Array Value) (room : Nat)
    (h : Progression stop.toInt step.toInt i.toInt (terms.map Int64.toInt)) :
    countOn stop step items i room =
      if terms.length ≤ room then .ok (.list (items.toList ++ terms.map .int))
      else .error (.invalidArgument range.name .tooManyItems) := by
  induction room generalizing i items terms with
  | zero =>
    cases terms with
    | nil =>
      rw [countOn, if_neg (isBefore_iff.not.2 (Progression.nil_iff.1 h))]
      simp
    | cons first terms =>
      obtain ⟨-, hbefore, -⟩ := Progression.cons_iff.1 h
      rw [countOn, if_pos (isBefore_iff.2 hbefore)]
      rfl
  | succ room ih =>
    cases terms with
    | nil =>
      rw [countOn, if_neg (isBefore_iff.not.2 (Progression.nil_iff.1 h))]
      simp
    | cons first terms =>
      obtain ⟨hfirst, hbefore, hrest⟩ := Progression.cons_iff.1 h
      obtain rfl : first = i := Int64.toInt_inj.1 hfirst
      rw [countOn, if_pos (isBefore_iff.2 hbefore)]
      cases hnext : int64? (first.toInt + step.toInt) with
      | none =>
        -- the next term would be behind the stop, so there is none
        have hnone : terms = [] := by
          cases terms with
          | nil => rfl
          | cons second terms =>
            exact absurd (Progression.cons_iff.1 hrest).2.1 (not_before_of_int64?_eq_none hnext)
        subst hnone
        simp
      | some next =>
        rw [← toInt_of_int64? hnext] at hrest
        dsimp only
        rw [ih (items.push (.int first)) hrest]
        simp

/-- What the function gives for a step that is not zero. -/
theorem progression_eq {start stop step : Int64} {terms : List Int64} (hstep : step ≠ 0)
    (h : Progression stop.toInt step.toInt start.toInt (terms.map Int64.toInt)) :
    progression start stop step =
      if terms.length ≤ maxSequence then .ok (.list (terms.map .int))
      else .error (.invalidArgument range.name .tooManyItems) := by
  rw [progression, if_neg hstep, countOn_eq #[] maxSequence h]
  rfl

/-- An argument that is no bound is an invalid argument. -/
theorem bound_cases (v : Value) :
    (∃ i, bound v = .ok i) ∨ ∃ fault, bound v = .error (.invalidArgument range.name fault) := by
  cases v with
  | int i => exact .inl ⟨i, rfl⟩
  | bool b => exact .inl ⟨if b then 1 else 0, rfl⟩
  | float x =>
    rw [bound]
    split
    · exact .inl ⟨_, rfl⟩
    · exact .inr ⟨_, rfl⟩
  | _ => exact .inr ⟨_, rfl⟩

/-- A step of zero is an invalid argument, unless another argument is one before it. -/
theorem exists_fault_zeroStep (start stop : Value) :
    ∃ fault, range.call [start, stop, .int 0] = .error (.invalidArgument range.name fault) := by
  have hcall : range.call [start, stop, .int 0] =
      (do
        let i ← bound start
        let j ← bound stop
        progression i j 0) := rfl
  rw [hcall]
  rcases bound_cases start with ⟨i, hi⟩ | ⟨fault, hi⟩
  · rcases bound_cases stop with ⟨j, hj⟩ | ⟨fault, hj⟩
    · exact ⟨.zeroStep, by rw [hi, hj]; rfl⟩
    · exact ⟨fault, by rw [hi, hj]; rfl⟩
  · exact ⟨fault, by rw [hi]; rfl⟩

end Builtin

/-- The function `range` is exact over all integers of 64 bits. With a step that is not zero it lists the
progression over the unbounded integers from the start by the step as long as that is before the stop, each
term as it is; where these are more terms than a list may have, it is an error. A step of zero is an
error whatever the other arguments are. A start that is left out is zero, and a step one. -/
theorem callBuiltin_range :
    (∀ start stop step : Int64, step ≠ 0 →
      ∃ terms : List Int64,
        Progression stop.toInt step.toInt start.toInt (terms.map Int64.toInt) ∧
        callBuiltin "range" [.int start, .int stop, .int step] =
          if terms.length ≤ maxSequence then .ok (.list (terms.map .int))
          else .error (.invalidArgument "range" .tooManyItems)) ∧
    (∀ start stop : Value,
      ∃ fault, callBuiltin "range" [start, stop, .int 0] = .error (.invalidArgument "range" fault)) ∧
    ∀ start stop : Value,
      callBuiltin "range" [stop] = callBuiltin "range" [.int 0, stop, .int 1] ∧
      callBuiltin "range" [start, stop] = callBuiltin "range" [start, stop, .int 1] := by
  have hcall (args : List Value) : callBuiltin "range" args = Builtin.range.call args := rfl
  simp only [hcall]
  refine ⟨fun start stop step hstep => ?_, Builtin.exists_fault_zeroStep, fun start stop => ⟨rfl, rfl⟩⟩
  obtain ⟨terms, hterms⟩ := exists_progression stop step start
  exact ⟨terms, hterms, Builtin.progression_eq hstep hterms⟩

/-- The step from the last integer but one leaves 64 bits. -/
theorem callBuiltin_range_edge : (5 : Int64) ≠ 0 ∧
    ∃ terms : List Int64,
      Progression 9223372036854775807 5 9223372036854775806 (terms.map Int64.toInt) ∧
      callBuiltin "range" [.int 9223372036854775806, .int 9223372036854775807, .int 5] =
        if terms.length ≤ maxSequence then .ok (.list (terms.map .int))
        else .error (.invalidArgument "range" .tooManyItems) :=
  ⟨by decide, callBuiltin_range.1 9223372036854775806 9223372036854775807 5 (by decide)⟩

end ReactiveView
