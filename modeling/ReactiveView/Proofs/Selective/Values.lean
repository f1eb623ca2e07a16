import ReactiveView.Eval.Interpreter

/-!
# Inert values

A value is inert if no reference to a node and no function of a code block is in it: it means the
same wherever it is shown, whatever becomes of the rendered tree. Literals are inert, and so is
what operators make of inert values (`Value.Sane.applyBinary`), their items, and what is found in
them. No operator ends in an interruption.
-/

namespace ReactiveView
namespace Value

mutual

/-- Whether a value contains neither a node nor a function of a code block. -/
def inert : Value → Bool
  | node _ => false
  | func _ => false
  | list items => inertItems items
  | map ⟨entries⟩ => inertEntries entries
  | _ => true
termination_by structural v => v

/-- Whether all items are inert. -/
def inertItems : List Value → Bool
  | [] => true
  | item :: items => inert item && inertItems items
termination_by structural items => items

/-- Whether the values of all entries are inert. -/
def inertEntries : List (String × Value) → Bool
  | [] => true
  | (_, v) :: entries => inert v && inertEntries entries
termination_by structural entries => entries

end

/-- A list is inert if its items are. -/
theorem inertItems_iff {items : List Value} :
    inertItems items = true ↔ ∀ v ∈ items, v.inert = true := by
  induction items with
  | nil => simp [inertItems]
  | cons item items ih => simp [inertItems, ih]

/-- A map is inert if the values of its entries are. -/
theorem inertEntries_iff {entries : List (String × Value)} :
    inertEntries entries = true ↔ ∀ entry ∈ entries, entry.2.inert = true := by
  induction entries with
  | nil => simp [inertEntries]
  | cons entry entries ih =>
    obtain ⟨key, v⟩ := entry
    simp [inertEntries, ih]

/-- What is found in an inert map is inert. -/
theorem inert_of_get? {entries : OrderedMap String Value} (h : (map entries).inert = true)
    {key : String} {v : Value} (hv : entries.get? key = some v) : v.inert = true := by
  obtain ⟨entries⟩ := entries
  exact inertEntries_iff.1 (by simpa [inert] using h) _ (OrderedMap.mem_of_find? hv)

/-- A missing key counts as null, which is inert. -/
theorem inert_getD {entries : OrderedMap String Value} (h : (map entries).inert = true)
    (key : String) : ((entries.get? key).getD null).inert = true := by
  cases hv : entries.get? key with
  | none => rfl
  | some v => exact inert_of_get? h hv

/-- Literals are inert. -/
theorem inert_literal (l : Literal) : l.value.inert = true := by
  cases l <;> rfl

/-- The items of an inert value are inert. -/
theorem inert_of_mem_items {v : Value} (h : v.inert = true) {items : List Value}
    (hitems : v.items? = some items) {item : Value} (hitem : item ∈ items) :
    item.inert = true := by
  cases v with
  | list xs =>
    cases hitems
    exact inertItems_iff.1 (by simpa [inert] using h) item hitem
  | null =>
    cases hitems
    exact absurd hitem List.not_mem_nil
  | map entries =>
    cases hitems
    obtain ⟨key, -, rfl⟩ := List.mem_map.1 hitem
    rfl
  | str s =>
    cases hitems
    obtain ⟨c, -, rfl⟩ := List.mem_map.1 hitem
    rfl
  | int n =>
    -- a number counts up, as far as it is in range
    simp only [items?] at hitems
    split at hitems
    · cases hitems
      obtain ⟨i, -, rfl⟩ := List.mem_map.1 hitem
      rfl
    · cases hitems
  | _ => cases hitems

/-! ## Operators -/

/-- The outcome of an operator: an inert value, or an error that is no interruption. -/
def Sane : Except EvalCause Value → Prop
  | .ok v => v.inert = true
  | .error cause => cause ≠ .interrupted

namespace Sane

/-- A number in range, or an overflow. -/
theorem checkedInt (i : Int) : Sane (checkedInt i) := by
  unfold ReactiveView.checkedInt
  split
  · rfl
  · exact EvalCause.noConfusion

/-- A double, or a mismatch. -/
theorem arithmetic (op : BinaryOp) (f : Float → Float → Float) (left right : Value) :
    Sane (arithmetic op f left right) := by
  unfold Value.arithmetic
  split
  · rfl
  · exact EvalCause.noConfusion

/-- The outcome of a comparison. -/
theorem ordered (op : BinaryOp) (holds : Ordering → Bool) (left right : Value) :
    Sane (ordered op holds left right) := by
  unfold Value.ordered
  split
  · rfl
  · exact EvalCause.noConfusion

/-- A repeated text. -/
theorem repeated (s : String) (n : Int64) : Sane (repeated s n) := by
  unfold Value.repeated
  dsimp only
  split
  · rfl
  · split
    · rfl
    · exact EvalCause.noConfusion

/-- A sum or a concatenation. -/
theorem add {left right : Value} (hleft : left.inert = true) (hright : right.inert = true) :
    Sane (add left right) := by
  unfold Value.add
  split
  · exact checkedInt _
  · rfl
  · rename_i a b
    have ha : ∀ v ∈ a, v.inert = true := inertItems_iff.1 (by simpa [inert] using hleft)
    have hb : ∀ v ∈ b, v.inert = true := inertItems_iff.1 (by simpa [inert] using hright)
    have hab : ∀ v ∈ a ++ b, v.inert = true := fun v hv =>
      (List.mem_append.1 hv).elim (ha v) (hb v)
    simpa [Sane, inert] using inertItems_iff.2 hab
  · exact arithmetic _ _ _ _

/-- A difference. -/
theorem sub (left right : Value) : Sane (sub left right) := by
  unfold Value.sub
  split
  · exact checkedInt _
  · exact arithmetic _ _ _ _

/-- A product or a repetition. -/
theorem mul (left right : Value) : Sane (mul left right) := by
  unfold Value.mul
  split
  · exact checkedInt _
  · exact repeated _ _
  · exact repeated _ _
  · exact arithmetic _ _ _ _

/-- A quotient. -/
theorem div (left right : Value) : Sane (div left right) := by
  unfold Value.div
  split
  · exact EvalCause.noConfusion
  · exact arithmetic _ _ _ _

/-- A remainder. -/
theorem rem (left right : Value) : Sane (rem left right) := by
  unfold Value.rem
  split
  · split
    · exact EvalCause.noConfusion
    · split
      · exact EvalCause.noConfusion
      · exact checkedInt _
  · split
    · exact EvalCause.noConfusion
    · exact arithmetic _ _ _ _

/-- Membership. -/
theorem elem (left right : Value) : Sane ((containsValue right left).map bool) := by
  unfold containsValue
  split
  all_goals first | rfl | exact EvalCause.noConfusion

/-- The operators of one operand. -/
theorem applyUnary (op : UnaryOp) (v : Value) : Sane (v.applyUnary op) := by
  unfold Value.applyUnary
  split
  · rfl
  · exact checkedInt _
  · rfl
  · exact EvalCause.noConfusion

/-- The operators of two operands. -/
theorem applyBinary (op : BinaryOp) {left right : Value} (hleft : left.inert = true)
    (hright : right.inert = true) : Sane (applyBinary op left right) := by
  cases op with
  | add => exact add hleft hright
  | sub => exact sub left right
  | mul => exact mul left right
  | div => exact div left right
  | rem => exact rem left right
  | elem => exact elem left right
  | eq => rfl
  | notEq => rfl
  | lt => exact ordered _ _ left right
  | ltEq => exact ordered _ _ left right
  | gt => exact ordered _ _ left right
  | gtEq => exact ordered _ _ left right

/-- Items and entries by index or key. -/
theorem subscript {target : Value} (htarget : target.inert = true) (index : Value) :
    Sane (target.subscript index) := by
  unfold Value.subscript
  split
  · rename_i items i
    split
    · rename_i v hv
      obtain ⟨place, -, hplace⟩ := Option.bind_eq_some_iff.1 hv
      have hitems : ∀ v ∈ items, v.inert = true :=
        inertItems_iff.1 (by simpa [inert] using htarget)
      exact hitems v (List.mem_of_getElem? hplace)
    · exact EvalCause.noConfusion
  · dsimp only
    split
    · rfl
    · exact EvalCause.noConfusion
  · exact inert_getD htarget _
  · exact EvalCause.noConfusion

end Sane
end Value
end ReactiveView
