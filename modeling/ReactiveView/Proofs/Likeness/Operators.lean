import ReactiveView.Eval.Builtin
import ReactiveView.Eval.Operators
import ReactiveView.Proofs.Likeness.Values

/-!
# Operators and the order of entries

Operators and built-in functions do the same to values that differ in the order of entries only: they
fail for the same cause, or their results differ in the order of entries only
(`Value.applyBinary_sorted`, `Builtin.call_sorted`). The exceptions are the functions that turn a value
into text or list the keys of a map (`Builtin.showsOrder`), and an index, of which the text is taken.
-/

namespace ReactiveView
namespace Value

/-! ## Operators -/

@[simp] theorem number?_sorted (v : Value) : v.sorted.number? = v.number? := by
  cases v <;> rfl

@[simp] theorem isZero_sorted (v : Value) : v.sorted.isZero = v.isZero := by
  rw [isZero, isZero, number?_sorted]

@[simp] theorem mismatch_sorted (op : BinaryOp) (v w : Value) :
    mismatch op v.sorted w.sorted = mismatch op v w := by
  rw [mismatch, mismatch, typeName_sorted, typeName_sorted]

@[simp] theorem arithmetic_sorted (op : BinaryOp) (f : Float → Float → Float) (v w : Value) :
    arithmetic op f v.sorted w.sorted = arithmetic op f v w := by
  rw [arithmetic, arithmetic, number?_sorted, number?_sorted, mismatch_sorted]

/-- The order of two values does not depend on the order of entries. -/
theorem compare?_sorted (v w : Value) : compare? v.sorted w.sorted = compare? v w := by
  cases v <;> cases w <;> rfl

@[simp] theorem ordered_sorted (op : BinaryOp) (holds : Ordering → Bool) (v w : Value) :
    ordered op holds v.sorted w.sorted = ordered op holds v w := by
  rw [ordered, ordered, compare?_sorted, mismatch_sorted]

/-- What a value contains does not depend on the order of entries. -/
theorem containsValue_sorted (container needle : Value) :
    containsValue container.sorted needle.sorted = containsValue container needle := by
  cases container with
  | list items =>
    rw [sorted, containsValue, containsValue, sortedItems_eq_map, List.any_map]
    congr 2
    exact funext fun item => same_sorted item needle
  | map m =>
    obtain ⟨entries⟩ := m
    cases needle with
    | str key =>
      change Except.ok (Option.isSome (OrderedMap.find? key (sortedEntries entries))) = _
      rw [find?_sortedEntries, Option.isSome_map]
      rfl
    | _ => rfl
  | _ => cases needle <;> rfl

/-- An operator of one operand does not depend on the order of entries. -/
theorem applyUnary_sorted (op : UnaryOp) (v : Value) : applyUnary op v.sorted = applyUnary op v := by
  cases op with
  | not => rw [applyUnary, applyUnary, truthy_sorted]
  | neg => cases v <;> rfl

/-- A sum of lists has the items of both. -/
theorem add_sorted (v w : Value) : (add v.sorted w.sorted).map sorted = (add v w).map sorted := by
  have hlists (vs ws : List Value) :
      sortedItems (sortedItems vs ++ sortedItems ws) = sortedItems (vs ++ ws) := by
    have hagain (vs : List Value) : (vs.map sorted).map sorted = vs.map sorted := by
      rw [← sortedItems_eq_map, ← sortedItems_eq_map, sortedItems_sortedItems]
    rw [sortedItems_eq_map, sortedItems_eq_map, sortedItems_eq_map, sortedItems_eq_map,
      List.map_append, hagain, hagain, List.map_append]
  cases v with
  | list vs =>
    cases w with
    | list ws =>
      change Except.ok (list (sortedItems (sortedItems vs ++ sortedItems ws))) = _
      rw [hlists]
      rfl
    | _ => rfl
  | _ => cases w <;> rfl

/-- An operator of two operands gives results that differ in the order of entries only. -/
theorem applyBinary_sorted (op : BinaryOp) (v w : Value) :
    (applyBinary op v.sorted w.sorted).map sorted = (applyBinary op v w).map sorted := by
  cases op with
  | eq | notEq => rw [applyBinary, applyBinary, same_sorted]
  | lt | ltEq | gt | gtEq => rw [applyBinary, applyBinary, ordered_sorted]
  | elem => rw [applyBinary, applyBinary, containsValue_sorted]
  | add => exact add_sorted v w
  | sub | mul => cases v <;> cases w <;> rfl
  | div => rw [applyBinary, applyBinary, div, div, isZero_sorted, arithmetic_sorted]
  | rem =>
    have hrem : rem v.sorted w.sorted = rem v w := by
      cases v <;> cases w <;> rfl
    rw [applyBinary, applyBinary, hrem]

/-- An item of a value does not depend on the order of entries, but for itself. -/
theorem subscript_sorted (target index : Value) :
    (target.sorted.subscript index).map sorted = (target.subscript index).map sorted := by
  cases target with
  | list items =>
    cases index with
    | int i =>
      change (Value.subscript (list (sortedItems items)) (int i)).map sorted = _
      rw [subscript, subscript, sortedItems_eq_map, List.length_map]
      cases position? i items.length with
      | none => rfl
      | some place =>
        rw [Option.bind_some, Option.bind_some, List.getElem?_map]
        cases items[place]? with
        | none => rfl
        | some v => exact congrArg Except.ok (sorted_sorted v)
    | _ => rfl
  | map m =>
    obtain ⟨entries⟩ := m
    rw [sorted, subscript, subscript, OrderedMap.get?, OrderedMap.get?, find?_sortedEntries]
    cases OrderedMap.find? index.display entries with
    | none => rfl
    | some v => exact congrArg Except.ok (sorted_sorted v)
  | _ => rfl

end Value

/-! ## Built-in functions -/

namespace Builtin

open Value (sorted)

/-- Whether a function turns values into text, or lists the keys of a map. -/
def showsOrder : Builtin → Bool
  | str | upper | lower | join | keys => true
  | _ => false

theorem length_sorted (v : Value) : length v.sorted = length v := by
  cases v with
  | list items =>
    rw [sorted, length, length, Value.sortedItems_eq_map, List.length_map]
  | map m =>
    obtain ⟨entries⟩ := m
    rw [sorted, length, length, OrderedMap.size, OrderedMap.size, Value.length_sortedEntries]
  | _ => rfl

theorem toInt_sorted (v : Value) : toInt v.sorted = toInt v := by
  cases v <;> rfl

theorem toFloat_sorted (v : Value) : toFloat v.sorted = toFloat v := by
  cases v <;> rfl

theorem bound_sorted (v : Value) : bound v.sorted = bound v := by
  cases v <;> rfl

/-- A function that does not show the order of entries gives results that differ in it only. -/
theorem apply_sorted {b : Builtin} (h : b.showsOrder = false) (args : List Value) :
    b.apply (args.map sorted) = b.apply args := by
  cases b with
  | str | upper | lower | join | keys => cases h
  | len | int | float | notNone =>
    cases args with
    | nil => rfl
    | cons v args =>
      simp only [List.map_cons, apply, length_sorted, toInt_sorted, toFloat_sorted,
        Value.isNull_sorted]
  | range =>
    match args with
    | [] => rfl
    | [stop] => simp only [List.map_cons, List.map_nil, apply, bound_sorted]
    | [start, stop] => simp only [List.map_cons, List.map_nil, apply, bound_sorted]
    | start :: stop :: step :: _ => simp only [List.map_cons, apply, bound_sorted]

/-- A call of a function gives the same result for arguments that differ in the order of entries, if it
does not show that order or there is none. -/
theorem call_sorted {b : Builtin} {args : List Value}
    (h : b.showsOrder = false ∨ Value.flatItems args = true) :
    b.call (args.map sorted) = b.call args := by
  rcases h with h | h
  · rw [call, call, List.length_map, apply_sorted h]
  · rw [← Value.sortedItems_eq_map, Value.sortedItems_of_flat args h]

end Builtin
end ReactiveView
