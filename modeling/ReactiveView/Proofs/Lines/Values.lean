import ReactiveView.Eval.Operators
import ReactiveView.Proofs.Progressions

/-!
# Lines counted from the start of a template

The statements of a code block have lines that are counted from the start of the block, and a function
carries the line on which its block begins. `Value.absolute` rewrites the functions in a value: their
statements get the lines of the template, and no offset is left. Nothing but the lines in errors
depends on these numbers, so operators and built-in functions do the same to values that are rewritten
(`Value.applyBinary_absolute`, `Builtin.call_absolute`).
-/

namespace ReactiveView

/-! ## Statements -/

/-- The template line of a line of code that begins on a template line, if that is known. -/
def lineAt (lineOffset line : Nat) : Nat :=
  if lineOffset = 0 then line else lineOffset + (line - 1)

mutual

/-- Change the lines of a statement and of all statements in it. -/
def Stmt.mapLines (f : Nat → Nat) : Stmt → Stmt
  | .assign line target op value => .assign (f line) target op value
  | .function line name params body => .function (f line) name params (Stmt.mapLinesOf f body)
  | .branch line condition yes no =>
    .branch (f line) condition (Stmt.mapLinesOf f yes) (Stmt.mapLinesOf f no)
  | .loop line var iterable body => .loop (f line) var iterable (Stmt.mapLinesOf f body)
  | .ret line value => .ret (f line) value
  | .expr line value => .expr (f line) value
termination_by structural s => s

/-- Change the lines of statements. -/
def Stmt.mapLinesOf (f : Nat → Nat) : List Stmt → List Stmt
  | [] => []
  | s :: stmts => s.mapLines f :: Stmt.mapLinesOf f stmts
termination_by structural stmts => stmts

end

mutual

/-- The lines of a statement and of all statements in it. -/
def Stmt.lines : Stmt → List Nat
  | .assign line _ _ _ => [line]
  | .function line _ _ body => line :: Stmt.linesOf body
  | .branch line _ yes no => line :: (Stmt.linesOf yes ++ Stmt.linesOf no)
  | .loop line _ _ body => line :: Stmt.linesOf body
  | .ret line _ => [line]
  | .expr line _ => [line]
termination_by structural s => s

/-- The lines of statements. -/
def Stmt.linesOf : List Stmt → List Nat
  | [] => []
  | s :: stmts => s.lines ++ Stmt.linesOf stmts
termination_by structural stmts => stmts

end

mutual

/-- Only the lines that there are matter. -/
theorem Stmt.mapLines_congr {f g : Nat → Nat} : ∀ s : Stmt, (∀ line ∈ s.lines, f line = g line) →
    s.mapLines f = s.mapLines g
  | .assign .., h => by rw [mapLines, mapLines, h _ (List.mem_singleton_self _)]
  | .function line _ _ body, h => by
    obtain ⟨hline, hbody⟩ := List.forall_mem_cons.1 h
    rw [mapLines, mapLines, hline, Stmt.mapLinesOf_congr body hbody]
  | .branch line _ yes no, h => by
    obtain ⟨hline, hboth⟩ := List.forall_mem_cons.1 h
    obtain ⟨hyes, hno⟩ := List.forall_mem_append.1 hboth
    rw [mapLines, mapLines, hline, Stmt.mapLinesOf_congr yes hyes, Stmt.mapLinesOf_congr no hno]
  | .loop line _ _ body, h => by
    obtain ⟨hline, hbody⟩ := List.forall_mem_cons.1 h
    rw [mapLines, mapLines, hline, Stmt.mapLinesOf_congr body hbody]
  | .ret .., h => by rw [mapLines, mapLines, h _ (List.mem_singleton_self _)]
  | .expr .., h => by rw [mapLines, mapLines, h _ (List.mem_singleton_self _)]
termination_by structural s => s

theorem Stmt.mapLinesOf_congr {f g : Nat → Nat} : ∀ stmts : List Stmt,
    (∀ line ∈ Stmt.linesOf stmts, f line = g line) →
      Stmt.mapLinesOf f stmts = Stmt.mapLinesOf g stmts
  | [], _ => rfl
  | s :: stmts, h => by
    obtain ⟨hs, hstmts⟩ := List.forall_mem_append.1 h
    rw [mapLinesOf, mapLinesOf, Stmt.mapLines_congr s hs, Stmt.mapLinesOf_congr stmts hstmts]
termination_by structural stmts => stmts

end

@[simp] theorem Stmt.line_mapLines (f : Nat → Nat) (s : Stmt) : (s.mapLines f).line = f s.line := by
  cases s <;> rfl

/-- A function with its statements on the lines of the template. -/
def Function.absolute (f : Function) : Function :=
  { f with body := Stmt.mapLinesOf (lineAt f.lineOffset) f.body, lineOffset := 0 }

/-! ## Values -/

namespace Value

mutual

/-- A value with the statements of its functions on the lines of the template. -/
def absolute : Value → Value
  | list items => list (absoluteItems items)
  | map ⟨entries⟩ => map ⟨absoluteEntries entries⟩
  | func f => func f.absolute
  | null => null
  | bool b => bool b
  | int i => int i
  | float x => float x
  | str s => str s
  | node oid => node oid
  | builtin name => builtin name
termination_by structural v => v

/-- Items with the statements of their functions on the lines of the template. -/
def absoluteItems : List Value → List Value
  | [] => []
  | item :: items => absolute item :: absoluteItems items
termination_by structural items => items

/-- Entries with the statements of their functions on the lines of the template. -/
def absoluteEntries : List (String × Value) → List (String × Value)
  | [] => []
  | (key, v) :: entries => (key, absolute v) :: absoluteEntries entries
termination_by structural entries => entries

end

theorem absoluteItems_eq_map (items : List Value) : absoluteItems items = items.map absolute := by
  induction items with
  | nil => rfl
  | cons item items ih => rw [absoluteItems, ih, List.map_cons]

theorem absoluteEntries_eq_map (entries : List (String × Value)) :
    absoluteEntries entries = entries.map fun entry => (entry.1, entry.2.absolute) := by
  induction entries with
  | nil => rfl
  | cons entry entries ih => rw [absoluteEntries, ih, List.map_cons]

@[simp] theorem absolute_list (items : List Value) :
    (list items).absolute = list (items.map absolute) := by
  rw [absolute, absoluteItems_eq_map]

@[simp] theorem absolute_map (m : OrderedMap String Value) :
    (map m).absolute = map (m.mapValues absolute) := by
  obtain ⟨entries⟩ := m
  rw [absolute, absoluteEntries_eq_map]
  rfl

theorem absolute_literal (l : Literal) : l.value.absolute = l.value := by
  cases l <;> rfl

@[simp] theorem truthy_absolute (v : Value) : v.absolute.truthy = v.truthy := by
  cases v with
  | list items => cases items <;> rfl
  | map m =>
    obtain ⟨entries⟩ := m
    cases entries <;> rfl
  | _ => rfl

@[simp] theorem typeName_absolute (v : Value) : v.absolute.typeName = v.typeName := by
  cases v <;> rfl

@[simp] theorem isNull_absolute (v : Value) : v.absolute.isNull = v.isNull := by
  cases v <;> rfl

/-! ### Text -/

mutual

/-- The text of a function shows its name only. -/
theorem write_absolute : ∀ (v : Value) (out : String), write out v.absolute = write out v
  | list items, out => by
    rw [absolute, write, write, writeItems_absolute items]
  | map ⟨entries⟩, out => by
    rw [absolute, write, write, writeEntries_absolute entries]
  | func _, _ => rfl
  | null, _ | bool _, _ | int _, _ | float _, _ | str _, _ | node _, _ | builtin _, _ => rfl
termination_by structural v => v

theorem writeItems_absolute : ∀ (items : List Value) (out sep : String),
    writeItems out sep (absoluteItems items) = writeItems out sep items
  | [], _, _ => rfl
  | item :: items, out, sep => by
    rw [absoluteItems, writeItems, writeItems, write_absolute item, writeItems_absolute items]
termination_by structural items => items

theorem writeEntries_absolute : ∀ (entries : List (String × Value)) (out sep : String),
    writeEntries out sep (absoluteEntries entries) = writeEntries out sep entries
  | [], _, _ => rfl
  | (key, v) :: entries, out, sep => by
    rw [absoluteEntries, writeEntries, writeEntries, write_absolute v,
      writeEntries_absolute entries]
termination_by structural entries => entries

end

@[simp] theorem display_absolute (v : Value) : v.absolute.display = v.display := by
  cases v with
  | list items => exact write_absolute (list items) ""
  | map m => exact write_absolute (map m) ""
  | _ => rfl

/-! ### Items -/

theorem map_absolute_str {α : Type} (f : α → String) (xs : List α) :
    (xs.map fun x => str (f x)).map absolute = xs.map fun x => str (f x) := by
  rw [List.map_map]
  exact List.map_congr_left fun x _ => rfl

theorem map_absolute_int {α : Type} (f : α → Int64) (xs : List α) :
    (xs.map fun x => int (f x)).map absolute = xs.map fun x => int (f x) := by
  rw [List.map_map]
  exact List.map_congr_left fun x _ => rfl

theorem keys_mapValues_absolute (m : OrderedMap String Value) :
    (m.mapValues absolute).keys = m.keys := by
  unfold OrderedMap.keys OrderedMap.mapValues
  rw [List.map_map]
  rfl

/-- The items of a value that is rewritten. -/
theorem items?_absolute (v : Value) :
    v.absolute.items? = v.items?.map fun items => items.map absolute := by
  cases v with
  | list items =>
    rw [absolute_list]
    rfl
  | map m =>
    rw [absolute_map]
    change some ((m.mapValues absolute).keys.map str) = some ((m.keys.map str).map absolute)
    rw [keys_mapValues_absolute, map_absolute_str]
  | str s => exact congrArg some (map_absolute_str (fun c : Char => c.toString) s.toList).symm
  | int n =>
    change (int n).items? = _
    rw [items?]
    split
    · exact congrArg some (map_absolute_int _ _).symm
    · rfl
  | _ => rfl

/-! ### Equality -/

mutual

/-- Functions are told apart by their numbers. -/
theorem same_absolute : ∀ v w : Value, v.absolute.same w.absolute = v.same w
  | list a, w => by
    cases w with
    | list b => exact sameItems_absolute a b
    | _ => rfl
  | map ⟨a⟩, w => by
    cases w with
    | map b =>
      obtain ⟨b⟩ := b
      have hlength (entries : List (String × Value)) :
          (absoluteEntries entries).length = entries.length := by
        rw [absoluteEntries_eq_map, List.length_map]
      rw [absolute, absolute, same, same, sameEntries_absolute a b, hlength]
      simp only [OrderedMap.size, hlength]
    | _ => rfl
  | func _, w | null, w | bool _, w | int _, w | float _, w | str _, w | node _, w
  | builtin _, w => by cases w <;> rfl
termination_by structural v => v

theorem sameItems_absolute : ∀ vs ws : List Value,
    sameItems (absoluteItems vs) (absoluteItems ws) = sameItems vs ws
  | [], [] | [], _ :: _ | _ :: _, [] => rfl
  | v :: vs, w :: ws => by
    rw [absoluteItems, absoluteItems, sameItems, sameItems, same_absolute v w,
      sameItems_absolute vs ws]
termination_by structural vs => vs

theorem sameEntries_absolute : ∀ entries others : List (String × Value),
    sameEntries (absoluteEntries entries) ⟨absoluteEntries others⟩ = sameEntries entries ⟨others⟩
  | [], _ => rfl
  | (key, v) :: entries, others => by
    have hget : (⟨absoluteEntries others⟩ : OrderedMap String Value).get? key =
        ((⟨others⟩ : OrderedMap String Value).get? key).map absolute := by
      rw [← OrderedMap.get?_mapValues, absoluteEntries_eq_map]
      rfl
    rw [absoluteEntries, sameEntries, sameEntries, sameEntries_absolute entries others, hget]
    cases (⟨others⟩ : OrderedMap String Value).get? key with
    | none => rfl
    | some w => exact congrArg (· && _) (same_absolute v w)
termination_by structural entries => entries

end

/-! ## Operators -/

@[simp] theorem number?_absolute (v : Value) : v.absolute.number? = v.number? := by
  cases v <;> rfl

@[simp] theorem isZero_absolute (v : Value) : v.absolute.isZero = v.isZero := by
  rw [isZero, isZero, number?_absolute]

@[simp] theorem mismatch_absolute (op : BinaryOp) (v w : Value) :
    mismatch op v.absolute w.absolute = mismatch op v w := by
  rw [mismatch, mismatch, typeName_absolute, typeName_absolute]

/-- A result without functions is not rewritten. -/
theorem map_absolute_checkedInt (i : Int) : (checkedInt i).map absolute = checkedInt i := by
  unfold checkedInt
  split <;> rfl

theorem arithmetic_absolute (op : BinaryOp) (f : Float → Float → Float) (v w : Value) :
    arithmetic op f v.absolute w.absolute = (arithmetic op f v w).map absolute := by
  unfold arithmetic
  rw [number?_absolute, number?_absolute, mismatch_absolute]
  split <;> rfl

theorem compare?_absolute (v w : Value) : compare? v.absolute w.absolute = compare? v w := by
  cases v <;> cases w <;> rfl

theorem ordered_absolute (op : BinaryOp) (holds : Ordering → Bool) (v w : Value) :
    ordered op holds v.absolute w.absolute = (ordered op holds v w).map absolute := by
  unfold ordered
  rw [compare?_absolute, mismatch_absolute]
  split <;> rfl

theorem containsValue_absolute (container needle : Value) :
    containsValue container.absolute needle.absolute = containsValue container needle := by
  cases container with
  | list items =>
    rw [absolute_list, containsValue, containsValue, List.any_map]
    congr 2
    exact funext fun item => same_absolute item needle
  | map m =>
    rw [absolute_map]
    cases needle with
    | str key =>
      change Except.ok ((m.mapValues absolute).contains key) = Except.ok (m.contains key)
      rw [OrderedMap.contains_mapValues]
    | _ => rfl
  | _ => cases needle <;> rfl

theorem applyUnary_absolute (op : UnaryOp) (v : Value) :
    applyUnary op v.absolute = (applyUnary op v).map absolute := by
  cases op with
  | not =>
    rw [applyUnary, applyUnary, truthy_absolute]
    rfl
  | neg =>
    cases v with
    | int i => exact (map_absolute_checkedInt _).symm
    | _ => rfl

theorem repeated_absolute (s : String) (n : Int64) :
    (repeated s n).map absolute = repeated s n := by
  unfold repeated
  dsimp only
  split
  · rfl
  · split <;> rfl

theorem add_absolute (v w : Value) : add v.absolute w.absolute = (add v w).map absolute := by
  cases v with
  | list vs =>
    cases w with
    | list ws =>
      rw [absolute_list, absolute_list, add, add, ← List.map_append]
      exact congrArg Except.ok (absolute_list _).symm
    | _ => rfl
  | int a =>
    cases w with
    | int b => exact (map_absolute_checkedInt _).symm
    | _ => rfl
  | str a =>
    cases w with
    | str b => rfl
    | _ => rfl
  | _ => cases w <;> rfl

theorem sub_absolute (v w : Value) : sub v.absolute w.absolute = (sub v w).map absolute := by
  cases v with
  | int a =>
    cases w with
    | int b => exact (map_absolute_checkedInt _).symm
    | _ => rfl
  | _ => cases w <;> rfl

theorem mul_absolute (v w : Value) : mul v.absolute w.absolute = (mul v w).map absolute := by
  cases v with
  | int a =>
    cases w with
    | int b => exact (map_absolute_checkedInt _).symm
    | str s => exact (repeated_absolute _ _).symm
    | _ => rfl
  | str s =>
    cases w with
    | int n => exact (repeated_absolute _ _).symm
    | _ => rfl
  | _ => cases w <;> rfl

/-- An operator that divides. -/
theorem divided_absolute (op : BinaryOp) (f : Float → Float → Float) (v w : Value) :
    (if w.absolute.isZero then .error .divisionByZero else arithmetic op f v.absolute w.absolute) =
      (if w.isZero then .error .divisionByZero else arithmetic op f v w).map absolute := by
  rw [isZero_absolute]
  split
  · rfl
  · exact arithmetic_absolute _ _ _ _

/-- The remainder of anything but two integers. -/
theorem rem_of_not_ints {v w : Value} (h : ∀ a b, v = int a → w ≠ int b) :
    rem v w = if w.isZero then .error .divisionByZero
      else arithmetic .rem Binary64.remEuclid v w := by
  unfold rem
  split
  · exact absurd rfl (h _ _ rfl)
  · rfl

theorem eq_int_of_absolute {v : Value} {i : Int64} (h : v.absolute = int i) : v = int i := by
  cases v <;> first | exact h | cases h

theorem rem_absolute (v w : Value) : rem v.absolute w.absolute = (rem v w).map absolute := by
  by_cases hints : ∃ a b, v = int a ∧ w = int b
  · obtain ⟨a, b, rfl, rfl⟩ := hints
    change rem (int a) (int b) = _
    unfold rem
    dsimp only
    split
    · rfl
    · split
      · rfl
      · exact (map_absolute_checkedInt _).symm
  · have hnot (a b : Int64) (hv : v = int a) : w ≠ int b := fun hw => hints ⟨a, b, hv, hw⟩
    rw [rem_of_not_ints hnot, rem_of_not_ints fun a b hv hw =>
      hnot a b (eq_int_of_absolute hv) (eq_int_of_absolute hw)]
    exact divided_absolute _ _ v w

/-- An operator of two operands does the same to values that are rewritten. -/
theorem applyBinary_absolute (op : BinaryOp) (v w : Value) :
    applyBinary op v.absolute w.absolute = (applyBinary op v w).map absolute := by
  cases op with
  | eq | notEq =>
    rw [applyBinary, applyBinary, same_absolute]
    rfl
  | lt | ltEq | gt | gtEq => exact ordered_absolute _ _ _ _
  | elem =>
    rw [applyBinary, applyBinary, containsValue_absolute]
    cases containsValue w v <;> rfl
  | add => exact add_absolute v w
  | sub => exact sub_absolute v w
  | mul => exact mul_absolute v w
  | div => exact divided_absolute _ _ _ _
  | rem => exact rem_absolute v w

theorem subscript_absolute (target index : Value) :
    target.absolute.subscript index.absolute = (target.subscript index).map absolute := by
  cases target with
  | list items =>
    cases index with
    | int i =>
      rw [absolute_list]
      change (list (items.map absolute)).subscript (int i) = _
      rw [subscript, subscript, List.length_map]
      cases position? i items.length with
      | none => rfl
      | some place =>
        rw [Option.bind_some, Option.bind_some, List.getElem?_map]
        cases items[place]? <;> rfl
    | _ => rfl
  | str s =>
    cases index with
    | int i =>
      change (str s).subscript (int i) = _
      rw [subscript]
      split <;> rfl
    | _ => rfl
  | map m =>
    rw [absolute_map, subscript, subscript, display_absolute, OrderedMap.get?_mapValues]
    cases m.get? index.display <;> rfl
  | _ => cases index <;> rfl

end Value

/-! ## Built-in functions -/

namespace Builtin

open Value (absolute)

theorem length_absolute (v : Value) : length v.absolute = (length v).map absolute := by
  cases v with
  | list items =>
    rw [Value.absolute_list, length, length, List.length_map]
    rfl
  | map m =>
    rw [Value.absolute_map, length, length, OrderedMap.size, OrderedMap.mapValues, List.length_map]
    rfl
  | _ => rfl

theorem toInt_absolute (v : Value) : toInt v.absolute = (toInt v).map absolute := by
  cases v with
  | str s =>
    change toInt (.str s) = _
    rw [toInt]
    split <;> rfl
  | _ => rfl

theorem toFloat_absolute (v : Value) : toFloat v.absolute = (toFloat v).map absolute := by
  cases v with
  | str s =>
    change toFloat (.str s) = _
    rw [toFloat]
    split <;> rfl
  | _ => rfl

theorem bound_absolute (v : Value) : bound v.absolute = bound v := by
  cases v <;> rfl

theorem progression_absolute (start stop step : Int64) :
    (progression start stop step).map absolute = progression start stop step := by
  by_cases hstep : step = 0
  · rw [progression, if_pos hstep]
    rfl
  · obtain ⟨terms, hterms⟩ := exists_progression stop step start
    rw [progression_eq hstep hterms]
    split
    · change Except.ok (Value.absolute (.list _)) = _
      rw [Value.absolute_list, Value.map_absolute_int]
    · rfl

/-- The bounds of a range, asked for in turn. -/
theorem map_bind_absolute {α : Type} (x : Except EvalCause α) {f : α → Except EvalCause Value}
    (hf : ∀ a, (f a).map absolute = f a) : (x >>= f).map absolute = x >>= f := by
  cases x with
  | error cause => rfl
  | ok a => exact hf a

theorem joined_absolute (v : Value) (sep : String) :
    joined v.absolute sep = (joined v sep).map absolute := by
  unfold joined
  rw [Value.items?_absolute, Value.typeName_absolute]
  cases v.items? with
  | none => rfl
  | some items =>
    have hdisplay : (items.map absolute).map Value.display = items.map Value.display := by
      rw [List.map_map]
      exact List.map_congr_left fun item _ => item.display_absolute
    simp only [Option.map_some, hdisplay]
    rfl

theorem keyList_absolute (v : Value) : keyList v.absolute = (keyList v).map absolute := by
  cases v with
  | map m =>
    rw [Value.absolute_map, keyList, keyList, Value.keys_mapValues_absolute]
    change _ = Except.ok (Value.absolute (.list _))
    rw [Value.absolute_list, Value.map_absolute_str]
  | _ => rfl

/-- A function that is given enough arguments does the same to values that are rewritten. -/
theorem apply_absolute (b : Builtin) (args : List Value) :
    b.apply (args.map absolute) = (b.apply args).map absolute := by
  cases b with
  | len | int | float | keys =>
    cases args with
    | nil => rfl
    | cons v args =>
      simp only [List.map_cons, apply, length_absolute, toInt_absolute, toFloat_absolute,
        keyList_absolute]
  | str | upper | lower | notNone =>
    cases args with
    | nil => rfl
    | cons v args =>
      simp only [List.map_cons, apply, Value.display_absolute, Value.isNull_absolute]
      rfl
  | join =>
    match args with
    | [] => rfl
    | [v] => simp only [List.map_cons, List.map_nil, apply, joined_absolute]
    | v :: sep :: _ => simp only [List.map_cons, apply, joined_absolute, Value.display_absolute]
  | range =>
    match args with
    | [] => rfl
    | [stop] =>
      simp only [List.map_cons, List.map_nil, apply, bound_absolute]
      exact (map_bind_absolute _ fun _ => progression_absolute _ _ _).symm
    | [start, stop] =>
      simp only [List.map_cons, List.map_nil, apply, bound_absolute]
      exact (map_bind_absolute _ fun _ => map_bind_absolute _ fun _ =>
        progression_absolute _ _ _).symm
    | start :: stop :: step :: _ =>
      simp only [List.map_cons, apply, bound_absolute]
      exact (map_bind_absolute _ fun _ => map_bind_absolute _ fun _ => map_bind_absolute _ fun _ =>
        progression_absolute _ _ _).symm

/-- A call of a function does the same to values that are rewritten. -/
theorem call_absolute (b : Builtin) (args : List Value) :
    b.call (args.map absolute) = (b.call args).map absolute := by
  unfold call
  rw [List.length_map, apply_absolute]
  dsimp only
  split
  · rfl
  · split <;> rfl

end Builtin

theorem callBuiltin_absolute (name : String) (args : List Value) :
    callBuiltin name (args.map Value.absolute) = (callBuiltin name args).map Value.absolute := by
  unfold callBuiltin
  split
  · exact Builtin.call_absolute _ _
  · rfl

end ReactiveView
