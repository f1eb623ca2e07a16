import ReactiveView.Eval.Operators
import ReactiveView.Proofs.Progressions

/-!
# How long texts and lists become

A value is short if no text and no list in it, at any depth, is longer than a single operation may
produce (`maxSequence`). Repeating a text and counting by `range` look at the length of what they
produce and fail if that is too long; taking apart what is short gives what is short; and the other
operators and built-in functions give no texts and lists at all. What is left are concatenations
(`Value.joins`) and the functions that write texts or list keys (`Builtin.joins`): they do not look
at lengths, and are the only ones that do not (`Value.short_applyBinary`, `Builtin.short_call`).
-/

namespace ReactiveView

/-- A text is no longer than a single operation may produce. -/
abbrev ShortText (s : String) : Prop := s.utf8ByteSize ≤ maxSequence

/-- The bytes of a repeated text. -/
theorem utf8ByteSize_join_replicate (n : Nat) (s : String) :
    (String.join (List.replicate n s)).utf8ByteSize = s.utf8ByteSize * n := by
  induction n with
  | zero => rfl
  | succ n ih =>
    rw [List.replicate_succ, String.join_cons, String.utf8ByteSize_append, ih, Nat.mul_succ,
      Nat.add_comm]

namespace Value

/-- No text and no list in a value, at any depth, is longer than a single operation may produce. -/
inductive Short : Value → Prop where
  | null : Short null
  | bool (b : Bool) : Short (bool b)
  | int (i : Int64) : Short (int i)
  | float (x : Float) : Short (float x)
  | str {s : String} (length : ShortText s) : Short (str s)
  | list {items : List Value} (length : items.length ≤ maxSequence)
    (short : ∀ v ∈ items, Short v) : Short (list items)
  | map {m : OrderedMap String Value} (keys : ∀ e ∈ m.entries, ShortText e.1)
    (short : ∀ e ∈ m.entries, Short e.2) : Short (map m)
  | node (oid : UInt64) : Short (node oid)
  | func (f : Function) : Short (func f)
  | builtin (name : String) : Short (builtin name)

theorem Short.items {vs : List Value} (h : (Value.list vs).Short) : ∀ v ∈ vs, v.Short := by
  cases h with
  | list _ short => exact short

theorem Short.get? {m : OrderedMap String Value} (h : (Value.map m).Short) (key : String) :
    ((m.get? key).getD .null).Short := by
  cases h with
  | map _ short =>
    cases hget : m.get? key with
    | none => exact .null
    | some v => exact short _ (OrderedMap.mem_of_find? hget)

/-- A character is a short text. -/
theorem short_character (c : Char) : (str c.toString).Short := by
  refine .str ?_
  have hsize : c.toString.utf8ByteSize = c.utf8Size := String.utf8ByteSize_singleton
  have hfour := Char.utf8Size_le_four c
  rw [ShortText, hsize, maxSequence]
  omega

/-- What a short value is iterated over is short. -/
theorem Short.of_items? {v : Value} (h : v.Short) {items : List Value} (hitems : v.items? = some items) :
    ∀ item ∈ items, item.Short := by
  cases h with
  | null =>
    obtain rfl := Option.some.inj hitems
    exact List.forall_mem_nil _
  | list _ short =>
    obtain rfl := Option.some.inj hitems
    exact short
  | str =>
    obtain rfl := Option.some.inj hitems
    exact List.forall_mem_map.2 fun c _ => short_character c
  | map keys =>
    obtain rfl := Option.some.inj hitems
    rw [OrderedMap.keys, List.map_map]
    exact List.forall_mem_map.2 fun e he => .str (keys e he)
  | int n =>
    rw [items?] at hitems
    split at hitems
    · obtain rfl := Option.some.inj hitems
      exact List.forall_mem_map.2 fun i _ => .int _
    · cases hitems
  | bool | float | node | func | builtin => cases hitems

end Value

/-! ## Results -/

/-- If there is a value, it is short. -/
def ShortResult {ε : Type} (r : Except ε Value) : Prop := ∀ v, r = .ok v → v.Short

section

variable {ε : Type}

theorem shortResult_ok {v : Value} (h : v.Short) : ShortResult (.ok v : Except ε Value) := by
  rintro _ ⟨⟩
  exact h

theorem shortResult_error (e : ε) : ShortResult (.error e) := nofun

theorem shortResult_bind {α : Type} (x : Except ε α) {f : α → Except ε Value}
    (h : ∀ a, ShortResult (f a)) : ShortResult (x >>= f) := by
  cases x with
  | ok a => exact h a
  | error e => exact shortResult_error e

end

namespace Value

/-- Where an index leads in a short value. -/
theorem Short.subscript {target : Value} (h : target.Short) (index : Value) :
    ShortResult (target.subscript index) := by
  unfold Value.subscript
  split
  · split
    · next i v hget =>
      obtain ⟨place, -, hplace⟩ := Option.bind_eq_some_iff.1 hget
      exact shortResult_ok (h.items v (List.mem_of_getElem? hplace))
    · exact shortResult_error _
  · dsimp only
    split
    · exact shortResult_ok (short_character _)
    · exact shortResult_error _
  · exact shortResult_ok (h.get? _)
  · exact shortResult_error _

/-- The length of a repeated text is looked at. -/
theorem short_repeated (s : String) (n : Int64) : ShortResult (repeated s n) := by
  unfold repeated
  dsimp only
  split
  · exact shortResult_ok (.str (Nat.zero_le _))
  · split
    · next hsize =>
      refine shortResult_ok (.str ?_)
      rwa [ShortText, utf8ByteSize_join_replicate]
    · exact shortResult_error _

theorem short_checkedInt (i : Int) : ShortResult (checkedInt i) := by
  unfold checkedInt
  split
  · exact shortResult_ok (.int _)
  · exact shortResult_error _

theorem short_arithmetic (op : BinaryOp) (f : Float → Float → Float) (left right : Value) :
    ShortResult (arithmetic op f left right) := by
  unfold arithmetic
  split
  · exact shortResult_ok (.float _)
  · exact shortResult_error _

theorem short_applyUnary (op : UnaryOp) (v : Value) : ShortResult (applyUnary op v) := by
  unfold applyUnary
  split
  · exact shortResult_ok (.bool _)
  · exact short_checkedInt _
  · exact shortResult_ok (.float _)
  · exact shortResult_error _

/-- Whether an operator concatenates its operands. -/
def joins (op : BinaryOp) (left right : Value) : Bool :=
  match op, left, right with
  | .add, str _, str _ => true
  | .add, list _, list _ => true
  | _, _, _ => false

/-- Whether a value is a text or a list. -/
def isSequence : Value → Bool
  | str _ | list _ => true
  | _ => false

/-- Nothing but texts and lists is concatenated. -/
theorem joins_of_not_isSequence (op : BinaryOp) (left : Value) {right : Value}
    (h : right.isSequence = false) : joins op left right = false := by
  unfold joins
  split
  · cases h
  · cases h
  · rfl

theorem short_ordered (op : BinaryOp) (holds : Ordering → Bool) (left right : Value) :
    ShortResult (ordered op holds left right) := by
  unfold ordered
  split
  · exact shortResult_ok (.bool _)
  · exact shortResult_error _

theorem short_add {left right : Value} (h : joins .add left right = false) :
    ShortResult (add left right) := by
  unfold add
  split
  · exact short_checkedInt _
  · cases h
  · cases h
  · exact short_arithmetic _ _ _ _

theorem short_sub (left right : Value) : ShortResult (sub left right) := by
  unfold sub
  split
  · exact short_checkedInt _
  · exact short_arithmetic _ _ _ _

theorem short_mul (left right : Value) : ShortResult (mul left right) := by
  unfold mul
  split
  · exact short_checkedInt _
  · exact short_repeated _ _
  · exact short_repeated _ _
  · exact short_arithmetic _ _ _ _

theorem short_div (left right : Value) : ShortResult (div left right) := by
  unfold div
  split
  · exact shortResult_error _
  · exact short_arithmetic _ _ _ _

theorem short_rem (left right : Value) : ShortResult (rem left right) := by
  unfold rem
  split
  · split
    · exact shortResult_error _
    · split
      · exact shortResult_error _
      · exact short_checkedInt _
  · split
    · exact shortResult_error _
    · exact short_arithmetic _ _ _ _

/-- Every operator but a concatenation gives what is short, whatever its operands are. -/
theorem short_applyBinary {op : BinaryOp} {left right : Value} (h : joins op left right = false) :
    ShortResult (applyBinary op left right) := by
  cases op with
  | eq | notEq => exact shortResult_ok (.bool _)
  | lt | ltEq | gt | gtEq => exact short_ordered _ _ _ _
  | elem =>
    rw [applyBinary]
    cases containsValue right left with
    | ok b => exact shortResult_ok (.bool b)
    | error e => exact shortResult_error e
  | add => exact short_add h
  | sub => exact short_sub _ _
  | mul => exact short_mul _ _
  | div => exact short_div _ _
  | rem => exact short_rem _ _

end Value

/-! ## Built-in functions -/

namespace Builtin

/-- Whether a function writes texts or lists keys without looking at the length of the result. -/
def joins : Builtin → Bool
  | str | upper | lower | join | keys => true
  | len | int | float | range | notNone => false

theorem short_length (v : Value) : ShortResult (length v) := by
  cases v with
  | str | list | map | null => exact shortResult_ok (.int _)
  | _ => exact shortResult_error _

theorem short_toInt (v : Value) : ShortResult (toInt v) := by
  unfold toInt
  split
  · exact shortResult_ok (.int _)
  · exact shortResult_ok (.int _)
  · exact shortResult_ok (.int _)
  · split
    · exact shortResult_ok (.int _)
    · exact shortResult_error _
  · exact shortResult_ok (.int _)
  · exact shortResult_error _

theorem short_toFloat (v : Value) : ShortResult (toFloat v) := by
  unfold toFloat
  split
  · exact shortResult_ok (.float _)
  · exact shortResult_ok (.float _)
  · split
    · exact shortResult_ok (.float _)
    · exact shortResult_error _
  · exact shortResult_ok (.float _)
  · exact shortResult_error _

/-- A progression that is too long is not listed. -/
theorem short_progression (start stop step : Int64) : ShortResult (progression start stop step) := by
  by_cases hstep : step = 0
  · rw [progression, if_pos hstep]
    exact shortResult_error _
  · obtain ⟨terms, hterms⟩ := exists_progression stop step start
    rw [progression_eq hstep hterms]
    split
    · next hlength =>
      refine shortResult_ok (.list ?_ (List.forall_mem_map.2 fun i _ => .int i))
      rwa [List.length_map]
    · exact shortResult_error _

theorem short_apply {b : Builtin} (h : b.joins = false) (args : List Value) :
    ShortResult (b.apply args) := by
  rcases args with _ | ⟨v, args⟩
  · -- every function takes an argument
    cases b <;> exact shortResult_error _
  cases b with
  | str | upper | lower | join | keys => cases h
  | len => exact short_length v
  | int => exact short_toInt v
  | float => exact short_toFloat v
  | notNone => exact shortResult_ok (.bool _)
  | range =>
    rcases args with _ | ⟨w, _ | ⟨step, args⟩⟩
    · exact shortResult_bind _ fun stop => short_progression _ _ _
    · exact shortResult_bind _ fun start => shortResult_bind _ fun stop => short_progression _ _ _
    · refine shortResult_bind _ fun start => shortResult_bind _ fun stop => ?_
      exact shortResult_bind _ fun step => short_progression _ _ _

/-- Every function but those that write texts or list keys gives what is short, whatever its arguments
are. -/
theorem short_call {b : Builtin} (h : b.joins = false) (args : List Value) :
    ShortResult (b.call args) := by
  unfold call
  dsimp only
  split
  · exact shortResult_error _
  · split
    · exact shortResult_error _
    · exact short_apply h args

end Builtin
end ReactiveView
