import ReactiveView.Value.Basic

/-!
# Identities of loop items

`Value.key?` projects a value onto the identity that tells the items of a keyed loop apart. An
integral double has the identity of the integer, other doubles that of their word; maps and
callables have none.
-/

namespace ReactiveView

/-- An identity. -/
inductive Key where
  /-- Of null. -/
  | null
  /-- Of a truth value. -/
  | bool (b : Bool)
  /-- Of an integer or an integral double. -/
  | int (i : Int64)
  /-- Of any other double, by its word. -/
  | float (bits : UInt64)
  /-- Of a text. -/
  | str (s : String)
  /-- Of a list, by the identities of its items. -/
  | list (items : List Key)
  /-- Of a node. -/
  | node (oid : UInt64)

namespace Key

instance : Inhabited Key := ⟨null⟩

mutual

/-- Equality of identities, as a check. -/
def same : Key → Key → Bool
  | null, null => true
  | bool a, bool b => a == b
  | int a, int b => a == b
  | float a, float b => a == b
  | str a, str b => a == b
  | list a, list b => sameItems a b
  | node a, node b => a == b
  | _, _ => false
termination_by structural a => a

/-- Equality item by item. -/
def sameItems : List Key → List Key → Bool
  | [], [] => true
  | a :: as, b :: bs => same a b && sameItems as bs
  | _, _ => false
termination_by structural as => as

end

mutual

/-- The check accepts equal identities. -/
theorem same_self : (a : Key) → same a a = true
  | null => by simp [same]
  | bool _ => by simp [same]
  | int _ => by simp [same]
  | float _ => by simp [same]
  | str _ => by simp [same]
  | list items => by simpa [same] using sameItems_self items
  | node _ => by simp [same]

/-- The check accepts equal lists. -/
theorem sameItems_self : (as : List Key) → sameItems as as = true
  | [] => by simp [sameItems]
  | a :: as => by simp [sameItems, same_self a, sameItems_self as]

end

mutual

/-- The check accepts equal identities only. -/
theorem eq_of_same : (a b : Key) → same a b = true → a = b
  | null, b, h => by cases b <;> simp_all [same]
  | bool _, b, h => by cases b <;> simp_all [same]
  | int _, b, h => by cases b <;> simp_all [same]
  | float _, b, h => by cases b <;> simp_all [same]
  | str _, b, h => by cases b <;> simp_all [same]
  | list items, b, h => by
    cases b <;> simp only [same, Bool.false_eq_true] at h
    rw [eq_of_sameItems _ _ h]
  | node _, b, h => by cases b <;> simp_all [same]

/-- The check accepts equal lists only. -/
theorem eq_of_sameItems : (as bs : List Key) → sameItems as bs = true → as = bs
  | [], bs, h => by cases bs <;> simp_all [sameItems]
  | a :: as, bs, h => by
    cases bs with
    | nil => simp [sameItems] at h
    | cons b bs =>
      simp only [sameItems, Bool.and_eq_true] at h
      rw [eq_of_same a b h.1, eq_of_sameItems as bs h.2]

end

instance : DecidableEq Key := fun a b =>
  if h : same a b = true then isTrue (eq_of_same a b h)
  else isFalse fun e => h (e ▸ same_self a)

end Key

namespace Value

mutual

/-- The identity of a value, if it has one. -/
def key? : Value → Option Key
  | null => some .null
  | bool b => some (.bool b)
  | int i => some (.int i)
  | float x =>
    some (if Binary64.isInteger x then .int (Binary64.truncate x) else .float x.toBits)
  | str s => some (.str s)
  | list items => (keys? items).map .list
  | map _ => none
  | node oid => some (.node oid)
  | func _ => none
  | builtin _ => none
termination_by structural v => v

/-- The identities of the items of a list, if all have one. -/
def keys? : List Value → Option (List Key)
  | [] => some []
  | item :: items =>
    match key? item with
    | none => none
    | some k => (keys? items).map (k :: ·)
termination_by structural items => items

end

end Value
end ReactiveView
