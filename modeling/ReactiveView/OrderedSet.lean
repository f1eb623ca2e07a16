/-!
# Sets that remember insertion order

The order in which things are first mentioned decides the order in which they are reported or
updated. An `OrderedSet` lists its elements once each, oldest first.
-/

namespace ReactiveView

/-- Elements in the order of their first insertion. -/
structure OrderedSet (α : Type) where
  /-- The elements, oldest first. -/
  toList : List α := []
deriving Repr

namespace OrderedSet

variable {α : Type}

/-- The set without elements. -/
def empty : OrderedSet α := ⟨[]⟩

instance : Inhabited (OrderedSet α) := ⟨empty⟩

/-- Whether there is no element. -/
def isEmpty (s : OrderedSet α) : Bool := s.toList.isEmpty

/-- The number of elements. -/
def size (s : OrderedSet α) : Nat := s.toList.length

variable [DecidableEq α]

/-- Whether `a` is an element. -/
def contains (s : OrderedSet α) (a : α) : Bool := s.toList.contains a

/-- Add an element at the end, unless it is there already. -/
def insert (s : OrderedSet α) (a : α) : OrderedSet α :=
  if s.contains a then s else ⟨s.toList ++ [a]⟩

/-- Remove an element; the others keep their order. -/
def erase (s : OrderedSet α) (a : α) : OrderedSet α := ⟨s.toList.filter (· ≠ a)⟩

/-- Add elements in turn. -/
def insertAll (s : OrderedSet α) (xs : List α) : OrderedSet α := xs.foldl insert s

/-- The elements of a list, each at its first occurrence. -/
def ofList (xs : List α) : OrderedSet α := empty.insertAll xs

/-- Inserting adds one element. -/
@[simp] theorem mem_insert {s : OrderedSet α} {a b : α} :
    b ∈ (s.insert a).toList ↔ b ∈ s.toList ∨ b = a := by
  unfold insert contains
  split
  · rename_i h
    have : a ∈ s.toList := by simpa using h
    constructor
    · exact Or.inl
    · rintro (hb | rfl) <;> assumption
  · simp

/-- Erasing removes one element. -/
@[simp] theorem mem_erase {s : OrderedSet α} {a b : α} :
    b ∈ (s.erase a).toList ↔ b ∈ s.toList ∧ b ≠ a := by
  simp [erase]

/-- Inserting keeps every element single. -/
theorem nodup_insert {s : OrderedSet α} (h : s.toList.Nodup) (a : α) :
    (s.insert a).toList.Nodup := by
  unfold insert contains
  split
  · exact h
  · rename_i hc
    have hn : a ∉ s.toList := by simpa using hc
    rw [List.nodup_append]
    refine ⟨h, by simp, ?_⟩
    intro x hx y hy
    rcases List.mem_singleton.1 hy with rfl
    intro e
    exact hn (e ▸ hx)

/-- Adding elements in turn adds them all. -/
theorem mem_insertAll {b : α} (xs : List α) :
    ∀ {s : OrderedSet α}, b ∈ (s.insertAll xs).toList ↔ b ∈ s.toList ∨ b ∈ xs := by
  induction xs with
  | nil => exact fun {s} => ⟨.inl, fun h => h.resolve_right List.not_mem_nil⟩
  | cons x xs ih =>
    intro s
    change b ∈ ((s.insert x).insertAll xs).toList ↔ _
    rw [ih, mem_insert, List.mem_cons, or_assoc]

/-- Adding elements in turn keeps every element single. -/
theorem nodup_insertAll {s : OrderedSet α} (h : s.toList.Nodup) (xs : List α) :
    (s.insertAll xs).toList.Nodup := by
  induction xs generalizing s with
  | nil => exact h
  | cons x xs ih => exact ih (nodup_insert h x)

/-- Erasing keeps every element single. -/
theorem nodup_erase {s : OrderedSet α} (h : s.toList.Nodup) (a : α) :
    (s.erase a).toList.Nodup := h.filter _

end OrderedSet
end ReactiveView
