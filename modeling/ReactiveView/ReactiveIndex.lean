import ReactiveView.OrderedMap
import ReactiveView.OrderedSet

/-!
# The reactive index

Which nodes have read which variables of a scope. The index is kept in both directions: from a
variable to its readers, in the order in which they first read it, which is the order in which they
are updated, and from a reader to the variables it has read, so that its registrations can be
removed. Variables whose name starts with an underscore are private to code and never tracked.
-/

namespace ReactiveView

/-- Whether reads of a variable are tracked. -/
def isTrackedKey (name : String) : Bool := !name.startsWith "_"

/-- Readers of variables, in both directions. -/
structure ReactiveIndex (ν : Type) where
  /-- The readers of each variable; none has an empty set. -/
  forward : OrderedMap String (OrderedSet ν) := .empty
  /-- The variables of each reader; none has an empty set. -/
  reverse : OrderedMap ν (OrderedSet String) := .empty

namespace ReactiveIndex

variable {ν : Type}

/-- The index without registrations. -/
def empty : ReactiveIndex ν := {}

/-- The number of readers. -/
def size (index : ReactiveIndex ν) : Nat := index.reverse.size

/-- Whether there is no reader. -/
def isEmpty (index : ReactiveIndex ν) : Bool := index.reverse.isEmpty

/-- The readers. -/
def readers (index : ReactiveIndex ν) : List ν := index.reverse.keys

variable [DecidableEq ν]

/-- The set stored under a key, empty if there is none. -/
def setAt {κ α : Type} [DecidableEq κ] (m : OrderedMap κ (OrderedSet α)) (k : κ) : OrderedSet α :=
  (m.get? k).getD .empty

/-- Record that `node` has read `key`, if such reads are tracked. -/
def track (index : ReactiveIndex ν) (key : String) (node : ν) : ReactiveIndex ν :=
  if isTrackedKey key then
    { forward := index.forward.insert key ((setAt index.forward key).insert node)
      reverse := index.reverse.insert node ((setAt index.reverse node).insert key) }
  else index

/-- The readers of `key`, in the order of their first read. -/
def dependents (index : ReactiveIndex ν) (key : String) : List ν :=
  (setAt index.forward key).toList

/-- Whether `key` has a reader. -/
def hasDependents (index : ReactiveIndex ν) (key : String) : Bool :=
  !(setAt index.forward key).isEmpty

/-- The variables that `node` has read. -/
def keysOf (index : ReactiveIndex ν) (node : ν) : List String := (setAt index.reverse node).toList

/-- Whether `node` is a reader. -/
def isTracked (index : ReactiveIndex ν) (node : ν) : Bool := index.reverse.contains node

/-- Remove `node` from the readers of `key`, and the key with its last reader. -/
def dropReader (node : ν) (forward : OrderedMap String (OrderedSet ν)) (key : String) :
    OrderedMap String (OrderedSet ν) :=
  match forward.get? key with
  | none => forward
  | some readers =>
    let rest := readers.erase node
    if rest.isEmpty then forward.erase key else forward.insert key rest

/-- Remove every registration of `node`. -/
def purge (index : ReactiveIndex ν) (node : ν) : ReactiveIndex ν where
  forward := (index.keysOf node).foldl (dropReader node) index.forward
  reverse := index.reverse.erase node

/-! ### The two directions -/

section

variable {κ α : Type} [DecidableEq κ] (m : OrderedMap κ (OrderedSet α)) (k k' : κ)

/-- The set under a key after a set was written. -/
theorem setAt_insert (s : OrderedSet α) :
    setAt (m.insert k s) k' = if k' = k then s else setAt m k' := by
  unfold setAt
  rw [OrderedMap.get?_insert]
  split <;> rfl

/-- The set under a key after a set was erased. -/
theorem setAt_erase : setAt (m.erase k) k' = if k' = k then .empty else setAt m k' := by
  unfold setAt
  rw [OrderedMap.get?_erase]
  split <;> rfl

/-- No set of a map is empty. -/
def Filled : Prop := ∀ ⦃k s⦄, m.get? k = some s → s.toList ≠ []

variable {m} in
/-- Writing a set with an element leaves no set empty. -/
theorem Filled.insert (h : Filled m) {s : OrderedSet α} (hs : s.toList ≠ []) :
    Filled (m.insert k s) := by
  intro k' s' hget
  rw [OrderedMap.get?_insert] at hget
  split at hget
  · rwa [← Option.some.inj hget]
  · exact h hget

variable {m} in
/-- Erasing a set leaves no set empty. -/
theorem Filled.erase (h : Filled m) : Filled (m.erase k) := by
  intro k' s' hget
  rw [OrderedMap.get?_erase] at hget
  split at hget
  · cases hget
  · exact h hget

end

variable (index : ReactiveIndex ν) (key k : String) (node n : ν)

/-- Adding an element to a set of a map adds it under that key only. -/
theorem mem_setAt_track {κ α : Type} [DecidableEq κ] [DecidableEq α]
    (m : OrderedMap κ (OrderedSet α)) (k k' : κ) (a b : α) :
    b ∈ (setAt (m.insert k ((setAt m k).insert a)) k').toList ↔
      b ∈ (setAt m k').toList ∨ k' = k ∧ b = a := by
  rw [setAt_insert]
  split
  · rename_i h
    rw [OrderedSet.mem_insert, h]
    simp
  · rename_i h
    simp [h]

/-- A tracked read makes a reader of one variable. -/
theorem mem_dependents_track : n ∈ (index.track key node).dependents k ↔
    n ∈ index.dependents k ∨ isTrackedKey key = true ∧ k = key ∧ n = node := by
  unfold track dependents
  split
  · rename_i h
    simp only [mem_setAt_track, h, true_and]
  · rename_i h
    simp [h]

/-- A tracked read gives one variable to one reader. -/
theorem mem_keysOf_track : k ∈ (index.track key node).keysOf n ↔
    k ∈ index.keysOf n ∨ isTrackedKey key = true ∧ n = node ∧ k = key := by
  unfold track keysOf
  split
  · rename_i h
    simp only [mem_setAt_track, h, true_and]
  · rename_i h
    simp [h]

/-- A reader is dropped from one variable. -/
theorem mem_dropReader (forward : OrderedMap String (OrderedSet ν)) :
    n ∈ (setAt (dropReader node forward key) k).toList ↔
      n ∈ (setAt forward k).toList ∧ ¬(k = key ∧ n = node) := by
  unfold dropReader
  cases hget : forward.get? key with
  | none =>
    have hempty : setAt forward key = .empty := by
      rw [setAt, hget]
      rfl
    refine ⟨fun h => ⟨h, ?_⟩, And.left⟩
    rintro ⟨rfl, -⟩
    rw [hempty] at h
    exact List.not_mem_nil h
  | some readers =>
    have hreaders : setAt forward key = readers := by
      rw [setAt, hget]
      rfl
    have hrest : n ∈ (readers.erase node).toList ↔ n ∈ (setAt forward key).toList ∧ n ≠ node := by
      rw [OrderedSet.mem_erase, hreaders]
    by_cases hk : k = key
    · subst hk
      dsimp only
      split
      · rename_i hempty
        have hnone : n ∉ (readers.erase node).toList := by
          rw [List.isEmpty_iff.1 hempty]
          exact List.not_mem_nil
        rw [setAt_erase, if_pos rfl]
        simp only [true_and]
        exact ⟨fun h => absurd h List.not_mem_nil, fun h => absurd (hrest.2 h) hnone⟩
      · rw [setAt_insert, if_pos rfl, hrest]
        simp only [true_and, ne_eq]
    · dsimp only
      split
      · simp [setAt_erase, hk]
      · simp [setAt_insert, hk]

/-- A reader is dropped from its variables. -/
theorem mem_foldl_dropReader (keys : List String) (forward : OrderedMap String (OrderedSet ν)) :
    n ∈ (setAt (keys.foldl (dropReader node) forward) k).toList ↔
      n ∈ (setAt forward k).toList ∧ ¬(k ∈ keys ∧ n = node) := by
  induction keys generalizing forward with
  | nil => simp
  | cons key keys ih =>
    rw [List.foldl_cons, ih, mem_dropReader, List.mem_cons, or_and_right, not_or, and_assoc]

/-- What is purged reads nothing any more. -/
theorem mem_dependents_purge : n ∈ (index.purge node).dependents k ↔
    n ∈ index.dependents k ∧ ¬(k ∈ index.keysOf node ∧ n = node) :=
  mem_foldl_dropReader k node n (index.keysOf node) index.forward

/-- Others keep the variables that they have read. -/
theorem mem_keysOf_purge : k ∈ (index.purge node).keysOf n ↔ k ∈ index.keysOf n ∧ n ≠ node := by
  unfold purge keysOf
  rw [setAt_erase]
  split
  · rename_i h
    simp [h, OrderedSet.empty]
  · rename_i h
    simp [h]

/-- Dropping a reader leaves no variable without a reader. -/
theorem Filled.dropReader {forward : OrderedMap String (OrderedSet ν)} (h : Filled forward) :
    Filled (dropReader node forward key) := by
  unfold ReactiveIndex.dropReader
  split
  · exact h
  · dsimp only
    split
    · exact h.erase key
    · rename_i hrest
      exact h.insert key fun hempty => hrest (List.isEmpty_iff.2 hempty)

/-- The two directions of an index say the same, and only of reads that are tracked. -/
structure Coherent (index : ReactiveIndex ν) : Prop where
  /-- Who reads a variable has read that variable. -/
  dual : ∀ k n, n ∈ index.dependents k ↔ k ∈ index.keysOf n
  /-- The variable is no private one. -/
  tracked : ∀ k n, k ∈ index.keysOf n → isTrackedKey k = true
  /-- No variable is mentioned without a reader. -/
  forward : Filled index.forward
  /-- No reader is mentioned without a variable. -/
  reverse : Filled index.reverse

/-- The index without registrations is coherent. -/
theorem coherent_empty : (empty : ReactiveIndex ν).Coherent :=
  ⟨fun _ _ => ⟨nofun, nofun⟩, nofun, nofun, nofun⟩

variable {index}

/-- Tracking keeps an index coherent. -/
theorem Coherent.track (h : index.Coherent) : (index.track key node).Coherent where
  dual k n := by
    rw [mem_dependents_track, mem_keysOf_track, h.dual, and_comm (a := k = key)]
  tracked k n hk := by
    rcases (mem_keysOf_track index key k node n).1 hk with hk | ⟨htracked, -, rfl⟩
    · exact h.tracked k n hk
    · exact htracked
  forward := by
    unfold ReactiveIndex.track
    split
    · exact h.forward.insert key (List.ne_nil_of_mem (OrderedSet.mem_insert.2 (.inr rfl)))
    · exact h.forward
  reverse := by
    unfold ReactiveIndex.track
    split
    · exact h.reverse.insert node (List.ne_nil_of_mem (OrderedSet.mem_insert.2 (.inr rfl)))
    · exact h.reverse

/-- Purging keeps an index coherent. -/
theorem Coherent.purge (h : index.Coherent) : (index.purge node).Coherent where
  dual k n := by
    rw [mem_dependents_purge, mem_keysOf_purge, h.dual]
    constructor
    · exact fun ⟨hk, hnode⟩ => ⟨hk, fun hn => hnode ⟨hn ▸ hk, hn⟩⟩
    · exact fun ⟨hk, hn⟩ => ⟨hk, fun hnode => hn hnode.2⟩
  tracked k n hk := h.tracked k n ((mem_keysOf_purge index k node n).1 hk).1
  forward := List.foldlRecOn _ _ h.forward fun _ hm key _ => hm.dropReader key node
  reverse := h.reverse.erase node

/-- A reader that has read no variable is not mentioned. -/
theorem Coherent.not_mem_readers (h : index.Coherent) (hn : index.keysOf n = []) :
    n ∉ index.readers := by
  intro hmem
  obtain ⟨s, hs⟩ := Option.isSome_iff_exists.1 ((OrderedMap.contains_iff _ n).2 hmem)
  refine h.reverse hs ?_
  have hkeys : (setAt index.reverse n).toList = [] := hn
  rw [setAt, hs] at hkeys
  exact hkeys

end ReactiveIndex
end ReactiveView
