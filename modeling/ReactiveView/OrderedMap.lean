/-!
# Maps that remember insertion order

Scopes, attribute lists, style lists, reference tables and map values are all shown in the order in
which their keys were first written. `OrderedMap` keeps its entries in that order: writing a key
that is present keeps its place and replaces its value, erasing a key closes the gap.

Two maps are compared without regard to order (`sameBy`): they agree when they have as many entries
and every key of the one has an equal value in the other.
-/

namespace ReactiveView

/-- Entries in the order of their first insertion. -/
structure OrderedMap (κ α : Type) where
  /-- The key and value pairs, oldest key first. -/
  entries : List (κ × α) := []
deriving Repr

namespace OrderedMap

variable {κ α β : Type}

/-- The map without entries. -/
def empty : OrderedMap κ α := ⟨[]⟩

instance : Inhabited (OrderedMap κ α) := ⟨empty⟩

/-- The keys, oldest first. -/
def keys (m : OrderedMap κ α) : List κ := m.entries.map (·.1)

/-- The values, in the order of their keys. -/
def values (m : OrderedMap κ α) : List α := m.entries.map (·.2)

/-- The number of entries. -/
def size (m : OrderedMap κ α) : Nat := m.entries.length

/-- Whether there is no entry. -/
def isEmpty (m : OrderedMap κ α) : Bool := m.entries.isEmpty

/-- Apply `f` to every value. -/
def mapValues (f : α → β) (m : OrderedMap κ α) : OrderedMap κ β :=
  ⟨m.entries.map fun (k, v) => (k, f v)⟩

/-- The entries that satisfy `p`, in order. -/
def filter (p : κ → α → Bool) (m : OrderedMap κ α) : OrderedMap κ α :=
  ⟨m.entries.filter fun (k, v) => p k v⟩

variable [DecidableEq κ]

/-- The value of the first entry with key `k`. -/
def find? (k : κ) : List (κ × α) → Option α
  | [] => none
  | (k', v) :: rest => if k' = k then some v else find? k rest

/-- The value stored under `k`. -/
def get? (m : OrderedMap κ α) (k : κ) : Option α := find? k m.entries

/-- Whether `k` has an entry. -/
def contains (m : OrderedMap κ α) (k : κ) : Bool := (m.get? k).isSome

/-- Replace the value of `k` where it stands, or append it. -/
def put (k : κ) (v : α) : List (κ × α) → List (κ × α)
  | [] => [(k, v)]
  | (k', v') :: rest => if k' = k then (k', v) :: rest else (k', v') :: put k v rest

/-- Write `v` under `k`: a present key keeps its place, a new key goes to the end. -/
def insert (m : OrderedMap κ α) (k : κ) (v : α) : OrderedMap κ α := ⟨put k v m.entries⟩

/-- Remove `k`; the other entries keep their order. -/
def erase (m : OrderedMap κ α) (k : κ) : OrderedMap κ α :=
  ⟨m.entries.filter fun e => e.1 ≠ k⟩

/-- Write every pair in turn, so that a repeated key keeps its first place and its last value. -/
def insertAll (m : OrderedMap κ α) (pairs : List (κ × α)) : OrderedMap κ α :=
  pairs.foldl (fun acc e => acc.insert e.1 e.2) m

/-- The map of a list of pairs. -/
def ofList (pairs : List (κ × α)) : OrderedMap κ α := empty.insertAll pairs

/-- Agreement up to order: as many entries, and every key of `a` has a `same` value in `b`. -/
def sameBy (same : α → β → Bool) (a : OrderedMap κ α) (b : OrderedMap κ β) : Bool :=
  a.size == b.size && a.entries.all fun (k, v) =>
    match b.get? k with
    | some w => same v w
    | none => false

/-- A map in which every key occurs once. -/
def Distinct (m : OrderedMap κ α) : Prop := m.keys.Nodup

theorem get?_put_self (k : κ) (v : α) (es : List (κ × α)) : find? k (put k v es) = some v := by
  induction es with
  | nil => simp [put, find?]
  | cons e rest ih =>
    obtain ⟨k', v'⟩ := e
    by_cases h : k' = k <;> simp [put, find?, h, ih]

theorem get?_put_of_ne {k k' : κ} (h : k' ≠ k) (v : α) (es : List (κ × α)) :
    find? k' (put k v es) = find? k' es := by
  induction es with
  | nil => simp [put, find?, Ne.symm h]
  | cons e rest ih =>
    obtain ⟨j, w⟩ := e
    by_cases hj : j = k
    · subst hj; simp [put, find?, Ne.symm h]
    · by_cases hk : j = k'
      · subst hk; simp [put, find?, hj]
      · simp [put, find?, hj, hk, ih]

/-- What was written is what is read. -/
@[simp] theorem get?_insert_self (m : OrderedMap κ α) (k : κ) (v : α) :
    (m.insert k v).get? k = some v := get?_put_self k v m.entries

/-- Writing one key leaves the others alone. -/
theorem get?_insert_of_ne (m : OrderedMap κ α) {k k' : κ} (h : k' ≠ k) (v : α) :
    (m.insert k v).get? k' = m.get? k' := get?_put_of_ne h v m.entries

/-- A key without an entry is none of the keys. -/
theorem find?_eq_none {k : κ} {es : List (κ × α)} : find? k es = none ↔ k ∉ es.map (·.1) := by
  induction es with
  | nil => simp [find?]
  | cons e rest ih =>
    obtain ⟨k', v'⟩ := e
    by_cases h : k' = k
    · simp [find?, h]
    · simp [find?, h, ih, Ne.symm h]

/-- The keys are those that have an entry. -/
theorem contains_iff (m : OrderedMap κ α) (k : κ) : m.contains k = true ↔ k ∈ m.keys := by
  have hnone : m.get? k = none ↔ k ∉ m.keys := find?_eq_none
  unfold contains
  rw [Option.isSome_iff_ne_none, Ne, hnone, Classical.not_not]

/-- A value that is found stands in an entry. -/
theorem mem_of_find? {k : κ} {v : α} {es : List (κ × α)} (h : find? k es = some v) :
    (k, v) ∈ es := by
  induction es with
  | nil => simp [find?] at h
  | cons e rest ih =>
    obtain ⟨k', v'⟩ := e
    by_cases hk : k' = k
    · subst hk
      simp_all [find?]
    · exact List.mem_cons_of_mem _ (ih (by simpa [find?, hk] using h))

/-- In a map in which every key occurs once, the value of every entry is found. -/
theorem find?_of_mem {k : κ} {v : α} {es : List (κ × α)} (hd : (es.map (·.1)).Nodup)
    (h : (k, v) ∈ es) : find? k es = some v := by
  induction es with
  | nil => simp at h
  | cons e rest ih =>
    obtain ⟨k', v'⟩ := e
    rw [List.map_cons, List.nodup_cons] at hd
    rcases List.mem_cons.1 h with h | h
    · cases h
      simp [find?]
    · have hne : k' ≠ k := fun heq => hd.1 (List.mem_map.2 ⟨_, h, heq.symm⟩)
      simpa [find?, hne] using ih hd.2 h

/-- Writing changes what is read under one key. -/
theorem get?_insert (m : OrderedMap κ α) (k k' : κ) (v : α) :
    (m.insert k v).get? k' = if k' = k then some v else m.get? k' := by
  split
  · rename_i h
    rw [h, get?_insert_self]
  · rename_i h
    rw [get?_insert_of_ne m h]

/-- Erasing changes what is read under one key. -/
theorem get?_erase (m : OrderedMap κ α) (k k' : κ) :
    (m.erase k).get? k' = if k' = k then none else m.get? k' := by
  unfold get? erase
  obtain ⟨es⟩ := m
  induction es with
  | nil => simp [find?]
  | cons e rest ih =>
    obtain ⟨j, w⟩ := e
    dsimp only at ih ⊢
    by_cases hj : j = k
    · rw [List.filter_cons_of_neg (by simp [hj]), ih]
      by_cases hk : k' = k
      · rw [if_pos hk, if_pos hk]
      · rw [if_neg hk, if_neg hk, find?, if_neg fun h => hk (h.symm.trans hj)]
    · rw [List.filter_cons_of_pos (by simp [hj]), find?, find?, ih]
      by_cases hk : j = k'
      · rw [if_pos hk, if_pos hk, if_neg fun h => hj (hk.trans h)]
      · rw [if_neg hk, if_neg hk]

/-- Writing adds its key to the keys. -/
theorem keys_insert (m : OrderedMap κ α) (k : κ) (v : α) :
    (m.insert k v).keys = if k ∈ m.keys then m.keys else m.keys ++ [k] := by
  unfold keys insert
  obtain ⟨es⟩ := m
  dsimp only
  induction es with
  | nil => rfl
  | cons e rest ih =>
    obtain ⟨j, w⟩ := e
    by_cases hj : j = k
    · rw [put, if_pos hj, if_pos (by simp [hj])]
      rfl
    · rw [put, if_neg hj, List.map_cons, ih, List.map_cons]
      by_cases hk : k ∈ rest.map (·.1)
      · rw [if_pos hk, if_pos (List.mem_cons_of_mem _ hk)]
      · rw [if_neg hk, if_neg fun h => (List.mem_cons.1 h).elim (fun h => hj h.symm) hk,
          List.cons_append]

/-- A new key goes to the end. -/
theorem entries_insert_of_not_contains {m : OrderedMap κ α} {k : κ} (h : m.contains k = false)
    (v : α) : (m.insert k v).entries = m.entries ++ [(k, v)] := by
  have hput (es : List (κ × α)) (hes : k ∉ es.map (·.1)) : put k v es = es ++ [(k, v)] := by
    induction es with
    | nil => rfl
    | cons e rest ih =>
      obtain ⟨k', v'⟩ := e
      rw [List.map_cons, List.mem_cons, not_or] at hes
      rw [put, if_neg (Ne.symm hes.1), ih hes.2, List.cons_append]
  refine hput m.entries fun hmem => ?_
  rw [(contains_iff m k).2 hmem] at h
  cases h

/-- Writing leaves the keys different from each other. -/
theorem Distinct.insert {m : OrderedMap κ α} (hm : m.Distinct) (k : κ) (v : α) :
    (m.insert k v).Distinct := by
  unfold Distinct at *
  rw [keys_insert]
  split
  · exact hm
  · rename_i hk
    refine List.nodup_append.2 ⟨hm, by simp, fun a ha b hb => ?_⟩
    rw [List.mem_singleton.1 hb]
    rintro rfl
    exact hk ha

/-- Erasing leaves the keys different from each other. -/
theorem Distinct.erase {m : OrderedMap κ α} (hm : m.Distinct) (k : κ) : (m.erase k).Distinct :=
  hm.sublist (List.filter_sublist.map _)

/-- Writing pairs in turn leaves the keys different from each other. -/
theorem Distinct.insertAll {m : OrderedMap κ α} (hm : m.Distinct) (pairs : List (κ × α)) :
    (m.insertAll pairs).Distinct := by
  unfold OrderedMap.insertAll
  induction pairs generalizing m with
  | nil => exact hm
  | cons e pairs ih => exact ih (hm.insert e.1 e.2)

/-- The keys of a list of pairs are different from each other in its map. -/
theorem distinct_ofList (pairs : List (κ × α)) : (ofList pairs).Distinct := by
  have hempty : (empty : OrderedMap κ α).Distinct := List.nodup_nil
  exact hempty.insertAll pairs

/-- A map in which every key occurs once is the map of its entries. -/
theorem ofList_entries {m : OrderedMap κ α} (hm : m.Distinct) : ofList m.entries = m := by
  obtain ⟨es⟩ := m
  unfold Distinct keys at hm
  dsimp only at hm ⊢
  have hfold (done : List (κ × α)) (hnodup : ((done ++ es).map (·.1)).Nodup) :
      (⟨done⟩ : OrderedMap κ α).insertAll es = ⟨done ++ es⟩ := by
    clear hm
    induction es generalizing done with
    | nil => simp [insertAll]
    | cons e es ih =>
      obtain ⟨k, v⟩ := e
      have hnew : (⟨done⟩ : OrderedMap κ α).contains k = false := by
        rw [← Bool.not_eq_true, contains_iff]
        rw [List.map_append, List.map_cons, List.nodup_append] at hnodup
        exact fun hk => hnodup.2.2 k hk k List.mem_cons_self rfl
      have hinsert : (⟨done⟩ : OrderedMap κ α).insert k v = ⟨done ++ [(k, v)]⟩ := by
        rw [← entries_insert_of_not_contains hnew]
      have hrest := ih (done ++ [(k, v)]) (by rwa [List.append_assoc])
      rw [insertAll] at hrest ⊢
      rw [List.foldl_cons, hinsert, hrest, List.append_assoc, List.singleton_append]
  exact hfold [] hm

/-! ## Changing the values -/

/-- Looking up a value in a map whose values are changed. -/
theorem get?_mapValues (f : α → β) (m : OrderedMap κ α) (k : κ) :
    (m.mapValues f).get? k = (m.get? k).map f := by
  have hfind (es : List (κ × α)) :
      find? k (es.map fun e => (e.1, f e.2)) = (find? k es).map f := by
    induction es with
    | nil => rfl
    | cons e es ih =>
      simp only [List.map_cons, find?]
      split
      · rfl
      · exact ih
  exact hfind m.entries

/-- Changing the values leaves the keys. -/
theorem contains_mapValues (f : α → β) (m : OrderedMap κ α) (k : κ) :
    (m.mapValues f).contains k = m.contains k := by
  rw [contains, contains, get?_mapValues, Option.isSome_map]

/-- Writing a value into a map whose values are changed. -/
theorem mapValues_insert (f : α → β) (m : OrderedMap κ α) (k : κ) (v : α) :
    (m.insert k v).mapValues f = (m.mapValues f).insert k (f v) := by
  have hput (es : List (κ × α)) :
      (put k v es).map (fun e => (e.1, f e.2)) = put k (f v) (es.map fun e => (e.1, f e.2)) := by
    induction es with
    | nil => rfl
    | cons e es ih =>
      simp only [put, List.map_cons]
      split
      · rfl
      · rw [List.map_cons, ih]
  exact congrArg OrderedMap.mk (hput m.entries)

end OrderedMap
end ReactiveView
