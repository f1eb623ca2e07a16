import Mathlib.Data.List.Sort
import Mathlib.Data.String.Basic
import ReactiveView.Proofs.Keyed.Identities

/-!
# Values up to the order of entries

Operators compare maps without regard to the order of their entries. `Value.sorted` forgets that order:
it lists the entries of every map by their keys. Values without doubles are equal for operators exactly
when they are the same once sorted (`Value.same_iff_sorted`), so two equal values differ in the order
of entries at most: they have the same truth value, the same kind, the same key, and the same items up
to order. Where no map has two entries, or entries are listed in one order, they are identical
(`Value.eq_of_flat`, `Value.eq_of_aligned`).
-/

namespace ReactiveView
namespace Value

/-! ## Sorting -/

mutual

/-- A value with the entries of all its maps listed by their keys. -/
def sorted : Value → Value
  | list items => list (sortedItems items)
  | map ⟨entries⟩ => map ⟨sortedEntries entries⟩
  | v => v
termination_by structural v => v

/-- Items with the entries of all their maps listed by their keys. -/
def sortedItems : List Value → List Value
  | [] => []
  | item :: items => sorted item :: sortedItems items
termination_by structural items => items

/-- Entries listed by their keys, and so within their values. -/
def sortedEntries : List (String × Value) → List (String × Value)
  | [] => []
  | (key, v) :: entries =>
    List.orderedInsert (fun a b => a.1 ≤ b.1) (key, sorted v) (sortedEntries entries)
termination_by structural entries => entries

end

/-- An entry with its value sorted. -/
def sortedEntry (entry : String × Value) : String × Value := (entry.1, entry.2.sorted)

theorem sortedItems_eq_map (items : List Value) : sortedItems items = items.map sorted := by
  induction items with
  | nil => rfl
  | cons item items ih => rw [sortedItems, ih, List.map_cons]

theorem sortedEntries_eq (entries : List (String × Value)) : sortedEntries entries =
    (entries.map sortedEntry).insertionSort fun a b => a.1 ≤ b.1 := by
  induction entries with
  | nil => rfl
  | cons entry entries ih =>
    rw [sortedEntries, ih, List.map_cons, List.insertionSort_cons]
    rfl

/-- Sorting entries puts them into another order. -/
theorem perm_sortedEntries (entries : List (String × Value)) :
    (sortedEntries entries).Perm (entries.map sortedEntry) := by
  rw [sortedEntries_eq]
  exact List.perm_insertionSort _ _

theorem length_sortedEntries (entries : List (String × Value)) :
    (sortedEntries entries).length = entries.length :=
  (perm_sortedEntries entries).length_eq.trans (List.length_map _)

/-- Sorting changes the order of the keys only. -/
theorem perm_keys_sortedEntries (entries : List (String × Value)) :
    ((sortedEntries entries).map (·.1)).Perm (entries.map (·.1)) := by
  have h := (perm_sortedEntries entries).map (·.1)
  rwa [List.map_map] at h

/-- The keys of sorted entries are in order. -/
theorem pairwise_sortedEntries (entries : List (String × Value)) :
    (sortedEntries entries).Pairwise fun a b => a.1 ≤ b.1 := by
  have htotal : Std.Total fun a b : String × Value => a.1 ≤ b.1 := ⟨fun a b => le_total a.1 b.1⟩
  have htrans : IsTrans (String × Value) fun a b => a.1 ≤ b.1 := ⟨fun a b c => le_trans⟩
  rw [sortedEntries_eq]
  exact List.pairwise_insertionSort _ _

/-- What is found in front of an entry that is inserted by its key, and behind it, stays. -/
theorem find?_orderedInsert (entry : String × Value) (key : String)
    (entries : List (String × Value)) :
    OrderedMap.find? key (entries.orderedInsert (fun a b => a.1 ≤ b.1) entry) =
      OrderedMap.find? key (entry :: entries) := by
  induction entries with
  | nil => rfl
  | cons first entries ih =>
    rw [List.orderedInsert_cons]
    split
    · rfl
    · rename_i hless
      -- the first entry has another key than the new one
      have hne : entry.1 ≠ first.1 := fun heq => hless heq.le
      rw [OrderedMap.find?, ih, OrderedMap.find?, OrderedMap.find?, OrderedMap.find?]
      by_cases hkey : first.1 = key
      · rw [if_pos hkey, if_neg (hkey ▸ hne), if_pos hkey]
      · rw [if_neg hkey, if_neg hkey]

/-- What is found under a key does not depend on the order of entries. -/
theorem find?_sortedEntries (key : String) (entries : List (String × Value)) :
    OrderedMap.find? key (sortedEntries entries) = (OrderedMap.find? key entries).map sorted := by
  induction entries with
  | nil => rfl
  | cons entry entries ih =>
    rw [sortedEntries, find?_orderedInsert, OrderedMap.find?, OrderedMap.find?, ih]
    split <;> rfl

mutual

/-- Sorting again changes nothing. -/
theorem sorted_sorted : (v : Value) → v.sorted.sorted = v.sorted
  | list vs => by rw [sorted, sorted, sortedItems_sortedItems vs]
  | map ⟨entries⟩ => by
    rw [sorted, sorted]
    congr 2
    -- the sorted entries have sorted values, and are in order already
    have hmap : (sortedEntries entries).map sortedEntry = sortedEntries entries := by
      refine (List.map_congr_left fun entry hmem => ?_).trans (List.map_id _)
      obtain ⟨old, hold, rfl⟩ := List.mem_map.1 ((perm_sortedEntries entries).mem_iff.1 hmem)
      exact Prod.ext rfl (sorted_of_mem_entries entries old hold)
    rw [sortedEntries_eq, hmap]
    exact (pairwise_sortedEntries entries).insertionSort_eq
  | null | bool _ | int _ | float _ | str _ | node _ | func _ | builtin _ => rfl

/-- Sorting items again changes nothing. -/
theorem sortedItems_sortedItems : (vs : List Value) → sortedItems (sortedItems vs) = sortedItems vs
  | [] => rfl
  | v :: vs => by rw [sortedItems, sortedItems, sorted_sorted v, sortedItems_sortedItems vs]

/-- Sorting the values of entries again changes nothing. -/
theorem sorted_of_mem_entries : (entries : List (String × Value)) →
    ∀ entry ∈ entries, entry.2.sorted.sorted = entry.2.sorted
  | [], _, hmem => (List.not_mem_nil hmem).elim
  | (key, v) :: entries, entry, hmem => by
    rcases List.mem_cons.1 hmem with rfl | hmem
    · exact sorted_sorted v
    · exact sorted_of_mem_entries entries entry hmem

end

/-! ## What sorting leaves -/

@[simp] theorem truthy_sorted (v : Value) : v.sorted.truthy = v.truthy := by
  cases v with
  | list items => cases items <;> rfl
  | map m =>
    obtain ⟨entries⟩ := m
    change (!(sortedEntries entries).isEmpty) = !entries.isEmpty
    rw [Bool.eq_iff_iff, Bool.not_eq_true', Bool.not_eq_true', ← Bool.not_eq_true,
      ← Bool.not_eq_true, List.isEmpty_iff_length_eq_zero, List.isEmpty_iff_length_eq_zero,
      length_sortedEntries]
  | _ => rfl

@[simp] theorem typeName_sorted (v : Value) : v.sorted.typeName = v.typeName := by
  cases v <;> rfl

theorem isCallable_sorted (v : Value) : v.sorted.isCallable = v.isCallable := by
  cases v <;> rfl

@[simp] theorem isNull_sorted (v : Value) : v.sorted.isNull = v.isNull := by
  cases v <;> rfl

mutual

/-- A key does not depend on the order of entries: what holds a map has none. -/
theorem key?_sorted : (v : Value) → v.sorted.key? = v.key?
  | list items => by rw [sorted, key?, key?, keys?_sortedItems items]
  | map ⟨_⟩ => rfl
  | null | bool _ | int _ | float _ | str _ | node _ | func _ | builtin _ => rfl

/-- Keys do not depend on the order of entries. -/
theorem keys?_sortedItems : (vs : List Value) → keys? (sortedItems vs) = keys? vs
  | [] => rfl
  | v :: vs => by rw [sortedItems, keys?, keys?, key?_sorted v, keys?_sortedItems vs]

end

/-- Sorting changes the items of a value only in themselves and, where they are the keys of a map, in
their order. -/
theorem items?_sorted (v : Value) : (v.items? = none ∧ v.sorted.items? = none) ∨
    ∃ vs ws, v.items? = some vs ∧ v.sorted.items? = some ws ∧ ws.Perm (vs.map sorted) := by
  have hplain {v : Value} (hsorted : v.sorted = v)
      (hitems : ∀ vs, v.items? = some vs → vs.map sorted = vs) :
      (v.items? = none ∧ v.sorted.items? = none) ∨
        ∃ vs ws, v.items? = some vs ∧ v.sorted.items? = some ws ∧ ws.Perm (vs.map sorted) := by
    rw [hsorted]
    cases hv : v.items? with
    | none => exact .inl ⟨rfl, rfl⟩
    | some vs => exact .inr ⟨vs, vs, rfl, rfl, by rw [hitems vs hv]⟩
  cases v with
  | list items =>
    exact .inr ⟨items, _, rfl, rfl, by rw [sortedItems_eq_map]⟩
  | map m =>
    obtain ⟨entries⟩ := m
    refine .inr ⟨_, _, rfl, rfl, ?_⟩
    have h := (perm_keys_sortedEntries entries).map str
    rwa [List.map_map (g := sorted)]
  | null => exact .inr ⟨[], [], rfl, rfl, .refl []⟩
  | str s =>
    refine hplain rfl fun vs hvs => ?_
    obtain rfl := Option.some.inj hvs
    rw [characters, List.map_map]
    rfl
  | int n =>
    refine hplain rfl fun vs hvs => ?_
    rw [items?] at hvs
    split at hvs
    · obtain rfl := Option.some.inj hvs
      rw [List.map_map]
      rfl
    · cases hvs
  | bool _ | float _ | node _ | func _ | builtin _ => exact .inl ⟨rfl, rfl⟩

/-! ## Equality -/

/-- Every entry has an equal one in the other map. -/
theorem sameEntries_iff {entries : List (String × Value)} {other : OrderedMap String Value} :
    sameEntries entries other = true ↔
      ∀ entry ∈ entries, ∃ w, other.get? entry.1 = some w ∧ entry.2.same w = true := by
  induction entries with
  | nil => exact ⟨fun _ _ h => (List.not_mem_nil h).elim, fun _ => rfl⟩
  | cons entry entries ih =>
    rw [sameEntries, Bool.and_eq_true, ih, List.forall_mem_cons]
    refine and_congr_left fun _ => ?_
    cases other.get? entry.1 with
    | none => simp
    | some w => simp

mutual

/-- Equality does not depend on the order of entries. -/
theorem same_sorted : (v w : Value) → v.sorted.same w.sorted = v.same w
  | list vs, w => by
    cases w with
    | list ws => rw [sorted, sorted, same, same, sameItems_sortedItems vs ws]
    | _ => rfl
  | map ⟨entries⟩, w => by
    cases w with
    | map m =>
      obtain ⟨entries'⟩ := m
      rw [sorted, sorted, same, same, OrderedMap.size, OrderedMap.size, length_sortedEntries,
        length_sortedEntries, sameEntries_sortedEntries entries ⟨entries'⟩]
    | _ => rfl
  | null, w | bool _, w | int _, w | float _, w | str _, w | node _, w | func _, w
  | builtin _, w => by
    cases w <;> rfl

/-- Equality item by item does not depend on the order of entries. -/
theorem sameItems_sortedItems : (vs ws : List Value) →
    sameItems (sortedItems vs) (sortedItems ws) = sameItems vs ws
  | [], ws => by cases ws <;> rfl
  | v :: vs, ws => by
    cases ws with
    | nil => rfl
    | cons w ws =>
      rw [sortedItems, sortedItems, sameItems, sameItems, same_sorted v w,
        sameItems_sortedItems vs ws]

/-- Equality by entries does not depend on their order. -/
theorem sameEntries_sortedEntries : (entries : List (String × Value)) →
    (other : OrderedMap String Value) →
      sameEntries (sortedEntries entries) ⟨sortedEntries other.entries⟩ = sameEntries entries other
  | [], _ => rfl
  | (key, v) :: entries, other => by
    have hfirst : (∃ w, (⟨sortedEntries other.entries⟩ : OrderedMap String Value).get? key = some w ∧
        v.sorted.same w = true) ↔ ∃ w, other.get? key = some w ∧ v.same w = true := by
      rw [OrderedMap.get?, find?_sortedEntries]
      refine ⟨?_, fun ⟨w, hw, hsame⟩ => ?_⟩
      · rintro ⟨_, hfound, hsame⟩
        obtain ⟨w, hw, rfl⟩ := Option.map_eq_some_iff.1 hfound
        exact ⟨w, hw, (same_sorted v w).symm.trans hsame⟩
      · exact ⟨w.sorted, Option.map_eq_some_iff.2 ⟨w, hw, rfl⟩, (same_sorted v w).trans hsame⟩
    have hrest := sameEntries_sortedEntries entries other
    rw [Bool.eq_iff_iff, sameEntries_iff] at hrest ⊢
    -- the sorted entries are the same ones in another order
    simp only [(perm_sortedEntries _).mem_iff] at hrest ⊢
    rw [sameEntries, Bool.and_eq_true, ← hrest, List.map_cons, List.forall_mem_cons]
    refine and_congr_left fun _ => hfirst.trans ?_
    cases other.get? key with
    | none => simp
    | some w => simp

end

/-! ## Equal values -/

mutual

/-- Whether a value is made of null, truth values, integers, texts, lists and maps, in which every key
occurs once. -/
def plain : Value → Bool
  | null | bool _ | int _ | str _ => true
  | list items => plainItems items
  | map ⟨entries⟩ => decide (entries.map (·.1)).Nodup && plainEntries entries
  | _ => false
termination_by structural v => v

/-- Whether all items are plain. -/
def plainItems : List Value → Bool
  | [] => true
  | item :: items => plain item && plainItems items
termination_by structural items => items

/-- Whether the values of all entries are plain. -/
def plainEntries : List (String × Value) → Bool
  | [] => true
  | (_, v) :: entries => plain v && plainEntries entries
termination_by structural entries => entries

end

theorem plainEntries_iff {entries : List (String × Value)} :
    plainEntries entries = true ↔ ∀ entry ∈ entries, entry.2.plain = true := by
  induction entries with
  | nil => exact ⟨fun _ _ h => (List.not_mem_nil h).elim, fun _ => rfl⟩
  | cons entry entries ih => rw [plainEntries, Bool.and_eq_true, ih, List.forall_mem_cons]

/-- Entries are listed by their keys in one way. -/
theorem sortedEntries_eq_of_perm {entries entries' : List (String × Value)}
    (hnodup : (entries.map (·.1)).Nodup)
    (h : (entries.map sortedEntry).Perm (entries'.map sortedEntry)) :
    sortedEntries entries = sortedEntries entries' := by
  have hperm : (sortedEntries entries).Perm (sortedEntries entries') :=
    (perm_sortedEntries entries).trans (h.trans (perm_sortedEntries entries').symm)
  refine List.Perm.eq_of_pairwise (fun a b ha hb hle hle' => ?_) (pairwise_sortedEntries entries)
    (pairwise_sortedEntries entries') hperm
  -- entries of one key are the same entry
  have hkeys : ((sortedEntries entries).map (·.1)).Nodup :=
    (perm_keys_sortedEntries entries).nodup_iff.2 hnodup
  have hkey : a.1 = b.1 := le_antisymm hle hle'
  have hfound : OrderedMap.find? b.1 (sortedEntries entries) = some a.2 :=
    hkey ▸ OrderedMap.find?_of_mem hkeys ha
  rw [OrderedMap.find?_of_mem hkeys (hperm.mem_iff.2 hb), Option.some.injEq] at hfound
  exact Prod.ext hkey hfound.symm

mutual

/-- Plain values that are equal are the same once sorted. -/
theorem sorted_eq_of_same : ∀ {v w : Value}, v.plain = true → w.plain = true → v.same w = true →
    v.sorted = w.sorted
  | list vs, w, hv, hw, h => by
    cases w with
    | list ws =>
      rw [sorted, sorted, sortedItems_eq_of_same hv hw h]
    | _ => cases h
  | map ⟨entries⟩, w, hv, hw, h => by
    cases w with
    | map m =>
      obtain ⟨entries'⟩ := m
      rw [plain, Bool.and_eq_true, decide_eq_true_eq] at hv hw
      rw [same, Bool.and_eq_true, beq_iff_eq] at h
      have hsubset := subset_of_sameEntries hv.2 hw.2 h.2
      have hnodup : (entries.map sortedEntry).Nodup := by
        refine .of_map (·.1) ?_
        rw [List.map_map]
        exact hv.1
      -- as many entries, all of them among the others
      have hperm := (List.subperm_of_subset hnodup hsubset).perm_of_length_le
        (by rw [List.length_map, List.length_map]; exact h.1.ge)
      rw [sorted, sorted, sortedEntries_eq_of_perm hv.1 hperm]
    | _ => cases h
  | null, w, _, _, h | bool _, w, _, _, h | int _, w, _, hw, h | str _, w, _, _, h => by
    cases w <;> simp_all [same, sorted, plain]
  | float _, _, hv, _, _ | node _, _, hv, _, _ | func _, _, hv, _, _ | builtin _, _, hv, _, _ => by
    cases hv

/-- Plain items that are equal in turn are the same once sorted. -/
theorem sortedItems_eq_of_same : ∀ {vs ws : List Value}, plainItems vs = true →
    plainItems ws = true → sameItems vs ws = true → sortedItems vs = sortedItems ws
  | [], ws, _, _, h => by
    cases ws with
    | nil => rfl
    | cons w ws => cases h
  | v :: vs, ws, hv, hw, h => by
    cases ws with
    | nil => cases h
    | cons w ws =>
      rw [plainItems, Bool.and_eq_true] at hv hw
      rw [sameItems, Bool.and_eq_true] at h
      rw [sortedItems, sortedItems, sorted_eq_of_same hv.1 hw.1 h.1,
        sortedItems_eq_of_same hv.2 hw.2 h.2]

/-- Plain entries that have equal ones in a map are among its entries, once sorted. -/
theorem subset_of_sameEntries : ∀ {entries : List (String × Value)}
    {other : OrderedMap String Value}, plainEntries entries = true →
      plainEntries other.entries = true → sameEntries entries other = true →
        entries.map sortedEntry ⊆ other.entries.map sortedEntry
  | [], _, _, _, _ => List.nil_subset _
  | (key, v) :: entries, other, hv, hw, h => by
    rw [plainEntries, Bool.and_eq_true] at hv
    rw [sameEntries, Bool.and_eq_true] at h
    obtain ⟨hfirst, hrest⟩ := h
    split at hfirst
    · rename_i w hfound
      have hmem := OrderedMap.mem_of_find? hfound
      have hsorted := sorted_eq_of_same hv.1 (plainEntries_iff.1 hw _ hmem) hfirst
      refine List.cons_subset.2 ⟨List.mem_map.2 ⟨(key, w), hmem, ?_⟩,
        subset_of_sameEntries hv.2 hw hrest⟩
      rw [sortedEntry, sortedEntry, hsorted]
    · cases hfirst

end

mutual

/-- A plain value equals itself. -/
theorem same_self : (v : Value) → v.plain = true → v.same v = true
  | list vs, h => by
    rw [same]
    exact sameItems_self vs h
  | map ⟨entries⟩, h => by
    rw [plain, Bool.and_eq_true, decide_eq_true_eq] at h
    rw [same, Bool.and_eq_true, sameEntries_iff]
    refine ⟨beq_self_eq_true _, fun entry hmem => ⟨entry.2, ?_, ?_⟩⟩
    · exact OrderedMap.find?_of_mem h.1 hmem
    · exact same_self_of_mem entries h.2 entry hmem
  | null, _ | bool _, _ | int _, _ | str _, _ => by simp [same]
  | float _, h | node _, h | func _, h | builtin _, h => by cases h

/-- Plain items equal themselves. -/
theorem sameItems_self : (vs : List Value) → plainItems vs = true → sameItems vs vs = true
  | [], _ => rfl
  | v :: vs, h => by
    rw [plainItems, Bool.and_eq_true] at h
    rw [sameItems, same_self v h.1, sameItems_self vs h.2]
    rfl

/-- The values of plain entries equal themselves. -/
theorem same_self_of_mem : (entries : List (String × Value)) → plainEntries entries = true →
    ∀ entry ∈ entries, entry.2.same entry.2 = true
  | [], _, _, hmem => (List.not_mem_nil hmem).elim
  | (key, v) :: entries, h, entry, hmem => by
    rw [plainEntries, Bool.and_eq_true] at h
    rcases List.mem_cons.1 hmem with rfl | hmem
    · exact same_self v h.1
    · exact same_self_of_mem entries h.2 entry hmem

end

variable {v w : Value}

/-- Plain values are equal exactly when they are the same once sorted. -/
theorem same_iff_sorted (hv : v.plain = true) (hw : w.plain = true) :
    v.same w = true ↔ v.sorted = w.sorted := by
  refine ⟨sorted_eq_of_same hv hw, fun h => ?_⟩
  rw [← same_sorted, h, same_sorted, same_self w hw]

/-! ## Values without an order of entries -/

mutual

/-- Whether no map in a value has two entries. -/
def flat : Value → Bool
  | list items => flatItems items
  | map ⟨[]⟩ => true
  | map ⟨[(_, v)]⟩ => flat v
  | map ⟨_ :: _ :: _⟩ => false
  | _ => true
termination_by structural v => v

/-- Whether no map in items has two entries. -/
def flatItems : List Value → Bool
  | [] => true
  | item :: items => flat item && flatItems items
termination_by structural items => items

end

mutual

/-- A value in which no map has two entries is sorted. -/
theorem sorted_of_flat : (v : Value) → v.flat = true → v.sorted = v
  | list vs, h => by rw [sorted, sortedItems_of_flat vs h]
  | map ⟨[]⟩, _ => rfl
  | map ⟨[(key, v)]⟩, h => by
    rw [sorted, sortedEntries, sorted_of_flat v h]
    rfl
  | map ⟨_ :: _ :: _⟩, h => by cases h
  | null, _ | bool _, _ | int _, _ | float _, _ | str _, _ | node _, _ | func _, _
  | builtin _, _ => rfl

/-- Items in which no map has two entries are sorted. -/
theorem sortedItems_of_flat : (vs : List Value) → flatItems vs = true → sortedItems vs = vs
  | [], _ => rfl
  | v :: vs, h => by
    rw [flatItems, Bool.and_eq_true] at h
    rw [sortedItems, sorted_of_flat v h.1, sortedItems_of_flat vs h.2]

end

mutual

/-- Sorting leaves the number of entries. -/
theorem flat_sorted : (v : Value) → v.sorted.flat = v.flat
  | list vs => by rw [sorted, flat, flat, flatItems_sortedItems vs]
  | map ⟨[]⟩ => rfl
  | map ⟨[(key, v)]⟩ => by
    change flat (map ⟨[(key, v.sorted)]⟩) = _
    rw [flat, flat, flat_sorted v]
  | map ⟨e :: e' :: entries⟩ => by
    have hlength := length_sortedEntries (e :: e' :: entries)
    rw [sorted]
    generalize sortedEntries (e :: e' :: entries) = es at hlength
    match es, hlength with
    | _ :: _ :: _, _ => rfl
  | null | bool _ | int _ | float _ | str _ | node _ | func _ | builtin _ => rfl

/-- Sorting leaves the numbers of entries. -/
theorem flatItems_sortedItems : (vs : List Value) → flatItems (sortedItems vs) = flatItems vs
  | [] => rfl
  | v :: vs => by
    rw [sortedItems, flatItems, flatItems, flat_sorted v, flatItems_sortedItems vs]

end

/-- Where no map has two entries, values that are the same once sorted are identical. -/
theorem eq_of_flat (hv : v.flat = true) (h : v.sorted = w.sorted) : v = w := by
  have hw : w.flat = true := by rw [← flat_sorted, ← h, flat_sorted, hv]
  rw [← sorted_of_flat v hv, h, sorted_of_flat w hw]

/-! ## Entries in one order -/

mutual

/-- Whether two values list the entries of their maps under the same keys in the same order. -/
def aligned : Value → Value → Bool
  | list vs, list ws => alignedItems vs ws
  | map ⟨entries⟩, map ⟨entries'⟩ => alignedEntries entries entries'
  | _, _ => true
termination_by structural v => v

/-- Whether items do so in turn. -/
def alignedItems : List Value → List Value → Bool
  | v :: vs, w :: ws => aligned v w && alignedItems vs ws
  | _, _ => true
termination_by structural vs => vs

/-- Whether entries have the same keys in the same order, and their values do so in turn. -/
def alignedEntries : List (String × Value) → List (String × Value) → Bool
  | [], [] => true
  | (key, v) :: entries, (key', w) :: entries' =>
    key == key' && (aligned v w && alignedEntries entries entries')
  | _, _ => false
termination_by structural entries => entries

end

/-- Entries in the same order have the same keys. -/
theorem keys_of_aligned : ∀ {entries entries' : List (String × Value)},
    alignedEntries entries entries' = true → entries.map (·.1) = entries'.map (·.1)
  | [], [], _ => rfl
  | [], _ :: _, h => by cases h
  | _ :: _, [], h => by cases h
  | (key, v) :: entries, (key', w) :: entries', h => by
    rw [alignedEntries, Bool.and_eq_true, Bool.and_eq_true, beq_iff_eq] at h
    rw [List.map_cons, List.map_cons, keys_of_aligned h.2.2, h.1]

/-- Entries with the same keys in the same order have the same values in turn once sorted, if so are
the values that are found under each key. -/
theorem forall₂_of_find? : ∀ {entries entries' : List (String × Value)},
    entries.map (·.1) = entries'.map (·.1) → (entries.map (·.1)).Nodup →
      (∀ key, (OrderedMap.find? key entries).map sorted =
        (OrderedMap.find? key entries').map sorted) →
        List.Forall₂ (fun e e' => e.2.sorted = e'.2.sorted) entries entries'
  | [], [], _, _, _ => .nil
  | [], _ :: _, hkeys, _, _ => by cases hkeys
  | _ :: _, [], hkeys, _, _ => by cases hkeys
  | (key, v) :: entries, (key', w) :: entries', hkeys, hnodup, hfind => by
    obtain ⟨hkey, htail⟩ := List.cons.inj hkeys
    obtain ⟨hnew, hnodup⟩ := List.nodup_cons.1 hnodup
    obtain rfl : key = key' := hkey
    have hfirst := hfind key
    rw [OrderedMap.find?, if_pos rfl, OrderedMap.find?, if_pos rfl] at hfirst
    refine .cons (Option.some.inj hfirst) (forall₂_of_find? htail hnodup fun x => ?_)
    by_cases hx : key = x
    · -- the first key is none of the others
      subst hx
      rw [OrderedMap.find?_eq_none.2 hnew, OrderedMap.find?_eq_none.2 (htail ▸ hnew)]
    · have hrest := hfind x
      rwa [OrderedMap.find?, if_neg hx, OrderedMap.find?, if_neg hx] at hrest

mutual

/-- Plain values that list their entries in the same order and are the same once sorted are
identical. -/
theorem eq_of_aligned : ∀ {v w : Value}, v.plain = true → aligned v w = true →
    v.sorted = w.sorted → v = w
  | list vs, w, hv, ha, h => by
    cases w with
    | list ws => rw [eq_of_alignedItems hv ha (list.inj h)]
    | map m => cases m; cases h
    | _ => cases h
  | map ⟨entries⟩, w, hv, ha, h => by
    cases w with
    | map m =>
      obtain ⟨entries'⟩ := m
      rw [plain, Bool.and_eq_true, decide_eq_true_eq] at hv
      have hentries : sortedEntries entries = sortedEntries entries' :=
        OrderedMap.mk.inj (map.inj h)
      have hfind (key : String) : (OrderedMap.find? key entries).map sorted =
          (OrderedMap.find? key entries').map sorted := by
        rw [← find?_sortedEntries, hentries, find?_sortedEntries]
      rw [eq_of_alignedEntries hv.2 ha (forall₂_of_find? (keys_of_aligned ha) hv.1 hfind)]
    | list ws => cases h
    | _ => cases h
  | null, w, _, _, h | bool _, w, _, _, h | int _, w, _, _, h | str _, w, _, _, h => by
    cases w with
    | map m => cases m; cases h
    | list ws => cases h
    | _ => exact h
  | float _, _, hv, _, _ | node _, _, hv, _, _ | func _, _, hv, _, _ | builtin _, _, hv, _, _ => by
    cases hv

/-- Plain items that list their entries in the same order and are the same once sorted are
identical. -/
theorem eq_of_alignedItems : ∀ {vs ws : List Value}, plainItems vs = true →
    alignedItems vs ws = true → sortedItems vs = sortedItems ws → vs = ws
  | [], [], _, _, _ => rfl
  | [], _ :: _, _, _, h => by cases h
  | _ :: _, [], _, _, h => by cases h
  | v :: vs, w :: ws, hv, ha, h => by
    rw [plainItems, Bool.and_eq_true] at hv
    rw [alignedItems, Bool.and_eq_true] at ha
    obtain ⟨hfirst, hrest⟩ := List.cons.inj h
    rw [eq_of_aligned hv.1 ha.1 hfirst, eq_of_alignedItems hv.2 ha.2 hrest]

/-- Plain entries in the same order whose values are the same once sorted are identical. -/
theorem eq_of_alignedEntries : ∀ {entries entries' : List (String × Value)},
    plainEntries entries = true → alignedEntries entries entries' = true →
      List.Forall₂ (fun e e' => e.2.sorted = e'.2.sorted) entries entries' → entries = entries'
  | [], [], _, _, _ => rfl
  | [], _ :: _, _, ha, _ => by cases ha
  | _ :: _, [], _, ha, _ => by cases ha
  | (key, v) :: entries, (key', w) :: entries', hv, ha, h => by
    rw [plainEntries, Bool.and_eq_true] at hv
    rw [alignedEntries, Bool.and_eq_true, Bool.and_eq_true, beq_iff_eq] at ha
    obtain ⟨hfirst, hrest⟩ := List.forall₂_cons.1 h
    rw [ha.1, eq_of_aligned hv.1 ha.2.1 hfirst, eq_of_alignedEntries hv.2 ha.2.2 hrest]

end

end Value
end ReactiveView
