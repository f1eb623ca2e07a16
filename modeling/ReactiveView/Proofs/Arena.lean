import ReactiveView.Tree.Arena
import Mathlib.Data.List.Nodup
import Mathlib.Data.UInt

/-!
# Laws of the arena

What an identity finds after a tenant was added, changed or removed (`get?_insert`, `get?_modify`,
`get?_remove`), as long as the number of slots fits into an index. The laws hold in arenas whose
free slots are single and empty (`Arena.Valid`), which all arenas are that come from the empty one.

An identity is spent (`Arena.Spent`) when it had a tenant and will have none any more. It stays
spent whatever happens to the arena, so that no identity is given twice.
-/

namespace ReactiveView

/-! ## Numbers of identities -/

namespace NodeId

/-- The number of an identity has the generation in its upper half and the slot in its lower. -/
theorem oid_toNat (id : NodeId) :
    id.oid.toNat = id.generation.toNat * 2 ^ 32 + id.index.toNat := by
  have hg := id.generation.toNat_lt
  have hi := id.index.toNat_lt
  have h32 : (32 : UInt64).toNat % 64 = 32 := rfl
  unfold oid
  rw [UInt64.toNat_or, UInt64.toNat_shiftLeft, UInt32.toNat_toUInt64, UInt32.toNat_toUInt64, h32,
    Nat.shiftLeft_eq, Nat.mod_eq_of_lt (by omega), ← Nat.shiftLeft_eq,
    ← Nat.shiftLeft_add_eq_or_of_lt hi, Nat.shiftLeft_eq]

/-- The identity of a number is the one that has the number. -/
@[simp] theorem ofOid_oid (id : NodeId) : ofOid id.oid = id := by
  have hg := id.generation.toNat_lt
  have hi := id.index.toNat_lt
  have h := id.oid_toNat
  have h32 : (32 : UInt64).toNat % 64 = 32 := rfl
  obtain ⟨index, generation⟩ := id
  simp only at hi hg h
  simp only [ofOid, NodeId.mk.injEq]
  constructor
  · rw [← UInt32.toNat_inj, UInt64.toNat_toUInt32, h]
    omega
  · rw [← UInt32.toNat_inj, UInt64.toNat_toUInt32, UInt64.toNat_shiftRight, h, h32,
      Nat.shiftRight_eq_div_pow]
    omega

/-- Every number is that of an identity. -/
@[simp] theorem oid_ofOid (oid : UInt64) : (ofOid oid).oid = oid := by
  have hoid := oid.toNat_lt
  have h32 : (32 : UInt64).toNat % 64 = 32 := rfl
  rw [← UInt64.toNat_inj, oid_toNat]
  simp only [ofOid, UInt64.toNat_toUInt32, UInt64.toNat_shiftRight, h32, Nat.shiftRight_eq_div_pow]
  omega

/-- An identity can be told from its number. -/
theorem oid_injective : Function.Injective oid := Function.LeftInverse.injective ofOid_oid

end NodeId

namespace Arena

variable {α β : Type} {a : Arena α}

/-! ## Validity -/

/-- The free slots are single and empty, and the tenants are counted. -/
structure Valid (a : Arena α) : Prop where
  /-- No slot is free twice. -/
  free_nodup : a.free.Nodup
  /-- Free slots exist and are empty. -/
  free_empty : ∀ i ∈ a.free, ∃ s, a.slots[i.toNat]? = some s ∧ s.value = none
  /-- The tenants are counted. -/
  size_eq : a.size = a.slots.toList.countP (·.value.isSome)

/-- The number of slots fits into an index. -/
def Roomy (a : Arena α) : Prop := a.slots.size < UInt32.size

/-- The tenant of an identity is that of its slot in its generation. -/
theorem get?_eq_some {id : NodeId} {v : α} :
    a.get? id = some v ↔ a.slots[id.index.toNat]? = some ⟨id.generation, some v⟩ := by
  unfold get? slot?
  cases hs : a.slots[id.index.toNat]? with
  | none => simp
  | some s =>
    obtain ⟨g, w⟩ := s
    by_cases hg : g = id.generation
    · subst hg
      simp [Option.filter]
    · simp [hg, Option.filter]

/-- An identity without a tenant. -/
theorem get?_eq_none {id : NodeId} :
    a.get? id = none ↔ ∀ v, a.slots[id.index.toNat]? ≠ some ⟨id.generation, some v⟩ := by
  rw [Option.eq_none_iff_forall_ne_some]
  exact forall_congr' fun v => not_congr get?_eq_some

/-- The empty arena has no tenant. -/
@[simp] theorem get?_empty (id : NodeId) : (empty : Arena α).get? id = none := rfl

/-- The empty arena is valid. -/
theorem valid_empty : (empty : Arena α).Valid := ⟨List.nodup_nil, by simp [empty], rfl⟩

/-- A replaced slot changes the count of tenants by the difference of the two. -/
theorem countP_setIfInBounds {slots : Array (Slot α)} {i : Nat} {s t : Slot α}
    (hs : slots[i]? = some s) :
    (slots.setIfInBounds i t).toList.countP (·.value.isSome) + (if s.value.isSome then 1 else 0) =
      slots.toList.countP (·.value.isSome) + (if t.value.isSome then 1 else 0) := by
  obtain ⟨hi, hget⟩ := Array.getElem?_eq_some_iff.1 hs
  have hlist : slots.toList[i] = s := by simpa using hget
  have hle : (if s.value.isSome then 1 else 0) ≤ slots.toList.countP (·.value.isSome) := by
    split
    · rename_i hsome
      refine List.countP_pos_iff.2 ⟨s, ?_, hsome⟩
      exact hlist ▸ List.getElem_mem _
    · exact Nat.zero_le _
  rw [Array.toList_setIfInBounds, List.countP_set (by simpa using hi), hlist]
  omega

/-! ## Changing a tenant -/

/-- The slots after a tenant was changed. -/
theorem slots_modify (id : NodeId) (f : α → α) (i : Nat) :
    (a.modify id f).slots[i]? =
      if i = id.index.toNat ∧ (a.slot? id).isSome then
        (a.slots[i]?).map fun s => { s with value := s.value.map f }
      else a.slots[i]? := by
  unfold modify
  cases hs : a.slot? id with
  | none => simp
  | some s =>
    simp only [Array.getElem?_modify, Option.isSome_some, and_true]
    by_cases hi : id.index.toNat = i
    · rw [if_pos hi, if_pos hi.symm]
    · rw [if_neg hi, if_neg (Ne.symm hi)]

/-- Changing a tenant changes the tenant of its identity alone. -/
theorem get?_modify (id id' : NodeId) (f : α → α) :
    (a.modify id f).get? id' = if id' = id then (a.get? id).map f else a.get? id' := by
  ext v
  rw [get?_eq_some, slots_modify]
  by_cases hid : id' = id
  · subst hid
    rw [if_pos rfl]
    cases hs : a.slots[id'.index.toNat]? with
    | none => simp [get?, slot?, hs]
    | some s =>
      obtain ⟨g, w⟩ := s
      by_cases hg : g = id'.generation
      · subst hg
        simp [get?, slot?, hs, Option.filter]
      · simp [get?, slot?, hs, Option.filter, hg]
  · rw [if_neg hid, get?_eq_some]
    by_cases hi : id'.index = id.index
    · have hg : id'.generation ≠ id.generation := fun hg => hid (by
        obtain ⟨i, g⟩ := id
        obtain ⟨i', g'⟩ := id'
        simp_all)
      split
      · rename_i hslot
        obtain ⟨-, hslot⟩ := hslot
        rw [Option.isSome_iff_exists] at hslot
        obtain ⟨s, hs⟩ := hslot
        unfold slot? at hs
        rw [Option.filter_eq_some_iff] at hs
        obtain ⟨hs, hsg⟩ := hs
        have hgen : s.generation = id.generation := by simpa using hsg
        rw [hi, hs]
        obtain ⟨sg, sv⟩ := s
        simp only at hgen
        subst hgen
        simp [Ne.symm hg]
      · rfl
    · have hne : id'.index.toNat ≠ id.index.toNat := fun h => hi (UInt32.toNat_inj.1 h)
      rw [if_neg fun h => hne h.1]

/-- Changing a tenant takes no identity away. -/
@[simp] theorem contains_modify (id id' : NodeId) (f : α → α) :
    (a.modify id f).contains id' = a.contains id' := by
  unfold contains
  rw [get?_modify]
  split
  · rename_i h
    rw [h, Option.isSome_map]
  · rfl

/-- Changing a tenant uses no slot. -/
@[simp] theorem size_slots_modify (id : NodeId) (f : α → α) :
    (a.modify id f).slots.size = a.slots.size := by
  unfold modify
  split
  · rfl
  · exact Array.size_modify

/-- Changing a tenant leaves the room there is. -/
@[simp] theorem roomy_modify (id : NodeId) (f : α → α) : (a.modify id f).Roomy ↔ a.Roomy := by
  rw [Roomy, size_slots_modify, Roomy]

/-- Changing a tenant frees no slot. -/
@[simp] theorem free_modify (id : NodeId) (f : α → α) : (a.modify id f).free = a.free := by
  unfold modify
  split <;> rfl

/-- Changing a tenant keeps the number of tenants. -/
@[simp] theorem size_modify (id : NodeId) (f : α → α) : (a.modify id f).size = a.size := by
  unfold modify
  split <;> rfl

/-- The generation and the occupation of a slot after a tenant was changed. -/
theorem slot_modify (id : NodeId) (f : α → α) (i : Nat) :
    ((a.modify id f).slots[i]?).map (fun s => (s.generation, s.value.isSome)) =
      (a.slots[i]?).map fun s => (s.generation, s.value.isSome) := by
  rw [slots_modify]
  split
  · simp [Option.map_map, Function.comp_def]
  · rfl

/-- Changing a tenant keeps an arena valid. -/
theorem Valid.modify (h : a.Valid) (id : NodeId) (f : α → α) : (a.modify id f).Valid where
  free_nodup := by
    rw [free_modify]
    exact h.free_nodup
  free_empty i hi := by
    rw [free_modify] at hi
    obtain ⟨s, hs, hv⟩ := h.free_empty i hi
    rw [slots_modify, hs]
    split
    · exact ⟨_, rfl, by simp [hv]⟩
    · exact ⟨s, rfl, hv⟩
  size_eq := by
    rw [size_modify, h.size_eq]
    have hmap (b : Arena α) : b.slots.toList.countP (·.value.isSome) =
        (b.slots.toList.map fun s => (s.generation, s.value.isSome)).countP (·.2) := by
      rw [List.countP_map]
      rfl
    rw [hmap, hmap]
    congr 1
    refine List.ext_getElem? fun i => ?_
    rw [List.getElem?_map, List.getElem?_map]
    simpa using (slot_modify id f i).symm

/-! ## Adding a tenant -/

/-- A new tenant gets the slot that was freed last, or else a new slot. -/
theorem insert_cases (h : a.Valid) (v : α) :
    (∃ i rest s, a.free = i :: rest ∧ a.slots[i.toNat]? = some s ∧ s.value = none ∧
      a.insert v = (⟨i, s.generation⟩,
        { slots := a.slots.setIfInBounds i.toNat ⟨s.generation, some v⟩, free := rest,
          size := a.size + 1 })) ∨
    (a.free = [] ∧
      a.insert v = (⟨a.slots.size.toUInt32, 0⟩,
        { a with slots := a.slots.push ⟨0, some v⟩, size := a.size + 1 })) := by
  unfold insert
  split
  · rename_i i rest hfree
    obtain ⟨s, hs, hv⟩ := h.free_empty i (hfree ▸ List.mem_cons_self)
    exact Or.inl ⟨i, rest, s, hfree, hs, hv, by simp only [hs, Option.map_some, Option.getD_some]⟩
  · rename_i hfree
    exact Or.inr ⟨hfree, rfl⟩

/-- The index of a new slot. -/
theorem Roomy.toNat_size (hroom : a.Roomy) : a.slots.size.toUInt32.toNat = a.slots.size :=
  UInt32.toNat_ofNat_of_lt' hroom

/-- Whoever is found after a tenant was added is the new one or was there before, in any arena. -/
theorem of_get?_insert {v w : α} {id : NodeId} (h : (a.insert v).2.get? id = some w) :
    id = (a.insert v).1 ∧ w = v ∨ a.get? id = some w := by
  rw [get?_eq_some] at h
  rw [get?_eq_some]
  unfold insert at h ⊢
  split at h
  · rename_i i rest hfree
    rw [Array.getElem?_setIfInBounds] at h
    split at h
    · rename_i hi
      split at h
      · obtain ⟨hg, hw⟩ := Slot.mk.inj (Option.some.inj h)
        refine .inl ⟨?_, (Option.some.inj hw).symm⟩
        rw [hg]
        exact congrArg (NodeId.mk · id.generation) (UInt32.toNat_inj.1 hi).symm
      · cases h
    · exact .inr h
  · rename_i hfree
    rw [Array.getElem?_push] at h
    split at h
    · rename_i hi
      obtain ⟨hg, hw⟩ := Slot.mk.inj (Option.some.inj h)
      refine .inl ⟨?_, (Option.some.inj hw).symm⟩
      rw [hg, ← hi]
      exact congrArg (NodeId.mk · id.generation) (UInt32.ofNat_toNat).symm
    · exact .inr h

/-- The identity of a new tenant had no tenant. -/
theorem get?_insert_new (h : a.Valid) (hroom : a.Roomy) (v : α) :
    a.get? (a.insert v).1 = none := by
  rw [get?_eq_none]
  intro w hw
  rcases insert_cases h v with ⟨i, rest, s, -, hs, hv, heq⟩ | ⟨-, heq⟩
  · rw [heq, hs, Option.some.injEq] at hw
    rw [hw] at hv
    cases hv
  · rw [heq] at hw
    simp only [hroom.toNat_size, Array.getElem?_size, reduceCtorEq] at hw

/-- Adding a tenant adds the identity of the new one. -/
theorem get?_insert (h : a.Valid) (hroom : a.Roomy) (v : α) (id : NodeId) :
    (a.insert v).2.get? id = if id = (a.insert v).1 then some v else a.get? id := by
  have hnew := get?_insert_new h hroom v
  rcases insert_cases h v with ⟨i, rest, s, -, hs, hv, heq⟩ | ⟨-, heq⟩
  · rw [heq] at hnew ⊢
    obtain ⟨hlt, -⟩ := Array.getElem?_eq_some_iff.1 hs
    ext w
    rw [get?_eq_some]
    simp only [Array.getElem?_setIfInBounds]
    by_cases hi : id.index = i
    · obtain ⟨j, g⟩ := id
      simp only at hi
      subst hi
      by_cases hg : g = s.generation
      · subst hg
        simp [hlt]
      · have hold : a.get? ⟨j, g⟩ = none := by
          rw [get?_eq_none]
          intro w hw
          rw [hs, Option.some.injEq] at hw
          rw [hw] at hg
          exact hg rfl
        simp [hlt, hg, Ne.symm hg, hold]
    · have hne : i.toNat ≠ id.index.toNat := fun hn => hi (UInt32.toNat_inj.1 hn.symm)
      have hid : id ≠ ⟨i, s.generation⟩ := fun hid => hi (congrArg NodeId.index hid)
      rw [if_neg hne, if_neg hid, get?_eq_some]
  · rw [heq] at hnew ⊢
    ext w
    rw [get?_eq_some]
    simp only [Array.getElem?_push]
    by_cases hi : id.index.toNat = a.slots.size
    · obtain ⟨j, g⟩ := id
      simp only at hi
      have hj : j = a.slots.size.toUInt32 := UInt32.toNat_inj.1 (hi.trans hroom.toNat_size.symm)
      subst hj
      by_cases hg : g = 0
      · subst hg
        simp [hi]
      · have hold : a.get? ⟨a.slots.size.toUInt32, g⟩ = none := by
          rw [get?_eq_none]
          intro w hw
          simp [hi] at hw
        simp [hi, hg, Ne.symm hg, hold]
    · have hid : id ≠ ⟨a.slots.size.toUInt32, 0⟩ := fun hid =>
        hi ((congrArg (fun id => id.index.toNat) hid).trans hroom.toNat_size)
      rw [if_neg hi, if_neg hid, get?_eq_some]

/-- Tenants stay when one is added, room or not. -/
theorem get?_insert_of_some (h : a.Valid) {id : NodeId} {w : α} (hw : a.get? id = some w)
    (v : α) : (a.insert v).2.get? id = some w := by
  have hslot := get?_eq_some.1 hw
  rw [get?_eq_some]
  rcases insert_cases h v with ⟨i, rest, s, -, hs, hv, heq⟩ | ⟨-, heq⟩
  · have hne : i.toNat ≠ id.index.toNat := by
      intro hi
      rw [hi, hslot, Option.some.injEq] at hs
      rw [← hs] at hv
      cases hv
    rw [heq, Array.getElem?_setIfInBounds, if_neg hne, hslot]
  · have hlt := (Array.getElem?_eq_some_iff.1 hslot).1
    rw [heq, Array.getElem?_push, if_neg (Nat.ne_of_lt hlt), hslot]

/-- The new tenant is found. -/
@[simp] theorem get?_insert_self (h : a.Valid) (hroom : a.Roomy) (v : α) :
    (a.insert v).2.get? (a.insert v).1 = some v := by
  rw [get?_insert h hroom, if_pos rfl]

/-- Adding a tenant uses no slot away. -/
theorem size_slots_le_insert (v : α) : a.slots.size ≤ (a.insert v).2.slots.size := by
  unfold insert
  split
  · simp
  · simp

/-- Before a tenant was added there was more room. -/
theorem Roomy.of_insert {v : α} (hroom : (a.insert v).2.Roomy) : a.Roomy :=
  Nat.lt_of_le_of_lt (size_slots_le_insert v) hroom

/-- Adding a tenant keeps an arena valid. -/
theorem Valid.insert (h : a.Valid) (v : α) : (a.insert v).2.Valid := by
  rcases insert_cases h v with ⟨i, rest, s, hfree, hs, hv, heq⟩ | ⟨hfree, heq⟩
  · have hnodup := h.free_nodup
    rw [hfree, List.nodup_cons] at hnodup
    rw [heq]
    refine ⟨hnodup.2, fun j hj => ?_, ?_⟩
    · obtain ⟨t, ht, htv⟩ := h.free_empty j (hfree ▸ List.mem_cons_of_mem i hj)
      have hne : i.toNat ≠ j.toNat := fun hn => hnodup.1 (UInt32.toNat_inj.1 hn ▸ hj)
      exact ⟨t, by simp only [Array.getElem?_setIfInBounds, if_neg hne, ht], htv⟩
    · have hcount := countP_setIfInBounds (t := ⟨s.generation, some v⟩) hs
      simp only [hv, Option.isSome_none, Option.isSome_some, Bool.false_eq_true, if_true,
        if_false] at hcount
      simp only [h.size_eq]
      omega
  · rw [heq]
    refine ⟨h.free_nodup, fun j hj => ?_, ?_⟩
    · simp only [hfree, List.not_mem_nil] at hj
    · simp [h.size_eq]

/-! ## Removing a tenant -/

/-- A removed tenant leaves its slot to the next generation, or for good. -/
theorem remove_cases {id : NodeId} {v : α} (hv : a.get? id = some v) :
    (id.generation.toNat + 1 < UInt32.size ∧
      a.remove id = (some v,
        { slots := a.slots.setIfInBounds id.index.toNat ⟨id.generation + 1, none⟩,
          free := id.index :: a.free, size := a.size - 1 })) ∨
    (¬ id.generation.toNat + 1 < UInt32.size ∧
      a.remove id = (some v,
        { a with
          slots := a.slots.setIfInBounds id.index.toNat ⟨id.generation, none⟩
          size := a.size - 1 })) := by
  unfold remove
  rw [hv]
  by_cases hg : id.generation.toNat + 1 < UInt32.size
  · exact Or.inl ⟨hg, if_pos hg⟩
  · exact Or.inr ⟨hg, if_neg hg⟩

/-- Removing an identity without a tenant does nothing. -/
theorem remove_of_none {id : NodeId} (h : a.get? id = none) : a.remove id = (none, a) := by
  unfold remove
  rw [h]

/-- The removed tenant is the one of the identity. -/
@[simp] theorem remove_fst (id : NodeId) : (a.remove id).1 = a.get? id := by
  cases hv : a.get? id with
  | none => rw [remove_of_none hv]
  | some v =>
    rcases remove_cases hv with ⟨-, heq⟩ | ⟨-, heq⟩
    · rw [heq]
    · rw [heq]

/-- Removing a tenant leaves an empty slot whose generation is no other tenant's. -/
theorem slots_remove {id : NodeId} {v : α} (hv : a.get? id = some v) :
    ∃ g : UInt32, id.generation ≤ g ∧
      (a.remove id).2.slots = a.slots.setIfInBounds id.index.toNat ⟨g, none⟩ := by
  rcases remove_cases hv with ⟨hg, heq⟩ | ⟨-, heq⟩
  · rw [heq]
    refine ⟨id.generation + 1, ?_, rfl⟩
    rw [UInt32.le_iff_toNat_le, UInt32.toNat_add]
    have h1 : (1 : UInt32).toNat = 1 := rfl
    rw [h1, Nat.mod_eq_of_lt hg]
    omega
  · rw [heq]
    exact ⟨id.generation, UInt32.le_refl _, rfl⟩

/-- Removing a tenant takes its identity away, and no other one. -/
theorem get?_remove (id id' : NodeId) :
    (a.remove id).2.get? id' = if id' = id then none else a.get? id' := by
  cases hv : a.get? id with
  | none =>
    rw [remove_of_none hv]
    split
    · rename_i h
      rw [h, hv]
    · rfl
  | some v =>
    obtain ⟨g, -, hslots⟩ := slots_remove hv
    have hlt := (Array.getElem?_eq_some_iff.1 (get?_eq_some.1 hv)).1
    ext w
    rw [get?_eq_some, hslots, Array.getElem?_setIfInBounds]
    by_cases hi : id.index.toNat = id'.index.toNat
    · have hold : id' ≠ id → a.get? id' = none := fun hne => by
        rw [get?_eq_none]
        intro w hw
        rw [← hi, get?_eq_some.1 hv, Option.some.injEq, Slot.mk.injEq] at hw
        refine hne ?_
        obtain ⟨i, g⟩ := id
        obtain ⟨i', g'⟩ := id'
        rw [NodeId.mk.injEq]
        exact ⟨UInt32.toNat_inj.1 hi.symm, hw.1.symm⟩
      rw [if_pos hi, if_pos (hi ▸ hlt)]
      split
      · simp
      · rename_i hne
        simp [hold hne]
    · have hne : id' ≠ id := fun h => hi (by rw [h])
      rw [if_neg hi, if_neg hne, get?_eq_some]

/-- Removing a tenant takes no slot away. -/
@[simp] theorem size_slots_remove (id : NodeId) :
    (a.remove id).2.slots.size = a.slots.size := by
  cases hv : a.get? id with
  | none => rw [remove_of_none hv]
  | some v =>
    obtain ⟨g, -, hslots⟩ := slots_remove hv
    rw [hslots, Array.size_setIfInBounds]

/-- Removing a tenant leaves the room there is. -/
@[simp] theorem roomy_remove (id : NodeId) : (a.remove id).2.Roomy ↔ a.Roomy := by
  rw [Roomy, size_slots_remove, Roomy]

/-- Removing a tenant keeps an arena valid. -/
theorem Valid.remove (h : a.Valid) (id : NodeId) : (a.remove id).2.Valid := by
  cases hv : a.get? id with
  | none =>
    rw [remove_of_none hv]
    exact h
  | some v =>
    have hslot := get?_eq_some.1 hv
    have hlt := (Array.getElem?_eq_some_iff.1 hslot).1
    have hcount (g : UInt32) := countP_setIfInBounds (t := ⟨g, none⟩) hslot
    simp only [Option.isSome_none, Option.isSome_some, Bool.false_eq_true, if_true,
      if_false] at hcount
    -- the slot of a tenant is not free
    have hout : id.index ∉ a.free := fun hmem => by
      obtain ⟨s, hs, hsv⟩ := h.free_empty _ hmem
      rw [hslot, Option.some.injEq] at hs
      rw [← hs] at hsv
      cases hsv
    have hempty (g : UInt32) (i : UInt32) (hi : i ∈ a.free) : ∃ s,
        (a.slots.setIfInBounds id.index.toNat ⟨g, none⟩)[i.toNat]? = some s ∧ s.value = none := by
      obtain ⟨s, hs, hsv⟩ := h.free_empty i hi
      have hne : id.index.toNat ≠ i.toNat := fun hn => hout (UInt32.toNat_inj.1 hn ▸ hi)
      exact ⟨s, by rw [Array.getElem?_setIfInBounds, if_neg hne, hs], hsv⟩
    rcases remove_cases hv with ⟨-, heq⟩ | ⟨-, heq⟩
    · rw [heq]
      refine ⟨List.nodup_cons.2 ⟨hout, h.free_nodup⟩, fun i hi => ?_, ?_⟩
      · rcases List.mem_cons.1 hi with rfl | hi
        · exact ⟨_, by rw [Array.getElem?_setIfInBounds, if_pos rfl, if_pos hlt], rfl⟩
        · exact hempty _ i hi
      · have := hcount (id.generation + 1)
        simp only [h.size_eq]
        omega
    · rw [heq]
      refine ⟨h.free_nodup, hempty _, ?_⟩
      have := hcount id.generation
      simp only [h.size_eq]
      omega

/-! ## Spent identities -/

/-- An identity had a tenant and will have none any more: its slot is in a later generation, or
empty in its last one. -/
def Spent (a : Arena α) (id : NodeId) : Prop :=
  ∃ s, a.slots[id.index.toNat]? = some s ∧
    (id.generation < s.generation ∨ s.generation = id.generation ∧ s.value = none ∧
      id.index ∉ a.free)

/-- A spent identity has no tenant. -/
theorem Spent.get? {id : NodeId} (h : a.Spent id) : a.get? id = none := by
  obtain ⟨s, hs, hlt | ⟨-, hv, -⟩⟩ := h
  · rw [get?_eq_none]
    intro v hv
    rw [hs, Option.some.injEq] at hv
    rw [hv] at hlt
    exact UInt32.lt_irrefl _ hlt
  · rw [get?_eq_none]
    intro v hv'
    rw [hs, Option.some.injEq] at hv'
    rw [hv'] at hv
    cases hv

/-- A removed identity is spent. -/
theorem spent_remove (h : a.Valid) {id : NodeId} {v : α} (hv : a.get? id = some v) :
    (a.remove id).2.Spent id := by
  have hslot := get?_eq_some.1 hv
  have hlt := (Array.getElem?_eq_some_iff.1 hslot).1
  rcases remove_cases hv with ⟨hg, heq⟩ | ⟨-, heq⟩
  · rw [heq]
    refine ⟨⟨id.generation + 1, none⟩, ?_, Or.inl ?_⟩
    · rw [Array.getElem?_setIfInBounds, if_pos rfl, if_pos hlt]
    · have h1 : (1 : UInt32).toNat = 1 := rfl
      rw [UInt32.lt_iff_toNat_lt, UInt32.toNat_add, h1, Nat.mod_eq_of_lt hg]
      omega
  · rw [heq]
    refine ⟨⟨id.generation, none⟩, ?_, Or.inr ⟨rfl, rfl, fun hmem => ?_⟩⟩
    · rw [Array.getElem?_setIfInBounds, if_pos rfl, if_pos hlt]
    · obtain ⟨s, hs, hsv⟩ := h.free_empty _ hmem
      rw [hslot, Option.some.injEq] at hs
      rw [← hs] at hsv
      cases hsv

/-- Whether an identity is spent can be told from the generation of its slot, whether that is taken,
and whether it is free. -/
theorem spent_iff {id : NodeId} : a.Spent id ↔ ∃ g o,
    (a.slots[id.index.toNat]?).map (fun s => (s.generation, s.value.isSome)) = some (g, o) ∧
      (id.generation < g ∨ g = id.generation ∧ o = false ∧ id.index ∉ a.free) := by
  constructor
  · rintro ⟨s, hs, hcase⟩
    refine ⟨s.generation, s.value.isSome, by rw [hs, Option.map_some], ?_⟩
    exact hcase.imp_right fun ⟨hg, hv, hfree⟩ => ⟨hg, by rw [hv, Option.isSome_none], hfree⟩
  · rintro ⟨g, o, hslot, hcase⟩
    obtain ⟨s, hs, heq⟩ := Option.map_eq_some_iff.1 hslot
    obtain ⟨rfl, rfl⟩ := Prod.mk.inj heq
    refine ⟨s, hs, hcase.imp_right fun ⟨hg, hv, hfree⟩ => ⟨hg, ?_, hfree⟩⟩
    exact Option.isSome_eq_false_iff.1 hv |> Option.isNone_iff_eq_none.1

/-- Changing a tenant spends no identity. -/
theorem spent_modify (id id' : NodeId) (f : α → α) : (a.modify id' f).Spent id ↔ a.Spent id := by
  rw [spent_iff, spent_iff, slot_modify, free_modify]

/-- Changing a tenant keeps identities spent. -/
theorem Spent.modify {id : NodeId} (h : a.Spent id) (id' : NodeId) (f : α → α) :
    (a.modify id' f).Spent id := (spent_modify id id' f).2 h

/-- Removing a tenant keeps identities spent. -/
theorem Spent.remove (ha : a.Valid) {id : NodeId} (h : a.Spent id) (id' : NodeId) :
    (a.remove id').2.Spent id := by
  cases hv : a.get? id' with
  | none =>
    rw [remove_of_none hv]
    exact h
  | some v =>
    have hslot := get?_eq_some.1 hv
    have hlt := (Array.getElem?_eq_some_iff.1 hslot).1
    by_cases hid : id = id'
    · subst hid
      exact spent_remove ha hv
    obtain ⟨s, hs, hcase⟩ := h
    by_cases hi : id'.index = id.index
    · -- another identity of the slot that is emptied
      rw [hi, hs, Option.some.injEq] at hslot
      rw [hslot] at hcase
      have hlater : id.generation < id'.generation := by
        rcases hcase with hcase | ⟨-, hcase, -⟩
        · exact hcase
        · cases hcase
      obtain ⟨g, hg, hslots⟩ := slots_remove hv
      refine ⟨⟨g, none⟩, ?_, Or.inl (UInt32.lt_of_lt_of_le hlater hg)⟩
      rw [hslots, Array.getElem?_setIfInBounds, if_pos (by rw [hi]), if_pos (hi ▸ hlt)]
    · have hne : id'.index.toNat ≠ id.index.toNat := fun h => hi (UInt32.toNat_inj.1 h)
      unfold Spent
      rcases remove_cases hv with ⟨-, heq⟩ | ⟨-, heq⟩
      · rw [heq, Array.getElem?_setIfInBounds, if_neg hne]
        refine ⟨s, hs, hcase.imp_right fun ⟨hg, hv, hfree⟩ => ⟨hg, hv, ?_⟩⟩
        exact fun hmem => (List.mem_cons.1 hmem).elim (fun h => hi h.symm) hfree
      · rw [heq, Array.getElem?_setIfInBounds, if_neg hne]
        exact ⟨s, hs, hcase⟩

/-- Adding a tenant keeps identities spent. -/
theorem Spent.insert (ha : a.Valid) {id : NodeId} (h : a.Spent id) (v : α) :
    (a.insert v).2.Spent id := by
  obtain ⟨s, hs, hcase⟩ := h
  obtain ⟨hlt, -⟩ := Array.getElem?_eq_some_iff.1 hs
  rcases insert_cases ha v with ⟨i, rest, t, hfree, ht, hv, heq⟩ | ⟨-, heq⟩
  · rw [heq]
    by_cases hi : i.toNat = id.index.toNat
    · rw [hi, hs, Option.some.injEq] at ht
      subst ht
      refine ⟨⟨s.generation, some v⟩, ?_, hcase.imp_right fun ⟨_, _, hout⟩ => ?_⟩
      · rw [hi, Array.getElem?_setIfInBounds, if_pos rfl, if_pos hlt]
      · refine absurd ?_ hout
        rw [hfree, UInt32.toNat_inj.1 hi]
        exact List.mem_cons_self
    · refine ⟨s, ?_, hcase.imp_right fun ⟨hg, hsv, hout⟩ => ⟨hg, hsv, fun hmem => hout ?_⟩⟩
      · rw [Array.getElem?_setIfInBounds, if_neg hi, hs]
      · rw [hfree]
        exact List.mem_cons_of_mem i hmem
  · rw [heq]
    refine ⟨s, ?_, hcase⟩
    rw [Array.getElem?_push, if_neg (Nat.ne_of_lt hlt), hs]

/-- The identity of a new tenant was not spent. -/
theorem not_spent_insert (ha : a.Valid) (hroom : a.Roomy) (v : α) :
    ¬ a.Spent (a.insert v).1 := by
  rintro ⟨s, hs, hcase⟩
  rcases insert_cases ha v with ⟨i, rest, t, hfree, ht, -, heq⟩ | ⟨-, heq⟩
  · rw [heq] at hs hcase
    rw [ht, Option.some.injEq] at hs
    subst hs
    rcases hcase with hlt | ⟨-, -, hout⟩
    · exact UInt32.lt_irrefl _ hlt
    · exact hout (hfree ▸ List.mem_cons_self)
  · rw [heq] at hs
    simp only [hroom.toNat_size, Array.getElem?_size, reduceCtorEq] at hs

end Arena
end ReactiveView
