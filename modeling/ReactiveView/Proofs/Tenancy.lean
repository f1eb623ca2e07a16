import ReactiveView.Proofs.Arena
import Mathlib.Data.List.Pairwise

/-!
# Tenants and their identities

Tenants move into an arena, are changed and leave it, in any order and as often as slots have
generations. What the arena then says of an identity is said of the history of these events
(`Arena.houses_tenants`): the identity is that of one tenant, which is found as it was last changed
from the moment when it moves in until it leaves, and never after that.

Histories list the newest event first. The invariant of a run (`Arena.Houses`) is that every
identity that was given out has a tenant or is spent: a new identity is neither, so it is new, and
in a slot that was used before it is of a later generation.
-/

namespace ReactiveView
namespace Arena

variable {α : Type}

/-! ## Histories -/

/-- What is done with an arena. -/
inductive Event (α : Type) where
  /-- A tenant moves in. -/
  | insert (v : α)
  /-- The tenant with an identity is to leave. -/
  | remove (id : NodeId)
  /-- The tenant with an identity is changed. -/
  | modify (id : NodeId) (f : α → α)
  /-- The tenant with an identity is asked for. -/
  | get (id : NodeId)
  /-- It is asked whether an identity has a tenant. -/
  | contains (id : NodeId)

namespace Event

/-- What an event makes of an arena. -/
def run (a : Arena α) : Event α → Arena α
  | .insert v => (a.insert v).2
  | .remove id => (a.remove id).2
  | .modify id f => a.modify id f
  | .get _ | .contains _ => a

/-- Whether the tenant with an identity is to leave. -/
def removes (id : NodeId) : Event α → Bool
  | .remove id' => id' = id
  | .insert _ | .modify _ _ | .get _ | .contains _ => false

/-- What an event makes of the tenant with an identity, if it stays. -/
def edit (id : NodeId) : Event α → α → α
  | .modify id' f => if id' = id then f else fun v => v
  | .insert _ | .remove _ | .get _ | .contains _ => fun v => v

end Event

/-- What was done so far, the newest event first. -/
abbrev History (α : Type) := List (Event α)

/-- The arena after what was done. -/
def after : History α → Arena α
  | [] => .empty
  | e :: h => e.run (after h)

/-- The identities that were given to tenants when they moved in, the newest first. -/
def issued : History α → List NodeId
  | [] => []
  | .insert v :: h => ((after h).insert v).1 :: issued h
  | _ :: h => issued h

/-! ## Listing -/

section

variable {a : Arena α}

/-- A tenant is listed from its slot. -/
theorem listed_iff {s : Slot α} {i : Nat} {t : NodeId × α} :
    s.value.map (fun v => ((⟨i.toUInt32, s.generation⟩ : NodeId), v)) = some t ↔
      s.value = some t.2 ∧ t.1 = ⟨i.toUInt32, s.generation⟩ := by
  obtain ⟨id, v⟩ := t
  rw [Option.map_eq_some_iff]
  constructor
  · rintro ⟨w, hw, heq⟩
    obtain ⟨rfl, rfl⟩ := Prod.mk.inj heq
    exact ⟨hw, rfl⟩
  · rintro ⟨hv, rfl⟩
    exact ⟨v, hv, rfl⟩

/-- The index of a slot that there is. -/
theorem Roomy.toNat_index (hroom : a.Roomy) {s : Slot α} {i : Nat}
    (hmem : (s, i) ∈ a.slots.toList.zipIdx) :
    a.slots[i]? = some s ∧ i.toUInt32.toNat = i := by
  have hslot : a.slots[i]? = some s := by
    rw [← Array.getElem?_toList]
    exact List.mem_zipIdx_iff_getElem?.1 hmem
  have hlt := (Array.getElem?_eq_some_iff.1 hslot).1
  exact ⟨hslot, UInt32.toNat_ofNat_of_lt' (Nat.lt_trans hlt hroom)⟩

/-- The tenants that are listed are those that are found. -/
theorem mem_toList (hroom : a.Roomy) {id : NodeId} {v : α} :
    (id, v) ∈ a.toList ↔ a.get? id = some v := by
  rw [get?_eq_some, toList, List.mem_filterMap]
  constructor
  · rintro ⟨⟨s, i⟩, hmem, hlisted⟩
    obtain ⟨hv, rfl⟩ := listed_iff.1 hlisted
    obtain ⟨hslot, hindex⟩ := hroom.toNat_index hmem
    rw [hindex, hslot, ← hv]
  · intro hslot
    refine ⟨(⟨id.generation, some v⟩, id.index.toNat), ?_, listed_iff.2 ⟨rfl, ?_⟩⟩
    · rw [List.mem_zipIdx_iff_getElem?, Array.getElem?_toList]
      exact hslot
    · exact congrArg (NodeId.mk · id.generation) UInt32.ofNat_toNat.symm

/-- The tenants are listed in the order of their slots. -/
theorem pairwise_toList (hroom : a.Roomy) :
    a.toList.Pairwise fun t t' => t.1.index < t'.1.index := by
  have hslots : a.slots.toList.zipIdx.Pairwise fun p q => p.2 < q.2 := by
    rw [← List.pairwise_map (f := Prod.snd), List.zipIdx_map_snd]
    exact List.pairwise_lt_range' 1
  refine List.pairwise_filterMap.2 (hslots.imp_of_mem ?_)
  rintro ⟨s, i⟩ ⟨s', i'⟩ hs hs' hlt t ht t' ht'
  obtain ⟨-, hid⟩ := listed_iff.1 ht
  obtain ⟨-, hid'⟩ := listed_iff.1 ht'
  rw [hid, hid', UInt32.lt_iff_toNat_lt, (hroom.toNat_index hs).2, (hroom.toNat_index hs').2]
  exact hlt

/-- As many tenants are listed as are counted. -/
theorem Valid.length_toList (h : a.Valid) : a.toList.length = a.size := by
  have hslots : (a.slots.toList.zipIdx.map Prod.fst).countP (·.value.isSome) = a.size := by
    rw [List.zipIdx_map_fst, h.size_eq]
  rw [toList, List.length_filterMap_eq_countP, ← hslots, List.countP_map]
  refine List.countP_congr fun p _ => ?_
  rw [Function.comp_apply, Option.isSome_map]

end

/-! ## The invariant -/

/-- Every identity that was given out has a tenant or is spent, and no other one has a tenant. -/
structure Houses (h : History α) (a : Arena α) : Prop where
  /-- The arena is valid. -/
  valid : a.Valid
  /-- What has left will not come back. -/
  known : ∀ id ∈ issued h, a.contains id = true ∨ a.Spent id
  /-- What is there has moved in. -/
  given : ∀ id, a.contains id = true → id ∈ issued h

section

variable {a : Arena α} {h : History α}

/-- Nothing was done. -/
theorem houses_nil : Houses ([] : History α) .empty := ⟨valid_empty, nofun, nofun⟩

/-- Each event leaves the slots there are. -/
theorem Event.size_slots_le_run (e : Event α) : a.slots.size ≤ (e.run a).slots.size := by
  cases e with
  | insert v => exact size_slots_le_insert v
  | remove id => exact Nat.le_of_eq (size_slots_remove id).symm
  | modify id f => exact Nat.le_of_eq (size_slots_modify id f).symm
  | get id | contains id => exact Nat.le_refl _

/-- Before an event there was more room. -/
theorem Roomy.of_run {e : Event α} (hroom : (e.run a).Roomy) : a.Roomy :=
  Nat.lt_of_le_of_lt e.size_slots_le_run hroom

/-- The identity of a new tenant was never given out before. -/
theorem Houses.not_mem_issued (hh : Houses h a) (hroom : a.Roomy) (v : α) :
    (a.insert v).1 ∉ issued h := by
  intro hmem
  rcases hh.known _ hmem with hlive | hspent
  · rw [contains, get?_insert_new hh.valid hroom v] at hlive
    cases hlive
  · exact not_spent_insert hh.valid hroom v hspent

/-- An identity that was given out is of a generation that its slot has reached. -/
theorem Houses.generation_le (hh : Houses h a) {id : NodeId} (hid : id ∈ issued h) :
    ∃ s, a.slots[id.index.toNat]? = some s ∧ id.generation ≤ s.generation := by
  rcases hh.known id hid with hlive | ⟨s, hs, hlt | ⟨heq, -⟩⟩
  · obtain ⟨v, hv⟩ := Option.isSome_iff_exists.1 hlive
    exact ⟨_, get?_eq_some.1 hv, UInt32.le_refl _⟩
  · exact ⟨s, hs, UInt32.le_of_lt hlt⟩
  · exact ⟨s, hs, heq ▸ UInt32.le_refl _⟩

/-- A new tenant in a slot that was used before has the present generation of the slot. -/
theorem generation_insert (hv : a.Valid) (hroom : a.Roomy) (v : α) {s : Slot α}
    (hs : a.slots[(a.insert v).1.index.toNat]? = some s) :
    (a.insert v).1.generation = s.generation := by
  rcases insert_cases hv v with ⟨i, rest, t, -, ht, -, heq⟩ | ⟨-, heq⟩
  · rw [heq] at hs ⊢
    rw [ht] at hs
    exact congrArg Slot.generation (Option.some.inj hs)
  · rw [heq] at hs
    simp only [hroom.toNat_size, Array.getElem?_size, reduceCtorEq] at hs

/-- A new tenant in a slot that was used before is of a later generation. -/
theorem Houses.generation_lt (hh : Houses h a) (hroom : a.Roomy) (v : α) {id : NodeId}
    (hid : id ∈ issued h) (hindex : (a.insert v).1.index = id.index) :
    id.generation < (a.insert v).1.generation := by
  obtain ⟨s, hs, hle⟩ := hh.generation_le hid
  have hgen := generation_insert hh.valid hroom v (hindex ▸ hs)
  refine UInt32.lt_of_le_of_ne (hgen ▸ hle) fun heq => hh.not_mem_issued hroom v ?_
  have hsame : (a.insert v).1 = id := congrArg₂ NodeId.mk hindex heq.symm
  rwa [hsame]

/-- Whoever is there after an event was there before, unless it moves in by the event. -/
theorem contains_of_run {e : Event α} (hv : a.Valid) (hroom : (e.run a).Roomy) {id : NodeId}
    (hid : (e.run a).contains id = true) :
    a.contains id = true ∨ ∃ v, e = .insert v ∧ id = (a.insert v).1 := by
  unfold contains at hid ⊢
  cases e with
  | insert v =>
    rw [Event.run, get?_insert hv hroom.of_run] at hid
    split at hid
    · rename_i heq
      exact .inr ⟨v, rfl, heq⟩
    · exact .inl hid
  | remove id' =>
    rw [Event.run, get?_remove] at hid
    split at hid
    · cases hid
    · exact .inl hid
  | modify id' f => exact .inl (by rwa [← contains, ← contains_modify id' id f])
  | get id' | contains id' => exact .inl hid

/-- Whoever was there or has left is there or has left after an event. -/
theorem known_run {e : Event α} (hv : a.Valid) (hroom : (e.run a).Roomy) {id : NodeId}
    (hid : a.contains id = true ∨ a.Spent id) :
    (e.run a).contains id = true ∨ (e.run a).Spent id := by
  rcases hid with hlive | hspent
  · obtain ⟨w, hw⟩ := Option.isSome_iff_exists.1 hlive
    cases e with
    | insert v => exact .inl (Option.isSome_iff_exists.2 ⟨w, get?_insert_of_some hv hw v⟩)
    | remove id' =>
      by_cases heq : id = id'
      · subst heq
        exact .inr (spent_remove hv hw)
      · refine .inl ?_
        rw [Event.run, contains, get?_remove, if_neg heq, hw]
        rfl
    | modify id' f => exact .inl ((contains_modify id' id f).trans hlive)
    | get id' | contains id' => exact .inl hlive
  · refine .inr ?_
    cases e with
    | insert v => exact hspent.insert hv v
    | remove id' => exact hspent.remove hv id'
    | modify id' f => exact hspent.modify id' f
    | get id' | contains id' => exact hspent

end

/-- The arena after a history houses those that have moved in. -/
theorem houses_after (h : History α) (hroom : (after h).Roomy) : Houses h (after h) := by
  induction h with
  | nil => exact houses_nil
  | cons e h ih =>
    have hh := ih hroom.of_run
    have hissued (id : NodeId) : id ∈ issued (e :: h) ↔
        id ∈ issued h ∨ ∃ v, e = .insert v ∧ id = ((after h).insert v).1 := by
      cases e <;> simp [issued, or_comm]
    refine ⟨?valid, fun id hid => ?known, fun id hid => ?given⟩
    case valid =>
      cases e with
      | insert v => exact hh.valid.insert v
      | remove id => exact hh.valid.remove id
      | modify id f => exact hh.valid.modify id f
      | get id | contains id => exact hh.valid
    case known =>
      rcases (hissued id).1 hid with hold | ⟨v, rfl, rfl⟩
      · exact known_run hh.valid hroom (hh.known id hold)
      · refine .inl ?_
        rw [after, Event.run, contains, get?_insert_self hh.valid hroom.of_run]
        rfl
    case given =>
      exact (hissued id).2 ((contains_of_run hh.valid hroom hid).imp_left (hh.given id))

/-! ## What an arena says -/

/-- Identities are given out once, and those of one slot in the order of their generations. -/
theorem pairwise_issued (h : History α) (hroom : (after h).Roomy) :
    (issued h).Pairwise fun later earlier => later ≠ earlier ∧
      (later.index = earlier.index → earlier.generation < later.generation) := by
  induction h with
  | nil => exact List.Pairwise.nil
  | cons e h ih =>
    have hrest := ih hroom.of_run
    cases e with
    | insert v =>
      have hh := houses_after h hroom.of_run
      refine List.pairwise_cons.2 ⟨fun id hid => ⟨?_, ?_⟩, hrest⟩
      · rintro rfl
        exact hh.not_mem_issued hroom.of_run v hid
      · exact hh.generation_lt hroom.of_run v hid
    | remove | modify | get | contains => exact hrest

/-- What was given out stays given out. -/
theorem issued_subset (later earlier : History α) : issued earlier ⊆ issued (later ++ earlier) := by
  induction later with
  | nil => exact fun _ hid => hid
  | cons e later ih =>
    cases e with
    | insert v => exact fun _ hid => List.mem_cons_of_mem _ (ih hid)
    | remove | modify | get | contains => exact ih

/-- A tenant is found as it was last changed, until it leaves. -/
theorem get?_after {later earlier : History α} {v : α}
    (hroom : (after (later ++ .insert v :: earlier)).Roomy) :
    let id := ((after earlier).insert v).1
    (after (later ++ .insert v :: earlier)).get? id =
      if later.any (·.removes id) then none else some (later.foldr (·.edit id) v) := by
  intro id
  induction later with
  | nil =>
    have hh := houses_after earlier hroom.of_run
    exact get?_insert_self hh.valid hroom.of_run v
  | cons e later ih =>
    have hroom₁ : (after (later ++ .insert v :: earlier)).Roomy := hroom.of_run
    have hrest := ih hroom₁
    have hh := houses_after _ hroom₁
    have hid : id ∈ issued (later ++ .insert v :: earlier) :=
      issued_subset later _ List.mem_cons_self
    rw [List.cons_append, after, List.any_cons, List.foldr_cons]
    cases e with
    | insert w =>
      -- the tenant is one of those that have moved in, so that it is no new one
      have hne : id ≠ ((after (later ++ .insert v :: earlier)).insert w).1 := fun heq =>
        hh.not_mem_issued hroom₁ w (heq ▸ hid)
      rw [Event.run, get?_insert hh.valid hroom₁, if_neg hne]
      exact hrest
    | remove id' =>
      rw [Event.run, get?_remove, hrest, Event.removes]
      by_cases heq : id' = id
      · simp [heq]
      · simp only [if_neg (Ne.symm heq), decide_eq_false heq, Bool.false_or]
        rfl
    | modify id' f =>
      rw [Event.run, get?_modify, Event.removes, Bool.false_or, Event.edit]
      by_cases heq : id' = id
      · rw [if_pos heq.symm, if_pos heq, heq, hrest]
        split <;> rfl
      · rw [if_neg (Ne.symm heq), if_neg heq]
        exact hrest
    | get id' | contains id' => exact hrest

/-- Whatever is done with an arena, as long as its slots fit into an index. Identities are given out
once and have numbers of their own, from which they are told. An identity that was never given out
has no tenant; one that was given out has the tenant that moved in with it, as it was last changed,
until it leaves, and none from then on. What leaves is the tenant, and where there is none nothing
changes. The tenants are counted, and listed once each in the order of their slots. A slot whose
generations are used up is not used again. -/
theorem houses_tenants (h : History α) (hroom : (after h).Roomy) :
    ((issued h).Nodup ∧ ((issued h).map NodeId.oid).Nodup ∧
      ∀ id : NodeId, NodeId.ofOid id.oid = id) ∧
    (∀ id, (after h).contains id = ((after h).get? id).isSome ∧
      (id ∉ issued h → (after h).get? id = none)) ∧
    (∀ later v earlier, h = later ++ .insert v :: earlier →
      let id := ((after earlier).insert v).1
      (after h).get? id =
        if later.any (·.removes id) then none else some (later.foldr (·.edit id) v)) ∧
    (∀ id, ((after h).remove id).1 = (after h).get? id ∧
      ((after h).get? id = none → (after h).remove id = (none, after h))) ∧
    ((after h).size = (after h).toList.length ∧
      (∀ id v, (id, v) ∈ (after h).toList ↔ (after h).get? id = some v) ∧
      (after h).toList.Pairwise fun t t' => t.1.index < t'.1.index) ∧
    (issued h).Pairwise fun later earlier =>
      earlier.generation.toNat + 1 = UInt32.size → later.index ≠ earlier.index := by
  have hh := houses_after h hroom
  have hissued := pairwise_issued h hroom
  have hnodup : (issued h).Nodup := hissued.imp And.left
  refine ⟨⟨hnodup, hnodup.map NodeId.oid_injective, NodeId.ofOid_oid⟩, fun id => ⟨rfl, ?_⟩, ?_,
    fun id => ⟨remove_fst id, remove_of_none⟩,
    ⟨hh.valid.length_toList.symm, fun id v => mem_toList hroom, pairwise_toList hroom⟩, ?_⟩
  · intro hid
    rw [← Option.not_isSome_iff_eq_none]
    exact fun hlive => hid (hh.given id hlive)
  · rintro later v earlier rfl
    exact get?_after hroom
  · refine hissued.imp fun {later earlier} hlt hlast hindex => ?_
    have hgen := UInt32.lt_iff_toNat_lt.1 (hlt.2 hindex)
    have hbound := later.generation.toNat_lt_size
    omega

/-- A slot is used by two tenants in turn, of which the second is changed. -/
theorem houses_tenants_reused :
    let h : History String := [.modify ⟨0, 1⟩ (· ++ "b"), .insert "b", .remove ⟨0, 0⟩, .insert "a"]
    (after h).Roomy ∧ issued h = [⟨0, 1⟩, ⟨0, 0⟩] ∧ (after h).get? ⟨0, 1⟩ = some "bb" ∧
      (after h).get? ⟨0, 0⟩ = none ∧ (after h).remove ⟨0, 0⟩ = (none, after h) := by
  intro h
  have hslots : (after h).slots.size < UInt32.size := by decide +kernel
  have hroom : (after h).Roomy := hslots
  obtain ⟨-, -, hfound, hremoved, -⟩ := houses_tenants h hroom
  have hsecond := hfound [.modify ⟨0, 1⟩ (· ++ "b")] "b" [.remove ⟨0, 0⟩, .insert "a"] rfl
  have hfirst := hfound [.modify ⟨0, 1⟩ (· ++ "b"), .insert "b", .remove ⟨0, 0⟩] "a" [] rfl
  exact ⟨hroom, rfl, hsecond, hfirst, (hremoved ⟨0, 0⟩).2 hfirst⟩

end Arena
end ReactiveView
