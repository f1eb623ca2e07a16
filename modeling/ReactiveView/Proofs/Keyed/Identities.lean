import ReactiveView.Proofs.Keyed.Reconciling

/-!
# Identities and instances

When the items of a loop are told apart. Values without doubles that hold neither a map nor a callable
have the same key exactly when operators take them as equal (`Value.key?_eq_iff`); any other value is
told apart by its text (`Value.token`). The instances of a loop are those of its distinct identities,
each for the first item that has it, both when the loop is built and when it is brought in line with
new items (`Render.Instantiates`).
-/

namespace ReactiveView

namespace Value

/-! ## Keys and equality -/

mutual

/-- Whether there is no double in a value. -/
def floatless : Value → Bool
  | float _ => false
  | list items => floatlessItems items
  | map ⟨entries⟩ => floatlessEntries entries
  | _ => true
termination_by structural v => v

/-- Whether there is no double in items. -/
def floatlessItems : List Value → Bool
  | [] => true
  | item :: items => floatless item && floatlessItems items
termination_by structural items => items

/-- Whether there is no double in the values of entries. -/
def floatlessEntries : List (String × Value) → Bool
  | [] => true
  | (_, v) :: entries => floatless v && floatlessEntries entries
termination_by structural entries => entries

end

mutual

/-- Whether a value holds neither a map nor a callable. -/
def keyable : Value → Bool
  | map _ | func _ | builtin _ => false
  | list items => keyableItems items
  | _ => true
termination_by structural v => v

/-- Whether items hold neither a map nor a callable. -/
def keyableItems : List Value → Bool
  | [] => true
  | item :: items => keyable item && keyableItems items
termination_by structural items => items

end

mutual

/-- A value has a key of its own unless it holds a map or a callable. -/
theorem isSome_key? : (v : Value) → v.key?.isSome = v.keyable
  | list items => by
    rw [key?, keyable, Option.isSome_map, isSome_keys? items]
  | null | bool _ | int _ | float _ | str _ | map _ | node _ | func _ | builtin _ => rfl

/-- Items have keys of their own unless they hold a map or a callable. -/
theorem isSome_keys? : (vs : List Value) → (keys? vs).isSome = keyableItems vs
  | [] => rfl
  | v :: vs => by
    rw [keys?, keyableItems, ← isSome_key? v, ← isSome_keys? vs]
    cases v.key? with
    | none => rfl
    | some k => exact Option.isSome_map

end

/-- The first item and the others have keys. -/
theorem exists_keys {v : Value} {vs : List Value} (h : keyableItems (v :: vs) = true) :
    (∃ key, v.key? = some key) ∧ ∃ keys, keys? vs = some keys := by
  rw [keyableItems, Bool.and_eq_true, ← isSome_key?, ← isSome_keys?] at h
  exact h.imp Option.isSome_iff_exists.1 Option.isSome_iff_exists.1

mutual

/-- Values with keys of their own have the same key exactly when they are equal. -/
theorem key?_eq_iff : ∀ {v w : Value}, v.floatless = true → w.floatless = true →
    v.keyable = true → w.keyable = true → (v.key? = w.key? ↔ v.same w = true)
  | null, w, _, hw, _, hk | bool _, w, _, hw, _, hk | int _, w, _, hw, _, hk
  | str _, w, _, hw, _, hk | node _, w, _, hw, _, hk => by
    cases w <;> simp_all [key?, same, floatless, keyable]
  | list vs, w, hv, hw, hkv, hkw => by
    cases w with
    | list ws =>
      rw [floatless] at hv hw
      rw [keyable] at hkv hkw
      rw [key?, key?, same, ← keys?_eq_iff hv hw hkv hkw]
      exact Option.map_inj_right fun _ _ h => Key.list.inj h
    | _ => simp_all [key?, same, floatless, keyable]
  | float _, _, hv, _, _, _ => by cases hv
  | map _, _, _, _, hk, _ | func _, _, _, _, hk, _ | builtin _, _, _, _, hk, _ => by cases hk

/-- Items with keys of their own have the same keys exactly when they are equal in turn. -/
theorem keys?_eq_iff : ∀ {vs ws : List Value}, floatlessItems vs = true →
    floatlessItems ws = true → keyableItems vs = true → keyableItems ws = true →
      (keys? vs = keys? ws ↔ sameItems vs ws = true)
  | [], ws, _, _, _, hk => by
    cases ws with
    | nil => simp [sameItems]
    | cons w ws =>
      obtain ⟨⟨key, hkey⟩, keys, hkeys⟩ := exists_keys hk
      simp [keys?, hkey, hkeys, sameItems]
  | v :: vs, ws, hv, hw, hk, hk' => by
    obtain ⟨⟨key, hkey⟩, keys, hkeys⟩ := exists_keys hk
    cases ws with
    | nil => simp [keys?, hkey, hkeys, sameItems]
    | cons w ws =>
      obtain ⟨⟨key', hkey'⟩, keys', hkeys'⟩ := exists_keys hk'
      rw [floatlessItems, Bool.and_eq_true] at hv hw
      rw [keyableItems, Bool.and_eq_true] at hk hk'
      rw [sameItems, Bool.and_eq_true, ← key?_eq_iff hv.1 hw.1 hk.1 hk'.1,
        ← keys?_eq_iff hv.2 hw.2 hk.2 hk'.2]
      simp [keys?, hkey, hkeys, hkey', hkeys']

end

variable {v w : Value}

/-- What tells an item with this identity from the others. -/
def itemKey (v : Value) : Key := v.key?.getD (.str v.display)

/-- What an identity counts as: itself, or its text if it holds a map or a callable. -/
def token (v : Value) : Value := if v.keyable then v else .str v.display

/-- An identity that holds neither a map nor a callable counts as itself. -/
theorem token_of_keyable (h : v.keyable = true) : v.token = v := if_pos h

/-- What an identity counts as has a key of its own. -/
theorem keyable_token (v : Value) : v.token.keyable = true := by
  unfold token
  split
  · assumption
  · rfl

/-- What an identity counts as holds no double if the identity holds none. -/
theorem floatless_token (h : v.floatless = true) : v.token.floatless = true := by
  unfold token
  split
  · exact h
  · rfl

/-- An item is told from others by the key of what its identity counts as. -/
theorem key?_token (v : Value) : v.token.key? = some v.itemKey := by
  unfold token itemKey
  split
  · rename_i hv
    rw [← isSome_key?] at hv
    obtain ⟨key, hkey⟩ := Option.isSome_iff_exists.1 hv
    rw [hkey]
    rfl
  · rename_i hv
    rw [← isSome_key?, Option.not_isSome_iff_eq_none] at hv
    rw [hv]
    rfl

/-- Items have the same key exactly when their identities count as equal values. -/
theorem itemKey_eq_iff (hv : v.floatless = true) (hw : w.floatless = true) :
    v.itemKey = w.itemKey ↔ v.token.same w.token = true := by
  rw [← key?_eq_iff (floatless_token hv) (floatless_token hw) (keyable_token v) (keyable_token w),
    key?_token, key?_token, Option.some.injEq]

end Value

/-! ## First occurrences -/

/-- The different images of items are the images of the items that differ in their images. -/
theorem List.eraseDups_map {α β : Type} [DecidableEq β] (f : α → β) : (xs : List α) →
    (xs.map f).eraseDups = (xs.eraseDupsBy fun a b => f a == f b).map f
  | [] => rfl
  | x :: xs => by
    have hfilter : (xs.map f).filter (fun b => !b == f x) =
        (xs.filter fun b => (f b == f x) = false).map f := by
      rw [List.filter_map]
      exact congrArg (List.map f) (List.filter_congr fun b _ => Bool.decide_eq_false.symm)
    rw [List.map_cons, List.eraseDups_cons, List.eraseDupsBy_cons, List.map_cons, hfilter,
      eraseDups_map f]
termination_by xs => xs.length
decreasing_by exact Nat.lt_succ_of_le (List.length_filter_le _ xs)

/-- Which items differ is a matter of how they are compared with each other. -/
theorem List.eraseDupsBy_congr {α : Type} {r r' : α → α → Bool} : (xs : List α) →
    (∀ a ∈ xs, ∀ b ∈ xs, r a b = r' a b) → xs.eraseDupsBy r = xs.eraseDupsBy r'
  | [], _ => rfl
  | x :: xs, h => by
    have hfilter : (xs.filter fun b => r b x = false) = xs.filter fun b => r' b x = false :=
      List.filter_congr fun b hb => by
        rw [h b (List.mem_cons_of_mem x hb) x List.mem_cons_self]
    have hmem {a : α} (ha : a ∈ xs.filter fun b => r' b x = false) : a ∈ x :: xs :=
      List.mem_cons_of_mem x (List.mem_of_mem_filter ha)
    rw [List.eraseDupsBy_cons, List.eraseDupsBy_cons, hfilter,
      eraseDupsBy_congr _ fun a ha b hb => h a (hmem ha) b (hmem hb)]
termination_by xs => xs.length
decreasing_by exact Nat.lt_succ_of_le (List.length_filter_le _ xs)

namespace Render

open Act

/-! ## Instances for items -/

/-- An instance shows an item with an identity at a place: it was built for the item, or it was there
before and is bound to the item now. -/
inductive Shows (re : Reentry) (recursive : Bool) (spec : LoopSpec) (c : Cursor)
    (old : OrderedMap Key Instance) (place : Nat) (item identity : Value) : Instance → Prop where
  /-- It was built. -/
  | built {e e' : Engine} {inst : Instance} (hnone : old.get? identity.itemKey = none)
      (h : (buildInstance re spec c item place (some identity)).Gives e (.ok inst) e') :
      Shows re recursive spec c old place item identity inst
  /-- It was there before. -/
  | kept {e e' : Engine} {inst : Instance} (hold : old.get? identity.itemKey = some inst)
      (h : (keepInstance re spec c inst item place identity recursive).Gives e (.ok ()) e') :
      Shows re recursive spec c old place item identity inst

/-- A value is the identity of an item: its key and it were found for the item. -/
def Identifies (re : Reentry) (spec : LoopSpec) (c : Cursor) (item identity : Value) : Prop :=
  ∃ e e', (loopKey re spec c item).Gives e (.ok (identity.itemKey, identity)) e'

/-- The instances that a loop has for its items, of which `identities` are the identities. Two items
are shown as one if their identities are `alike`. The loop had the instances `old` before. -/
structure Instantiates (re : Reentry) (recursive : Bool) (spec : LoopSpec) (c : Cursor)
    (old : OrderedMap Key Instance) (alike : Value → Value → Bool) (items identities : List Value)
    (instances : OrderedMap Key Instance) : Prop where
  /-- Every item has its identity. -/
  identified : List.Forall₂ (Identifies re spec c) items identities
  /-- There is one instance for each identity that differs from all before it, in their order. -/
  keys : instances.keys = (identities.eraseDupsBy alike).map Value.itemKey
  /-- No two instances have one key. -/
  distinct : instances.Distinct
  /-- An item whose identity differs from all before it is shown by the instance of its identity. -/
  shown : ∀ (i : Nat) item identity, items[i]? = some item → identities[i]? = some identity →
    (∀ j < i, ∀ earlier, identities[j]? = some earlier → alike earlier identity = false) →
      ∃ inst, instances.get? identity.itemKey = some inst ∧
        Shows re recursive spec c old (instances.keys.idxOf identity.itemKey) item identity inst

variable {re : Reentry} {recursive : Bool} {spec : LoopSpec} {c : Cursor} {items : List Value}
  {old instances all : OrderedMap Key Instance} {e e' : Engine}

/-- The key of an item is that of its identity. -/
theorem loopKey_gives {item identity : Value} {key : Key}
    (h : (loopKey re spec c item).Gives e (.ok (key, identity)) e') : key = identity.itemKey := by
  unfold loopKey at h
  split at h
  · cases (of_gives_pure_ok h).1
    rfl
  · rw [gives_step_bind] at h
    obtain ⟨v, e₁, -, h⟩ := of_gives_bind_ok h
    cases (of_gives_pure_ok h).1
    rfl

/-- Items with what was found for them. -/
def findings (items identities : List Value) : List ((Key × Value) × Value) :=
  (identities.map fun v => (v.itemKey, v)).zip items

theorem findings_cons (item identity : Value) (items identities : List Value) :
    findings (item :: items) (identity :: identities) =
      ((identity.itemKey, identity), item) :: findings items identities := rfl

/-- The keys that were found are those of the identities. -/
theorem keys_findings {items identities : List Value} (h : items.length = identities.length) :
    (findings items identities).map (·.1.1) = identities.map Value.itemKey := by
  have hzip : ((identities.map fun v => (v.itemKey, v)).zip items).map Prod.fst =
      identities.map fun v => (v.itemKey, v) :=
    List.map_fst_zip (by rw [List.length_map, h])
  calc (findings items identities).map (·.1.1)
      = ((findings items identities).map Prod.fst).map Prod.fst := List.map_map.symm
    _ = identities.map Value.itemKey := by rw [findings, hzip, List.map_map]; rfl

/-- What was found for an item is at the place of the item. -/
theorem getElem?_findings {items identities : List Value} {i : Nat} {item identity : Value}
    (hitem : items[i]? = some item) (hidentity : identities[i]? = some identity) :
    (findings items identities)[i]? = some ((identity.itemKey, identity), item) := by
  rw [findings, List.getElem?_zip_eq_some, List.getElem?_map, hidentity]
  exact ⟨rfl, hitem⟩

/-- Taking first items adds entries at the end. -/
theorem entries_foldl_firstOf (found : List ((Key × Value) × Value)) :
    ∀ wanted : OrderedMap Key (Value × Value),
      ∃ new, (found.foldl firstOf wanted).entries = wanted.entries ++ new := by
  induction found with
  | nil => exact fun wanted => ⟨[], (List.append_nil _).symm⟩
  | cons p found ih =>
    intro wanted
    obtain ⟨new, hnew⟩ := ih (firstOf wanted p)
    rw [List.foldl_cons, hnew]
    unfold firstOf
    split
    · exact ⟨new, rfl⟩
    · rename_i hkey
      rw [OrderedMap.entries_insert_of_not_contains (Bool.not_eq_true _ ▸ hkey), List.append_assoc]
      exact ⟨_, rfl⟩

/-- If nothing is taken before, the keys that are taken are those that were found. -/
theorem keys_firsts (found : List ((Key × Value) × Value)) :
    (found.foldl firstOf .empty).keys = (found.map (·.1.1)).eraseDups := by
  have hall : (found.map (·.1.1)).filter (fun key =>
      !(OrderedMap.empty : OrderedMap Key (Value × Value)).contains key) = found.map (·.1.1) :=
    List.filter_eq_self.2 fun _ _ => rfl
  rw [keys_foldl_firstOf, hall]
  rfl

/-- The first items are taken under keys that differ from each other. -/
theorem distinct_foldl_firstOf (found : List ((Key × Value) × Value)) :
    ∀ {wanted : OrderedMap Key (Value × Value)}, wanted.Distinct →
      (found.foldl firstOf wanted).Distinct := by
  induction found with
  | nil => exact fun h => h
  | cons p found ih =>
    intro wanted h
    rw [List.foldl_cons]
    refine ih ?_
    unfold firstOf
    split
    · exact h
    · exact h.insert _ _

/-- Maps with the same keys have as many entries. -/
theorem size_of_keys {κ α β : Type} {m : OrderedMap κ α} {m' : OrderedMap κ β}
    (h : m.keys = m'.keys) : m.size = m'.size := by
  have hlength := congrArg List.length h
  rwa [OrderedMap.keys, OrderedMap.keys, List.length_map, List.length_map] at hlength

/-- The instances of a loop that is built are those of the first items of their keys. -/
theorem buildKeyed_gives (recursive : Bool) (items : List Value) :
    ∀ {acc all : OrderedMap Key Instance} {wanted : OrderedMap Key (Value × Value)}
      {e e' : Engine}, acc.keys = wanted.keys →
      (buildKeyed re spec c items acc).Gives e (.ok all) e' →
        ∃ identities, List.Forall₂ (Identifies re spec c) items identities ∧
          all.keys = ((findings items identities).foldl firstOf wanted).keys ∧
          (∀ key inst, acc.get? key = some inst → all.get? key = some inst) ∧
          ∀ place key identity item, acc.size ≤ place →
            ((findings items identities).foldl firstOf wanted).entries[place]? =
              some (key, identity, item) →
            ∃ inst, all.get? key = some inst ∧
              Shows re recursive spec c .empty place item identity inst := by
  induction items with
  | nil =>
    intro acc all wanted e e' hkeys h
    obtain ⟨rfl, -⟩ := of_gives_pure_ok h
    refine ⟨[], .nil, hkeys, fun _ _ => id, fun place key identity item hplace hentry => ?_⟩
    have hlt : place < wanted.size := (List.getElem?_eq_some_iff.1 hentry).1
    exact absurd (hlt.trans_le ((size_of_keys hkeys).symm.trans_le hplace)) (Nat.lt_irrefl place)
  | cons item items ih =>
    intro acc all wanted e e' hkeys h
    obtain ⟨⟨key, identity⟩, e₁, hkey, h⟩ := of_gives_bind_ok h
    obtain rfl := loopKey_gives hkey
    have hcontains : wanted.contains identity.itemKey = acc.contains identity.itemKey := by
      rw [Bool.eq_iff_iff, OrderedMap.contains_iff, OrderedMap.contains_iff, hkeys]
    dsimp only at h
    split at h
    · -- the key is there already, and nothing is built
      rename_i hold
      obtain ⟨identities, hrest, hshown⟩ := ih hkeys h
      have hfirst : firstOf wanted ((identity.itemKey, identity), item) = wanted :=
        if_pos (hcontains.trans hold)
      refine ⟨identity :: identities, .cons ⟨e, e₁, hkey⟩ hrest, ?_⟩
      rw [findings_cons, List.foldl_cons, hfirst]
      exact hshown
    · -- the key is new, and its instance goes behind the others
      rename_i hnew
      rw [Bool.not_eq_true] at hnew
      obtain ⟨built, e₂, hbuilt, h⟩ := of_gives_bind_ok h
      have hfirst : firstOf wanted ((identity.itemKey, identity), item) =
          wanted.insert identity.itemKey (identity, item) :=
        if_neg (by rw [hcontains, hnew]; exact Bool.false_ne_true)
      have hkeys' : (acc.insert identity.itemKey built).keys =
          (wanted.insert identity.itemKey (identity, item)).keys := by
        rw [OrderedMap.keys_insert, OrderedMap.keys_insert, hkeys]
      obtain ⟨identities, hrest, hall, hkept, hshown⟩ := ih hkeys' h
      refine ⟨identity :: identities, .cons ⟨e, e₁, hkey⟩ hrest, ?_⟩
      rw [findings_cons, List.foldl_cons, hfirst]
      refine ⟨hall, fun key inst hget => hkept key inst ?_, ?_⟩
      · have hne : key ≠ identity.itemKey := by
          rintro rfl
          rw [OrderedMap.contains, hget] at hnew
          cases hnew
        rwa [OrderedMap.get?_insert_of_ne _ hne]
      · intro place key identity' item' hplace hentry
        have hadded := wanted.entries_insert_of_not_contains (hcontains.trans hnew) (identity, item)
        obtain ⟨new, hentries⟩ := entries_foldl_firstOf (findings items identities)
          (wanted.insert identity.itemKey (identity, item))
        rcases Nat.eq_or_lt_of_le hplace with rfl | hplace
        · -- the item itself is the next to be taken
          rw [hentries, hadded, List.append_assoc, size_of_keys hkeys, OrderedMap.size,
            List.getElem?_append_right (Nat.le_refl _), Nat.sub_self] at hentry
          cases hentry
          exact ⟨built, hkept _ _ (OrderedMap.get?_insert_self _ _ _), .built rfl hbuilt⟩
        · refine hshown place key identity' item' ?_ hentry
          rwa [OrderedMap.size, acc.entries_insert_of_not_contains hnew, List.length_append]

/-- The instances of the first items of all keys are instances for the items. -/
theorem Instantiates.of_firsts {identities : List Value}
    (hidentified : List.Forall₂ (Identifies re spec c) items identities)
    (hkeys : instances.keys = ((findings items identities).foldl firstOf .empty).keys)
    (hshown : ∀ place key identity item,
      ((findings items identities).foldl firstOf .empty).entries[place]? =
        some (key, identity, item) →
      ∃ inst, instances.get? key = some inst ∧
        Shows re recursive spec c old place item identity inst) :
    Instantiates re recursive spec c old (fun v w => v.itemKey == w.itemKey) items identities
      instances := by
  have hdistinct : ((findings items identities).foldl firstOf .empty).Distinct :=
    distinct_foldl_firstOf _ List.nodup_nil
  exact {
    identified := hidentified
    keys := by
      rw [hkeys, keys_firsts, keys_findings hidentified.length_eq, List.eraseDups_map]
    distinct := by
      unfold OrderedMap.Distinct
      rw [hkeys]
      exact hdistinct
    shown := by
      intro i item identity hitem hidentity hfirst
      have hfound : (findings items identities).find? (·.1.1 == identity.itemKey) =
          some ((identity.itemKey, identity), item) := by
        obtain ⟨hlt, hi⟩ := List.getElem?_eq_some_iff.1 (getElem?_findings hitem hidentity)
        refine List.find?_eq_some_iff_getElem.2 ⟨beq_self_eq_true _, i, hlt, hi, fun j hj => ?_⟩
        obtain ⟨⟨⟨key, earlier⟩, item'⟩, hj'⟩ : ∃ p, (findings items identities)[j]? = some p :=
          ⟨_, List.getElem?_eq_getElem (hj.trans hlt)⟩
        obtain ⟨hp, -⟩ := List.getElem?_zip_eq_some.1 hj'
        rw [List.getElem?_map, Option.map_eq_some_iff] at hp
        obtain ⟨_, hearlier, hp⟩ := hp
        cases hp
        rw [(List.getElem?_eq_some_iff.1 hj').2, hfirst j hj earlier hearlier]
        rfl
      have hget : ((findings items identities).foldl firstOf .empty).get? identity.itemKey =
          some (identity, item) := by
        rw [get?_foldl_firstOf, hfound]
        rfl
      rw [hkeys]
      exact hshown _ _ _ _ (OrderedMap.getElem?_idxOf _ hdistinct hget)
  }

/-- How identities are compared matters for the identities that occur only. -/
theorem Instantiates.congr {identities : List Value} {alike alike' : Value → Value → Bool}
    (h : Instantiates re recursive spec c old alike items identities instances)
    (halike : ∀ v ∈ identities, ∀ w ∈ identities, alike v w = alike' v w) :
    Instantiates re recursive spec c old alike' items identities instances where
  identified := h.identified
  keys := by rw [h.keys, List.eraseDupsBy_congr identities halike]
  distinct := h.distinct
  shown i item identity hitem hidentity hfirst :=
    h.shown i item identity hitem hidentity fun j hj earlier hearlier =>
      (halike earlier (List.mem_of_getElem? hearlier) identity
        (List.mem_of_getElem? hidentity)).trans (hfirst j hj earlier hearlier)

/-- The wanted items are the first items of the keys of their identities. -/
theorem wantedItems_identified (items : List Value) :
    ∀ {acc wanted : OrderedMap Key (Value × Value)} {e e' : Engine},
      (wantedItems re spec c items acc).Gives e (.ok wanted) e' →
        ∃ identities, List.Forall₂ (Identifies re spec c) items identities ∧
          wanted = (findings items identities).foldl firstOf acc := by
  induction items with
  | nil =>
    intro acc wanted e e' h
    obtain ⟨rfl, -⟩ := of_gives_pure_ok h
    exact ⟨[], .nil, rfl⟩
  | cons item items ih =>
    intro acc wanted e e' h
    obtain ⟨⟨key, identity⟩, e₁, hkey, h⟩ := of_gives_bind_ok h
    obtain rfl := loopKey_gives hkey
    obtain ⟨identities, hrest, rfl⟩ := ih h
    exact ⟨identity :: identities, .cons ⟨e, e₁, hkey⟩ hrest, rfl⟩

/-- Every wanted item stands under the key of its identity. -/
theorem key_of_mem_firsts {identities : List Value} {key : Key} {identity item : Value}
    (h : (key, identity, item) ∈ ((findings items identities).foldl firstOf .empty).entries) :
    key = identity.itemKey := by
  have hget : ((findings items identities).foldl firstOf .empty).get? key = some (identity, item) :=
    OrderedMap.find?_of_mem (distinct_foldl_firstOf _ List.nodup_nil) h
  rw [get?_foldl_firstOf] at hget
  obtain ⟨⟨⟨key', v⟩, item'⟩, hfound, hp⟩ := Option.map_eq_some_iff.1 hget
  have hkey : key' = key := by simpa using List.find?_some hfound
  obtain ⟨v', -, hv⟩ := List.mem_map.1 (List.of_mem_zip (List.mem_of_find?_eq_some hfound)).1
  cases hp
  cases hv
  exact hkey.symm

/-- Arranging shows every wanted item at its place. -/
theorem arrangeInstances_shows (wanted : List (Key × Value × Value)) :
    ∀ {index : Nat} {p : List (Key × Instance) × List NodeId} {e e' : Engine},
      (∀ w ∈ wanted, w.1 = w.2.1.itemKey) →
      (arrangeInstances re spec c recursive old index wanted).Gives e (.ok p) e' →
        ∀ (i : Nat) key identity item, wanted[i]? = some (key, identity, item) →
          ∃ inst, (key, inst) ∈ p.1 ∧
            Shows re recursive spec c old (index + i) item identity inst := by
  induction wanted with
  | nil => exact fun _ _ i key identity item hi => by cases hi
  | cons w wanted ih =>
    intro index p e e' hkeys h i key identity item hi
    obtain ⟨key', identity', item'⟩ := w
    obtain ⟨hkey, hkeys⟩ := List.forall_mem_cons.1 hkeys
    dsimp only at hkey
    -- the items behind the first are shown by the rest
    have hlater {q : List (Key × Instance) × List NodeId} {inst : Instance} {e₁ e₂ : Engine}
        (hrest : (arrangeInstances re spec c recursive old (index + 1) wanted).Gives e₁ (.ok q) e₂)
        {j : Nat} (hj : wanted[j]? = some (key, identity, item)) :
        ∃ inst', (key, inst') ∈ (key', inst) :: q.1 ∧
          Shows re recursive spec c old (index + (j + 1)) item identity inst' := by
      obtain ⟨inst', hmem, hshows⟩ := ih hkeys hrest j key identity item hj
      rw [Nat.add_assoc, Nat.add_comm 1 j] at hshows
      exact ⟨inst', List.mem_cons_of_mem _ hmem, hshows⟩
    unfold arrangeInstances at h
    split at h
    · rename_i kept hkept
      obtain ⟨_, e₁, hkeeps, h⟩ := of_gives_bind_ok h
      obtain ⟨q, e₂, hrest, h⟩ := of_gives_bind_ok h
      obtain ⟨rfl, -⟩ := of_gives_pure_ok h
      cases i with
      | zero =>
        cases hi
        exact ⟨kept, List.mem_cons_self, .kept (hkey ▸ hkept) hkeeps⟩
      | succ j => exact hlater hrest hi
    · rename_i hnone
      obtain ⟨inst, e₁, hbuilt, h⟩ := of_gives_bind_ok h
      obtain ⟨q, e₂, hrest, h⟩ := of_gives_bind_ok h
      obtain ⟨rfl, -⟩ := of_gives_pure_ok h
      cases i with
      | zero =>
        cases hi
        exact ⟨inst, List.mem_cons_self, .built (hkey ▸ hnone) hbuilt⟩
      | succ j => exact hlater hrest hi

/-- The instances after arranging are instances for the items. -/
theorem instantiates_arranged {wanted : OrderedMap Key (Value × Value)} {moved : List NodeId}
    {e₁ e₂ e₃ : Engine}
    (hwanted : (wantedItems re spec c items .empty).Gives e (.ok wanted) e₁)
    (harranged : (arrangeInstances re spec c recursive old 0 wanted.entries).Gives e₂
      (.ok (instances.entries, moved)) e₃) :
    ∃ identities, Instantiates re recursive spec c old (fun v w => v.itemKey == w.itemKey) items
      identities instances := by
  obtain ⟨identities, hidentified, rfl⟩ := wantedItems_identified items hwanted
  have hkeys : instances.keys = ((findings items identities).foldl firstOf .empty).keys :=
    (arrangeInstances_gives recursive _ harranged).keys
  have hdistinct : instances.Distinct := by
    unfold OrderedMap.Distinct
    rw [hkeys]
    exact distinct_foldl_firstOf _ List.nodup_nil
  refine ⟨identities, .of_firsts hidentified hkeys fun place key identity item hentry => ?_⟩
  obtain ⟨inst, hmem, hshows⟩ := arrangeInstances_shows _
    (fun w hw => key_of_mem_firsts hw) harranged place key identity item hentry
  rw [Nat.zero_add] at hshows
  exact ⟨inst, OrderedMap.find?_of_mem hdistinct hmem, hshows⟩

/-! ## Loops -/

/-- After its items were gone through, a loop has one instance for each distinct identity of its items.
It had the instances `old` and the children `before`. -/
structure ShowsOnce (re : Reentry) (recursive : Bool) (spec : LoopSpec) (c : Cursor)
    (old : OrderedMap Key Instance) (before : List NodeId) (items identities : List Value)
    (instances : OrderedMap Key Instance) (e e' : Engine) : Prop where
  /-- There is an instance for each key. -/
  byKey : Instantiates re recursive spec c old (fun v w => v.itemKey == w.itemKey) items identities
    instances
  /-- Without doubles, there is one for each value that is different from all before it, where a value
  that holds a map or a callable counts as its text. -/
  byToken : (∀ v ∈ identities, v.floatless = true) →
    Instantiates re recursive spec c old (fun v w => v.token.same w.token) items identities instances
  /-- Without doubles, maps and callables, there is one for each value that is different from all
  before it. -/
  byValue : (∀ v ∈ identities, v.floatless = true ∧ v.keyable = true) →
    Instantiates re recursive spec c old Value.same items identities instances
  /-- The loop keeps the instances. -/
  state : ∀ n data, e'.node? c.parent = some n → n.kind = .loop data →
    data.state = .keyed instances
  /-- In a tree that is in order, what is left of the nodes of the instances is what is shown. -/
  children : e.Stands c.parent → e'.entries = 0 → e'.nodes.Roomy → instances.keys ≠ [] →
    e'.childrenOf c.parent = before ++ instances.nodes.filter e'.contains

variable {identities : List Value} {before : List NodeId}

/-- Instances by keys are instances by values, where there are no doubles. -/
theorem Instantiates.showsOnce
    (h : Instantiates re recursive spec c old (fun v w => v.itemKey == w.itemKey) items identities
      instances)
    (hstate : ∀ n data, e'.node? c.parent = some n → n.kind = .loop data →
      data.state = .keyed instances)
    (hchildren : e.Stands c.parent → e'.entries = 0 → e'.nodes.Roomy → instances.keys ≠ [] →
      e'.childrenOf c.parent = before ++ instances.nodes.filter e'.contains) :
    ShowsOnce re recursive spec c old before items identities instances e e' := by
  have htoken {v w : Value} (hv : v.floatless = true) (hw : w.floatless = true) :
      (v.itemKey == w.itemKey) = v.token.same w.token := by
    rw [Bool.eq_iff_iff, beq_iff_eq, Value.itemKey_eq_iff hv hw]
  exact {
    byKey := h
    byToken := fun hfloatless => h.congr fun v hv w hw => htoken (hfloatless v hv) (hfloatless w hw)
    byValue := fun hplain => h.congr fun v hv w hw => by
      rw [htoken (hplain v hv).1 (hplain w hw).1, Value.token_of_keyable (hplain v hv).2,
        Value.token_of_keyable (hplain w hw).2]
    state := hstate
    children := hchildren
  }

/-- A loop that is finished keeps what it was built from. -/
theorem finishLoop_state {id : NodeId} {state : LoopState} {n : RenderNode} {data : LoopData}
    (h : (finishLoop re id spec c state).Gives e (.ok ()) e') (hn : e'.node? id = some n)
    (hkind : n.kind = .loop data) : data.state = state := by
  obtain ⟨e₁, rfl, -⟩ := finishLoop_gives h
  rw [Engine.modifyKind, Engine.node?_modifyNode, if_pos rfl] at hn
  obtain ⟨m, -, rfl⟩ := Option.map_eq_some_iff.1 hn
  dsimp only [keepState] at hkind
  split at hkind
  · cases hkind
    rfl
  · cases m.kind <;> simp_all

variable {depth : Nat} {id : NodeId}

/-- Building a loop adds the nodes of its instances to its children. -/
theorem fillLoop_children {e₁ : Engine} (hstands : e.Stands c.parent)
    (hparts : e.loopParts? c.parent = some (spec, c))
    (hbuilt : (buildKeyed (.within depth) spec c items .empty).Gives e (.ok instances) e₁)
    (hfinished : (finishLoop (.within depth) c.parent spec c (.keyed instances)).Gives e₁
      (.ok ()) e')
    (hcalm : e'.Calm) (hkeys : instances.keys ≠ []) :
    e'.childrenOf c.parent = e.childrenOf c.parent ++ instances.nodes.filter e'.contains := by
  have hbuilds := (Reentry.within_grounded depth).toBuilds
  have hcalm₁ : e₁.Calm := by_contra fun hwild =>
    (finishLoop_does hbuilds c.parent spec c _).calm hfinished hwild hcalm
  have hcalm₀ : e.Calm := by_contra fun hwild =>
    (buildKeyed_does hbuilds spec c items .empty).calm hbuilt hwild hcalm₁
  obtain ⟨hburied, root, -, ht, -⟩ := hstands.order hcalm₀
  obtain ⟨n, data, hn, hdata, -, -, hctx⟩ := Engine.loopParts?_some hparts
  have hadmits : e.view.Admits c := by
    have hnode : n.isContext = false := by
      unfold RenderNode.isContext
      rw [hdata]
      rfl
    exact (View.admits_of_node ht hn hnode c.frame c.ns).congr rfl hctx
  -- what was built is behind the children of before
  obtain ⟨hgrows, hall⟩ :=
    (((buildKeyed_does hbuilds spec c items .empty).gives hbuilt hburied.1).2 hcalm₁).2 hadmits
  obtain ⟨-, new, hnew, hn₁⟩ := hall instances rfl root n ht hn List.nodup_nil
  obtain rfl : instances.nodes = new := hnew
  have hlive (x : NodeId) (hx : x ∈ instances.nodes) : e₁.contains x = true := by
    rw [← Engine.live_view]
    exact View.live_of_child (hgrows root ht).1.tree hn₁ (List.mem_append_right _ hx)
  -- the empty case is not built
  have hsome : (LoopState.keyed instances).isEmpty = false := by
    obtain ⟨_ | ⟨entry, entries⟩⟩ := instances
    · exact absurd rfl hkeys
    · rfl
  obtain ⟨e₂, rfl, hsame, -⟩ := finishLoop_gives hfinished
  obtain rfl := hsame hsome
  rw [Engine.childrenOf_modifyKind, Engine.childrenOf_view hn₁, Engine.childrenOf_view hn,
    List.filter_eq_self.2 fun x hx => (Engine.contains_modifyKind e₂ _ x _).trans (hlive x hx)]

/-- Building a loop shows each identity once. -/
theorem fillLoop_showsOnce (hparts : e.loopParts? c.parent = some (spec, c))
    (hidentity : spec.identity.isSome = true)
    (h : (fillLoop (.within depth) c.parent items).Gives e (.ok ()) e') :
    ∃ identities instances, ShowsOnce (.within depth) false spec c .empty
      (e.childrenOf c.parent) items identities instances e e' := by
  unfold fillLoop at h
  rw [gives_read_bind, hparts] at h
  dsimp only at h
  rw [if_pos hidentity] at h
  obtain ⟨instances, e₁, hbuilt, hfinished⟩ := of_gives_bind_ok h
  have hempty : (OrderedMap.empty : OrderedMap Key Instance).keys =
      (OrderedMap.empty : OrderedMap Key (Value × Value)).keys := rfl
  obtain ⟨identities, hidentified, hkeys, -, hshown⟩ :=
    buildKeyed_gives false items hempty hbuilt
  have hinstantiates : Instantiates (.within depth) false spec c .empty
      (fun v w => v.itemKey == w.itemKey) items identities instances :=
    .of_firsts hidentified hkeys fun place key identity item hentry =>
      hshown place key identity item (Nat.zero_le place) hentry
  exact ⟨identities, instances, hinstantiates.showsOnce
    (fun n data hn hkind => finishLoop_state hfinished hn hkind)
    fun hstands hentries hroom hne =>
      fillLoop_children hstands hparts hbuilt hfinished ⟨hentries, hroom⟩ hne⟩

/-- The parts of a loop are what it is and where it is. -/
theorem of_loopParts? (h : e.loopParts? id = some (spec, c)) : ∃ n data, e.node? id = some n ∧
    n.kind = .loop data ∧ data.spec = spec ∧ c = ⟨id, n.context, n.frame, e.namespaceAt id⟩ := by
  obtain ⟨n, hn, h⟩ := Option.bind_eq_some_iff.1 h
  split at h
  · rename_i data hkind
    obtain ⟨hspec, hc⟩ := Prod.mk.inj (Option.some.inj h)
    exact ⟨n, data, hn, hkind, hspec, hc.symm⟩
  · cases h

/-- Bringing a loop in line with new items shows each identity once. -/
theorem reconcile_showsOnce (hparts : e.loopParts? c.parent = some (spec, c))
    (hidentity : spec.identity.isSome = true)
    (h : (reconcile (.within depth) c.parent items recursive).Gives e (.ok ()) e') :
    ∃ identities instances, ShowsOnce (.within depth) recursive spec c
      (e.takeInstances c.parent).1 [] items identities instances e e' := by
  obtain ⟨wanted, e₁, ⟨arranged, moved⟩, e₂, hwanted, harranged, hfinished⟩ :=
    reconcile_gives hparts h
  obtain ⟨identities, hinstantiates⟩ : ∃ identities, Instantiates (.within depth) recursive spec c
      (e.takeInstances c.parent).1 (fun v w => v.itemKey == w.itemKey) items identities ⟨arranged⟩ :=
    instantiates_arranged hwanted harranged
  refine ⟨identities, ⟨arranged⟩, hinstantiates.showsOnce
    (fun n data hn hkind => finishLoop_state hfinished hn hkind)
    fun hstands hentries hroom hne => ?_⟩
  have hcalm : e.Calm := by_contra fun hwild =>
    (reconcile_does (Reentry.within_grounded depth) c.parent items recursive).calm h hwild
      ⟨hentries, hroom⟩
  obtain ⟨n, data, hn, hkind, hspec, hc⟩ := of_loopParts? hparts
  obtain ⟨old, keyed, e₀, instances, -, -, -, hreconciled⟩ := (hstands.order hcalm).reconciles hn
    hkind (by rwa [LoopData.isKeyed, hspec]) h ⟨hentries, hroom⟩
  -- the loop keeps one list of instances
  obtain ⟨m, hm, hmkind⟩ := hreconciled.state
  have hsame : (⟨arranged⟩ : OrderedMap Key Instance) = instances :=
    (LoopState.keyed.inj (finishLoop_state hfinished hm hmkind)).symm
  rw [hsame] at hne ⊢
  rw [hreconciled.keys] at hne
  exact hreconciled.children hne

/-- Two items of a loop have the same key exactly when their identities are equal, where an identity
that holds a map or a callable counts as its text; and a loop that is built, or brought in line with
new items, shows each identity once, by an instance for the first item that has it. -/
theorem told_apart (depth : Nat) (spec : LoopSpec) (c : Cursor) :
    (∀ e₁ e₁' e₂ e₂' item item' v v' key key',
      (loopKey (.within depth) spec c item).Gives e₁ (.ok (key, v)) e₁' →
      (loopKey (.within depth) spec c item').Gives e₂ (.ok (key', v')) e₂' →
      v.floatless = true → v'.floatless = true →
        (key = key' ↔ v.token.same v'.token = true) ∧
        (v.keyable = true → v'.keyable = true → (key = key' ↔ v.same v' = true))) ∧
    (∀ e e' items, e.loopParts? c.parent = some (spec, c) → spec.identity.isSome = true →
      (fillLoop (.within depth) c.parent items).Gives e (.ok ()) e' →
        ∃ identities instances, ShowsOnce (.within depth) false spec c .empty
          (e.childrenOf c.parent) items identities instances e e') ∧
    ∀ e e' items recursive, e.loopParts? c.parent = some (spec, c) →
      spec.identity.isSome = true →
      (reconcile (.within depth) c.parent items recursive).Gives e (.ok ()) e' →
        ∃ identities instances, ShowsOnce (.within depth) recursive spec c
          (e.takeInstances c.parent).1 [] items identities instances e e' := by
  refine ⟨fun e₁ e₁' e₂ e₂' item item' v v' key key' hkey hkey' hv hv' => ?_,
    fun e e' items hparts hidentity h => fillLoop_showsOnce hparts hidentity h,
    fun e e' items recursive hparts hidentity h => reconcile_showsOnce hparts hidentity h⟩
  rw [loopKey_gives hkey, loopKey_gives hkey']
  refine ⟨Value.itemKey_eq_iff hv hv', fun hk hk' => ?_⟩
  rw [Value.itemKey_eq_iff hv hv', Value.token_of_keyable hk, Value.token_of_keyable hk']

/-- A loop over lists that hold a node and a text. -/
theorem told_apart_lists :
    let host : Host :=
      { library :=
        { registry :=
          { sources := .ofList
              [("Main", "\x7b\x7b!#for x in xs # x\x7d\x7d<b></b>{{!/for}}")] } } }
    let e := host.start.after 9 [.mount "Main" (.ofList [("xs", .list [])])]
    let item : Value := .list [.node 2, .str "2"]
    let item' : Value := .list [.str "2", .node 2]
    ∃ spec c, e.loopParts? c.parent = some (spec, c) ∧
      (∃ key key' v v' e₁ e₂, (loopKey (.within 9) spec c item).Gives e (.ok (key, v)) e₁ ∧
        (loopKey (.within 9) spec c item').Gives e (.ok (key', v')) e₂ ∧
          (key = key' ↔ v.same v' = true) ∧ key ≠ key') ∧
      ∃ e₁ e₂, (fillLoop (.within 9) c.parent [item, item', item]).Gives e (.ok ()) e₁ ∧
        (reconcile (.within 9) c.parent [item', item'] false).Gives e (.ok ()) e₂ ∧
        (e₁.childrenOf c.parent).length = 2 ∧ (e₂.childrenOf c.parent).length = 1 ∧
        (∃ identities instances, ShowsOnce (.within 9) false spec c .empty
          (e.childrenOf c.parent) [item, item', item] identities instances e e₁) ∧
        ∃ identities instances, ShowsOnce (.within 9) false spec c
          (e.takeInstances c.parent).1 [] [item', item'] identities instances e e₂ := by
  intro host e item item'
  have hparts : (e.loopParts? ⟨1, 0⟩).any (fun p => p.2.parent == ⟨1, 0⟩ && (p.1.identity.isSome &&
      (((loopKey (.within 9) p.1 p.2 item).runOn e).any (fun a =>
        ((loopKey (.within 9) p.1 p.2 item').runOn e).any (fun b =>
          a.1.toOption.any fun found => b.1.toOption.any fun found' =>
            found.2.floatless && found'.2.floatless && found.2.keyable && found'.2.keyable &&
              found.1 != found'.1))))) = true := by decide +kernel
  have hfill : ((fillLoop (.within 9) ⟨1, 0⟩ [item, item', item]).runOn e).any (fun p =>
      p.1.isOk && (p.2.childrenOf ⟨1, 0⟩).length == 2) = true := by decide +kernel
  have hreconcile : ((reconcile (.within 9) ⟨1, 0⟩ [item', item'] false).runOn e).any (fun p =>
      p.1.isOk && (p.2.childrenOf ⟨1, 0⟩).length == 1) = true := by decide +kernel
  clear_value e
  obtain ⟨⟨spec, c⟩, hparts, h⟩ := (Option.any_eq_true _ _).1 hparts
  obtain ⟨⟨r₁, e₁⟩, hfill, h₁⟩ := (Option.any_eq_true _ _).1 hfill
  obtain ⟨⟨r₂, e₂⟩, hreconcile, h₂⟩ := (Option.any_eq_true _ _).1 hreconcile
  simp only [Bool.and_eq_true, beq_iff_eq, Option.any_eq_true] at h h₁ h₂
  obtain ⟨hparent, hidentity, ⟨r, e₃⟩, hkey, ⟨r', e₄⟩, hkey', h⟩ := h
  rw [← hparent] at hparts hfill hreconcile h₁ h₂
  obtain ⟨hkeys, hfills, hreconciles⟩ := told_apart 9 spec c
  refine ⟨spec, c, hparts, ?_, ?_⟩
  · obtain _ | ⟨key, v⟩ := r
    · obtain ⟨found, hfound, -⟩ := h
      cases hfound
    obtain _ | ⟨key', v'⟩ := r'
    · obtain ⟨-, -, found', hfound', -⟩ := h
      cases hfound'
    obtain ⟨_, ⟨⟩, _, ⟨⟩, ⟨⟨⟨hv, hv'⟩, hk⟩, hk'⟩, hne⟩ := h
    exact ⟨key, key', v, v', e₃, e₄, hkey, hkey',
      (hkeys e e₃ e e₄ item item' v v' key key' hkey hkey' hv hv').2 hk hk', bne_iff_ne.1 hne⟩
  · obtain _ | ⟨⟨⟩⟩ := r₁
    · cases h₁.1
    obtain _ | ⟨⟨⟩⟩ := r₂
    · cases h₂.1
    exact ⟨e₁, e₂, hfill, hreconcile, h₁.2, h₂.2, hfills e e₁ _ hparts hidentity hfill,
      hreconciles e e₂ _ false hparts hidentity hreconcile⟩

/-- A loop over two items has `count` instances: it takes their identities as equal exactly if they are
not. -/
def Confuses (host : Host) (item item' : Value) (count : Nat) : Prop :=
  ∃ rs e spec c instances, host.start.Runs
      [.mount "Main" (.ofList [("xs", .list [item, item'])])] rs e ∧
    (∀ r ∈ rs, ∃ outcome, r = .ok outcome) ∧ e.loopParts? ⟨1, 0⟩ = some (spec, c) ∧
    e.instancesOf? ⟨1, 0⟩ = some instances ∧ instances.size = count ∧
    ∃ key v e₁ key' v' e₂, (loopKey (.within 9) spec c item).Gives e (.ok (key, v)) e₁ ∧
      (loopKey (.within 9) spec c item').Gives e (.ok (key', v')) e₂ ∧ v.floatless = true ∧
        v'.floatless = true ∧ (key = key' ↔ v.same v' = false)

/-- Confusion is found by mounting. -/
theorem confuses_of_run {host : Host} {item item' : Value} {count : Nat}
    (h : (host.start.runAt 9 [.mount "Main" (.ofList [("xs", .list [item, item'])])]).any (fun p =>
      p.1.all (·.isOk) && ((p.2.instancesOf? ⟨1, 0⟩).any (·.size == count) &&
        (p.2.loopParts? ⟨1, 0⟩).any (fun q =>
          ((loopKey (.within 9) q.1 q.2 item).runOn p.2).any (fun a =>
            ((loopKey (.within 9) q.1 q.2 item').runOn p.2).any (fun b => match a.1, b.1 with
              | .ok (key, v), .ok (key', v') =>
                v.floatless && v'.floatless && (key == key') == !v.same v'
              | _, _ => false))))) = true) : Confuses host item item' count := by
  obtain ⟨⟨rs, e⟩, hrun, h⟩ := (Option.any_eq_true _ _).1 h
  simp only [Bool.and_eq_true, Option.any_eq_true, List.all_eq_true, beq_iff_eq] at h
  obtain ⟨hok, ⟨instances, hinstances, hsize⟩, ⟨spec, c⟩, hparts, ⟨r, e₁⟩, hkey, ⟨r', e₂⟩, hkey',
    h⟩ := h
  split at h
  · rename_i key v key' v' hr hr'
    simp only [Bool.and_eq_true, beq_iff_eq] at h
    obtain ⟨⟨hv, hv'⟩, hsame⟩ := h
    cases hr
    cases hr'
    refine ⟨rs, e, spec, c, instances, Engine.runs_of_runAt hrun, fun r hr => ?_, hparts, hinstances,
      hsize, key, v, e₁, key', v', e₂, hkey, hkey', hv, hv', ?_⟩
    · have hr := hok r hr
      cases r with
      | error err => cases hr
      | ok outcome => exact ⟨outcome, rfl⟩
    · rw [← beq_iff_eq, hsame, Bool.not_eq_true']
  · cases h

/-- Equal maps have different keys if they list their entries in different orders, and different values
have the same key if they hold a map or a callable and have the same text. -/
theorem not_told_apart :
    let host : Host :=
      { library :=
        { registry :=
          { sources := .ofList
              [("Main", "\x7b\x7b!#for x in xs # x\x7d\x7d<b></b>{{!/for}}")] } } }
    Confuses host (.map (.ofList [("a", .int 1), ("b", .int 2)]))
      (.map (.ofList [("b", .int 2), ("a", .int 1)])) 2 ∧
    Confuses host (.map (.ofList [("a", .int 1)])) (.map (.ofList [("a", .str "1")])) 1 ∧
    Confuses host (.map .empty) (.str "\x7b\x7d") 1 :=
  ⟨confuses_of_run (by decide +kernel), confuses_of_run (by decide +kernel),
    confuses_of_run (by decide +kernel)⟩

end Render
end ReactiveView
