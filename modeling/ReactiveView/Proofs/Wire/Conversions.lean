import Mathlib
import ReactiveView.Proofs.Likeness.Values
import ReactiveView.Proofs.Wire.Data

/-!
# Values become data and come back

A value that has a form in JSON (`Value.Portable`: no nodes, no functions, and doubles that are finite)
becomes data and comes back as it was, but for the order in which its maps list their entries, which is
then that of their keys (`Value.Portable.ofJson_toJson`). So it comes back equal, and every integer is an
integer again and every double a double. Data whose integers are of 64 bits and whose floats are finite
(`Json.Portable`) becomes a value and comes back as it was (`Json.Portable.toJson_ofJson`).

Both are inductions on the data. Where a value has a map, its entries are sorted twice, as members by
`Json.sortMembers` and as entries by `Value.sorted`; both give the one sorted list of these entries.
-/

namespace ReactiveView

/-! ## Numbers -/

/-- An integer of 64 bits is in range. -/
theorem int64?_toInt (i : Int64) : int64? i.toInt = some i := by
  rw [int64?, if_pos ⟨i.minValue_le_toInt, i.toInt_le⟩, Int64.ofInt_toInt]

/-- A finite double equals itself, since it is a number. -/
theorem Binary64.beq_self {x : Float} (h : isFinite x = true) : (x == x) = true := by
  refine Float.beq_self_iff.2 ?_
  rintro rfl
  have hnan : isFinite Float.nan = false := by decide +kernel
  rw [hnan] at h
  cases h

/-! ## Sorted members -/

namespace Json

variable {α β : Type}

/-- Members are put into their places by their keys, whatever their values are. -/
theorem insertMember_map (f : α → β) (key : String) (value : α) (members : List (String × α)) :
    insertMember key (f value) (members.map fun m => (m.1, f m.2)) =
      (insertMember key value members).map fun m => (m.1, f m.2) := by
  induction members with
  | nil => rfl
  | cons m members ih =>
    rw [List.map_cons, insertMember, insertMember, ih]
    split_ifs <;> rfl

/-- Members are sorted by their keys, whatever their values are. -/
theorem sortMembers_map (f : α → β) (members : List (String × α)) :
    sortMembers (members.map fun m => (m.1, f m.2)) =
      (sortMembers members).map fun m => (m.1, f m.2) := by
  have hfold (done : List (String × α)) :
      (members.map fun m => (m.1, f m.2)).foldl (fun acc m => insertMember m.1 m.2 acc)
          (done.map fun m => (m.1, f m.2)) =
        (members.foldl (fun acc m => insertMember m.1 m.2 acc) done).map fun m => (m.1, f m.2) := by
    induction members generalizing done with
    | nil => rfl
    | cons m members ih =>
      have hplace := insertMember_map f m.1 m.2 done
      rw [List.map_cons, List.foldl_cons, List.foldl_cons, ← ih, ← hplace]
  exact hfold []

/-- A member with a new key is put between the others. -/
theorem perm_insertMember {key : String} {members : List (String × α)}
    (h : key ∉ members.map (·.1)) (value : α) :
    (insertMember key value members).Perm ((key, value) :: members) := by
  induction members with
  | nil => exact .refl _
  | cons m members ih =>
    rw [List.map_cons, List.mem_cons, not_or] at h
    rw [insertMember, if_neg h.1]
    split_ifs
    · exact .refl _
    · exact ((ih h.2).cons m).trans (.swap ..)

/-- Members with different keys are all kept. -/
theorem perm_sortMembers {members : List (String × α)} (h : (members.map (·.1)).Nodup) :
    (sortMembers members).Perm members := by
  have hfold (done : List (String × α)) (hnodup : ((done ++ members).map (·.1)).Nodup) :
      (members.foldl (fun acc m => insertMember m.1 m.2 acc) done).Perm (done ++ members) := by
    clear h
    induction members generalizing done with
    | nil => rw [List.append_nil]; exact .refl done
    | cons m members ih =>
      have hnew : m.1 ∉ done.map (·.1) := by
        rw [List.map_append, List.map_cons, List.nodup_append] at hnodup
        exact fun hm => hnodup.2.2 _ hm _ List.mem_cons_self rfl
      have hperm : (insertMember m.1 m.2 done ++ members).Perm (done ++ m :: members) :=
        ((perm_insertMember hnew m.2).append_right members).trans List.perm_middle.symm
      exact (ih _ ((hperm.map _).nodup_iff.2 hnodup)).trans hperm
  exact hfold [] h

end Json

namespace Value

/-! ## Lists and maps -/

theorem itemsToJson_eq_map (items : List Value) : itemsToJson items = items.map toJson := by
  induction items with
  | nil => rfl
  | cons item items ih => rw [itemsToJson, ih, List.map_cons]

theorem itemsOfJson_eq_map (items : List Json) : itemsOfJson items = items.map ofJson := by
  induction items with
  | nil => rfl
  | cons item items ih => rw [itemsOfJson, ih, List.map_cons]

theorem entriesToJson_eq_map (entries : List (String × Value)) :
    entriesToJson entries = entries.map fun e => (e.1, e.2.toJson) := by
  induction entries with
  | nil => rfl
  | cons e entries ih => rw [entriesToJson, ih, List.map_cons]

theorem entriesOfJson_eq_map (members : List (String × Json)) :
    entriesOfJson members = members.map fun m => (m.1, ofJson m.2) := by
  induction members with
  | nil => rfl
  | cons m members ih => rw [entriesOfJson, ih, List.map_cons]

/-- Entries with different keys are sorted alike as members and as entries. -/
theorem sortMembers_eq_sortedEntries {entries : List (String × Value)}
    (h : (entries.map (·.1)).Nodup) :
    Json.sortMembers (entries.map sortedEntry) = sortedEntries entries := by
  have hkeys : ((entries.map sortedEntry).map (·.1)).Nodup := by rwa [List.map_map]
  have hmembers := Json.sorted_sortMembers (entries.map sortedEntry)
  have hentries : Json.Sorted (sortedEntries entries) := by
    -- no two entries have one key
    have hne := List.pairwise_map.1 ((perm_keys_sortedEntries entries).nodup_iff.2 h)
    exact ((pairwise_sortedEntries entries).and hne).imp fun h => lt_of_le_of_ne h.1 h.2
  have hperm : (Json.sortMembers (entries.map sortedEntry)).Perm (sortedEntries entries) :=
    (Json.perm_sortMembers hkeys).trans (perm_sortedEntries entries).symm
  exact hperm.eq_of_pairwise (fun a b _ _ hab hba => absurd hab (lt_asymm hba)) hmembers hentries

/-! ## Values that have a form in JSON -/

/-- A value is made of null, truth values, integers, finite doubles, texts, lists and maps, in which every
key occurs once. -/
inductive Portable : Value → Prop where
  | null : Portable null
  | bool (b : Bool) : Portable (bool b)
  | int (i : Int64) : Portable (int i)
  | float {x : Float} (h : Binary64.isFinite x = true) : Portable (float x)
  | str (s : String) : Portable (str s)
  | list {items : List Value} (h : ∀ v ∈ items, Portable v) : Portable (list items)
  | map {m : OrderedMap String Value} (distinct : m.Distinct)
    (h : ∀ e ∈ m.entries, Portable e.2) : Portable (map m)

theorem sameItems_of_forall {items : List Value} (h : ∀ v ∈ items, v.same v = true) :
    sameItems items items = true := by
  induction items with
  | nil => rfl
  | cons v items ih =>
    rw [sameItems, h v List.mem_cons_self, ih fun w hw => h w (List.mem_cons_of_mem _ hw)]
    rfl

/-- Such a value equals itself. -/
theorem Portable.same_self {v : Value} (h : v.Portable) : v.same v = true := by
  induction h with
  | null => rfl
  | bool b => simp [same]
  | int i => simp [same]
  | float hx => exact Binary64.beq_self hx
  | str s => simp [same]
  | list _ ih => exact sameItems_of_forall ih
  | @map m distinct _ ih =>
    obtain ⟨entries⟩ := m
    rw [same, Bool.and_eq_true, sameEntries_iff]
    exact ⟨beq_self_eq_true _, fun e he => ⟨e.2, OrderedMap.find?_of_mem distinct he, ih e he⟩⟩

/-- What becomes of such a value on the way to data and back: its maps list their entries by their keys. -/
theorem Portable.ofJson_toJson {v : Value} (h : v.Portable) : ofJson v.toJson = v.sorted := by
  induction h with
  | null => rfl
  | bool b => rfl
  | int i => rw [toJson, ofJson, int64?_toInt]; rfl
  | float hx => rw [toJson, if_pos hx]; rfl
  | str s => rfl
  | list _ ih =>
    rw [toJson, ofJson, itemsToJson_eq_map, itemsOfJson_eq_map, List.map_map, sorted,
      sortedItems_eq_map]
    exact congrArg Value.list (List.map_congr_left ih)
  | @map m distinct _ ih =>
    obtain ⟨entries⟩ := m
    have hentries : (entriesToJson entries).map (fun m => (m.1, ofJson m.2)) =
        entries.map sortedEntry := by
      rw [entriesToJson_eq_map, List.map_map]
      exact List.map_congr_left fun e he => Prod.ext rfl (ih e he)
    have hsorted : (⟨sortedEntries entries⟩ : OrderedMap String Value).Distinct :=
      (perm_keys_sortedEntries entries).nodup_iff.2 distinct
    rw [toJson, ofJson, entriesOfJson_eq_map, ← Json.sortMembers_map, hentries,
      sortMembers_eq_sortedEntries distinct, sorted, OrderedMap.ofList_entries hsorted]

end Value

/-- Data whose integers are of 64 bits with a sign, whose floats are finite, and whose objects have
their members in the order of their keys, each key once. -/
inductive Json.Portable : Json → Prop where
  | null : Portable null
  | bool (b : Bool) : Portable (bool b)
  | int (i : Int64) : Portable (int i.toInt)
  | float {x : Float} (h : Binary64.isFinite x = true) : Portable (float x)
  | str (s : String) : Portable (str s)
  | array {items : List Json} (h : ∀ j ∈ items, Portable j) : Portable (array items)
  | object {members : List (String × Json)} (sorted : Sorted members)
    (h : ∀ m ∈ members, Portable m.2) : Portable (object members)

/-- Such data becomes a value and comes back as it was. -/
theorem Json.Portable.toJson_ofJson {j : Json} (h : j.Portable) : (Value.ofJson j).toJson = j := by
  induction h with
  | null => rfl
  | bool b => rfl
  | int i => rw [Value.ofJson, int64?_toInt]; rfl
  | float hx => rw [Value.ofJson, Value.toJson, if_pos hx]
  | str s => rfl
  | array _ ih =>
    rw [Value.ofJson, Value.toJson, Value.itemsOfJson_eq_map, Value.itemsToJson_eq_map,
      List.map_map]
    exact congrArg Json.array ((List.map_congr_left ih).trans (List.map_id _))
  | @object members sorted _ ih =>
    have hdistinct : (⟨Value.entriesOfJson members⟩ : OrderedMap String Value).Distinct := by
      rw [Value.entriesOfJson_eq_map]
      unfold OrderedMap.Distinct OrderedMap.keys
      rw [List.map_map]
      exact List.pairwise_map.2 (sorted.imp fun h => h.ne)
    have hmembers : (members.map fun m => (m.1, Value.ofJson m.2)).map
        (fun e => (e.1, e.2.toJson)) = members := by
      rw [List.map_map]
      conv_rhs => rw [← List.map_id members]
      exact List.map_congr_left fun m hm => Prod.ext rfl (ih m hm)
    rw [Value.ofJson, OrderedMap.ofList_entries hdistinct, Value.toJson,
      Value.entriesToJson_eq_map, Value.entriesOfJson_eq_map, hmembers, sortMembers_of_sorted sorted]

/-- Values survive the way to JSON and back. A value made of null, truth values, integers, finite
doubles, texts, lists and maps, nested in any way, comes back equal; it comes back as it was but for the
order in which its maps list their entries, so its integers are integers and its doubles doubles. Data
whose integers are of 64 bits and whose floats are finite becomes a value and comes back as it was. -/
theorem Value.survives_json :
    (∀ v : Value, v.Portable → (ofJson v.toJson).same v = true ∧ ofJson v.toJson = v.sorted) ∧
      ∀ j : Json, j.Portable → (ofJson j).toJson = j := by
  refine ⟨fun v hv => ?_, fun j hj => hj.toJson_ofJson⟩
  have hback := hv.ofJson_toJson
  refine ⟨?_, hback⟩
  calc (ofJson v.toJson).same v = v.sorted.same v := by rw [hback]
    _ = v.sorted.sorted.same v.sorted := (same_sorted v.sorted v).symm
    _ = v.sorted.same v.sorted := by rw [sorted_sorted]
    _ = v.same v := same_sorted v v
    _ = true := hv.same_self

/-- A map whose keys are out of order, with a list of an integer, a double that is integral and a map
without entries; and an object with such an array. -/
theorem Value.survives_json_nested :
    let v : Value := map ⟨[("b", list [int 1, float 1.0, map ⟨[]⟩]), ("a", null)]⟩
    let j : Json := .object [("a", .null), ("b", .array [.int 1, .float 1.0, .object []])]
    (v.Portable ∧ (ofJson v.toJson).same v = true ∧ ofJson v.toJson = v.sorted) ∧
      j.Portable ∧ (ofJson j).toJson = j := by
  intro v j
  have hone : Binary64.isFinite 1.0 = true := by decide
  have hkeys : ["b", "a"].Nodup := by decide
  have hv : v.Portable := by
    refine .map hkeys (List.forall_mem_cons.2 ⟨.list ?_, List.forall_mem_singleton.2 .null⟩)
    exact List.forall_mem_cons.2 ⟨.int 1, List.forall_mem_cons.2 ⟨.float hone,
      List.forall_mem_singleton.2 (.map List.nodup_nil (List.forall_mem_nil _))⟩⟩
  have hj : j.Portable := by
    refine .object (List.pairwise_pair.2 (by decide))
      (List.forall_mem_cons.2 ⟨.null, List.forall_mem_singleton.2 (.array ?_)⟩)
    exact List.forall_mem_cons.2 ⟨.int 1, List.forall_mem_cons.2 ⟨.float hone,
      List.forall_mem_singleton.2 (.object .nil (List.forall_mem_nil _))⟩⟩
  exact ⟨⟨hv, survives_json.1 v hv⟩, hj, survives_json.2 j hj⟩

end ReactiveView
