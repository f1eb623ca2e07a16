import ReactiveView.Proofs.Wire.Data

/-!
# Records with members that are left out

A record is written with those of its members that are there (`Json.present`). The reader of the
record finds the documents of these, and a default for each of the others
(`Decoder.Gives.ofSlots`), if only its names are different from each other.

A tagged record is read whole once, as any data, and then without its tag (`Decoder.Gives.tagged`).
-/

namespace ReactiveView

/-- The members that are there. -/
def Json.present (slots : List (String × Option Json)) : List (String × Json) :=
  slots.filterMap fun slot => slot.2.map (slot.1, ·)

namespace Json

variable {slots others : List (String × Option Json)} {key : String} {j : Json}

@[simp] theorem present_nil : present [] = [] := rfl

@[simp] theorem present_cons_some :
    present ((key, some j) :: slots) = (key, j) :: present slots := rfl

@[simp] theorem present_cons_none : present ((key, none) :: slots) = present slots := rfl

theorem present_append : present (slots ++ others) = present slots ++ present others :=
  List.filterMap_append

theorem mem_present {m : String × Json} : m ∈ present slots ↔ (m.1, some m.2) ∈ slots := by
  obtain ⟨key, j⟩ := m
  simp only [present, List.mem_filterMap, Option.map_eq_some_iff, Prod.mk.injEq, Prod.exists]
  constructor
  · rintro ⟨key', _, hmem, j', rfl, rfl, rfl⟩
    exact hmem
  · exact fun hmem => ⟨key, some j, hmem, j, rfl, rfl, rfl⟩

theorem keys_present_sublist (slots : List (String × Option Json)) :
    ((present slots).map (·.1)).Sublist (slots.map (·.1)) := by
  induction slots with
  | nil => exact .slnil
  | cons slot slots ih =>
    obtain ⟨key, j?⟩ := slot
    cases j? with
    | none => exact ih.cons key
    | some j => exact ih.cons_cons key

end Json

namespace Decoder

variable {α β : Type} {n : Nat} {slots : List (String × Option Json)}

/-- The fields of a record are those that were written, and may be read. -/
structure Fields.Holds (n : Nat) (f : Fields) (slots : List (String × Option Json)) : Prop where
  /-- What was written is found. -/
  find : ∀ name j?, (name, j?) ∈ slots → f.find? name = j?.map Json.document
  /-- Readers may go as deep as the fields allow. -/
  depth : f.depth ≤ n
  /-- The fields are not nested more deeply. -/
  height : ∀ name j, (name, some j) ∈ slots → j.height < f.depth
  /-- The floats in them read back. -/
  floats : ∀ name j, (name, some j) ∈ slots → ∀ x ∈ j.floats, Json.ReadsBack x

namespace Fields.Holds

variable {f : Fields} {name : String} {d : Decoder α} {j : Json} {a : α}

theorem read (h : f.Holds n slots) (hslot : (name, some j) ∈ slots) (hj : Gives n d j a) :
    d f.depth j.document = some a :=
  hj (h.floats name j hslot) f.depth h.depth (h.height name j hslot)

/-- A field that has to be there. -/
theorem required (h : f.Holds n slots) (hslot : (name, some j) ∈ slots) (hj : Gives n d j a) :
    f.required name d = some a := by
  rw [Fields.required, h.find name _ hslot]
  exact h.read hslot hj

/-- A field that may be left out. -/
theorem withDefault (h : f.Holds n slots) {j? : Option Json} {default : α}
    (hslot : (name, j?) ∈ slots) (hsome : ∀ j ∈ j?, Gives n d j a) (hnone : j? = none → a = default) :
    f.withDefault name default d = some a := by
  rw [Fields.withDefault, h.find name _ hslot]
  cases j? with
  | none => exact congrArg some (hnone rfl).symm
  | some j => exact h.read hslot (hsome j rfl)

end Fields.Holds

/-- The members of a written record are its fields. -/
theorem Fields.find?_of_present {depth : Nat} (hnodup : (slots.map (·.1)).Nodup) {name : String}
    {j? : Option Json} (hslot : (name, j?) ∈ slots) :
    (Fields.of depth (Json.present slots)).find? name = j?.map Json.document := by
  unfold Fields.find? Fields.of
  dsimp only
  induction slots with
  | nil => cases hslot
  | cons slot slots ih =>
    obtain ⟨key, k?⟩ := slot
    rw [List.map_cons, List.nodup_cons] at hnodup
    rcases List.mem_cons.1 hslot with heq | hrest
    · obtain ⟨rfl, rfl⟩ := Prod.mk.inj heq
      cases j? with
      | some j => simp
      | none =>
        rw [Json.present_cons_none, List.find?_eq_none.2]
        · rfl
        · rintro m hm hname
          obtain ⟨m', hm', rfl⟩ := List.mem_map.1 hm
          obtain rfl : m'.1 = name := eq_of_beq hname
          exact hnodup.1 (List.mem_map.2 ⟨_, Json.mem_present.1 hm', rfl⟩)
    · have hne : key ≠ name := by
        rintro rfl
        exact hnodup.1 (List.mem_map.2 ⟨_, hrest, rfl⟩)
      cases k? with
      | none => exact ih hnodup.2 hrest
      | some k =>
        rw [Json.present_cons_some, List.map_cons, List.find?_cons_of_neg (by simpa using hne)]
        exact ih hnodup.2 hrest

/-- A record is read field by field, whichever of its fields were written. -/
theorem Gives.ofSlots {names : List String} {read : Fields → Option α} {a : α}
    (hnames : slots.map (·.1) = names) (hnodup : names.Nodup)
    (h : ∀ f : Fields, f.Holds n slots → read f = some a) :
    Gives n (Decoder.record names read) (.object (Json.present slots)) a := by
  intro hfloats depth hdepth hheight
  obtain ⟨henter, hless⟩ := enter_of_lt (Json.heightOfMembers (Json.present slots)) hheight
  subst hnames
  have hmem : ∀ m ∈ Json.present slots, m.1 ∈ slots.map (·.1) := fun m hm =>
    List.mem_map.2 ⟨(m.1, some m.2), Json.mem_present.1 hm, rfl⟩
  have hknown := knownMembers_memberDocuments hmem
    (hnodup.sublist (Json.keys_present_sublist slots))
  rw [Decoder.record, Json.document, fields, henter]
  simp only [Option.bind_eq_bind, Option.bind_some, hknown]
  refine h (Fields.of (depth - 1) (Json.present slots)) ⟨fun name j? hslot => ?_, ?_, ?_, ?_⟩
  · exact Fields.find?_of_present hnodup hslot
  · exact Nat.le_trans (Nat.sub_le depth 1) hdepth
  · intro name j hslot
    exact Nat.lt_of_le_of_lt
      (@Json.height_le_of_mem_members (name, j) _ (Json.mem_present.2 hslot)) hless
  · intro name j hslot x hx
    exact hfloats x (@Json.floats_subset_of_mem_members (name, j) _ (Json.mem_present.2 hslot) x hx)

/-! ## Members that may be absent -/

/-- What is not written as `null` is not taken for nothing. -/
theorem Gives.nullable_some {d : Decoder α} {j : Json} {a : α} (h : Gives n d j a)
    (hnull : ∀ depth, d depth .null ≠ some a) : Gives n (Decoder.nullable d) j (some a) := by
  intro hfloats depth hdepth hheight
  have hread := h hfloats depth hdepth hheight
  rw [Decoder.nullable, hread]
  · rfl
  · intro hdocument
    rw [hdocument] at hread
    exact hnull depth hread

/-! ## Tables -/

/-- A table is read entry by entry. -/
theorem Gives.table {d : Decoder α} {f : α → Json} {es : List (String × α)}
    (h : ∀ e ∈ es, Gives n d (f e.2) e.2) :
    Gives n (Decoder.table d) (.object (es.map fun e => (e.1, f e.2))) es := by
  intro hfloats depth hdepth hheight
  obtain ⟨henter, hless⟩ :=
    enter_of_lt (Json.heightOfMembers (es.map fun e => (e.1, f e.2))) hheight
  have hread : ∀ e ∈ es, d (depth - 1) (f e.2).document = some e.2 := by
    intro e he
    have hmem : (e.1, f e.2) ∈ es.map fun e => (e.1, f e.2) := List.mem_map.2 ⟨e, he, rfl⟩
    exact h e he (fun x hx => hfloats x (Json.floats_subset_of_mem_members hmem hx)) (depth - 1)
      (by omega) (Nat.lt_of_le_of_lt (Json.height_le_of_mem_members hmem) hless)
  rw [Json.document, Decoder.table, henter]
  simp only [Option.bind_eq_bind, Option.bind_some]
  clear henter hless hheight hfloats h
  induction es with
  | nil => rfl
  | cons e es ih =>
    have he := hread e List.mem_cons_self
    have hes := ih fun e' he' => hread e' (List.mem_cons_of_mem e he')
    rw [List.map_cons, Json.memberDocuments, List.mapM_cons, hes, Document.textOf?_glyphsOf, he]
    rfl

/-! ## Tagged records -/

/-- The tag is taken out of a record that names it once. -/
theorem takeMember_cons {tag kind : String} {members : List (String × Json)}
    (h : ∀ m ∈ members, m.1 ≠ tag) :
    takeMember tag (Json.memberDocuments ((tag, .str kind) :: members)) =
      some (some (Json.str kind).document, Json.memberDocuments members) := by
  have hothers : takeMember tag (Json.memberDocuments members) =
      some (none, Json.memberDocuments members) := by
    induction members with
    | nil => rfl
    | cons m members ih =>
      obtain ⟨key, value⟩ := m
      have hne : key ≠ tag := h (key, value) List.mem_cons_self
      rw [Json.memberDocuments, takeMember, ih fun m hm => h m (List.mem_cons_of_mem _ hm),
        Document.textOf?_glyphsOf]
      simp [hne]
  rw [Json.memberDocuments, takeMember, hothers, Document.textOf?_glyphsOf]
  simp

/-- A tagged record is read by the reader of its kind. -/
theorem Gives.tagged {tag kind : String} {read : String → Decoder α}
    {members : List (String × Json)} {a : α} (htag : ∀ m ∈ members, m.1 ≠ tag)
    (hranged : (Json.object members).Ranged)
    (h : Gives depthLimit (read kind) (.object members) a) :
    Gives depthLimit (Decoder.tagged tag read) (.object ((tag, .str kind) :: members)) a := by
  intro hfloats depth hdepth hheight
  have hheights : (Json.object ((tag, .str kind) :: members)).height =
      (Json.object members).height := by
    rw [Json.height, Json.heightOfMembers, Json.height, Nat.zero_max, ← Json.height]
  have hall : (Json.object ((tag, .str kind) :: members)).Ranged := by
    cases hranged with
    | object hmembers => exact .object (List.forall_mem_cons.2 ⟨.str kind, hmembers⟩)
  have hwhole := Gives.json depthLimit hall hfloats depth hdepth hheight
  have hread := h hfloats depthLimit (Nat.le_refl _) (by omega)
  have hkind : Decoder.text depth (Json.str kind).document = some kind :=
    Document.textOf?_glyphsOf kind
  rw [Json.document] at hread hwhole ⊢
  rw [Decoder.tagged, hwhole]
  simp only [Option.bind_eq_bind, Option.bind_some, takeMember_cons htag, hkind]
  exact hread

end Decoder
end ReactiveView
