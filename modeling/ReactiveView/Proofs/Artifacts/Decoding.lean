import ReactiveView.Expr.Json
import ReactiveView.Proofs.Artifacts.Documents

/-!
# Readers of what was written

`Decoder.Gives n d j a` says that the reader `d` gives `a` for the document of the value `j`,
provided that the floats in `j` read back and that `j` is nested less deeply than the reader may go,
which is at most `n` levels. There is one rule for each way to make a reader. A choice spends a
level, so that a reader of nested code meets the bound of its own recursion
(`Decoder.Gives.nested`).
-/

namespace ReactiveView
namespace Json

mutual

/-- How many arrays and objects are nested in each other in a value. -/
def height : Json → Nat
  | null => 0
  | bool _ => 0
  | int _ => 0
  | float _ => 0
  | str _ => 0
  | array items => heightOfItems items + 1
  | object members => heightOfMembers members + 1

/-- The greatest height of the items of an array. -/
def heightOfItems : List Json → Nat
  | [] => 0
  | item :: items => max item.height (heightOfItems items)

/-- The greatest height of the members of an object. -/
def heightOfMembers : List (String × Json) → Nat
  | [] => 0
  | (_, value) :: members => max value.height (heightOfMembers members)

end

theorem height_le_of_mem_items {item : Json} {items : List Json} (h : item ∈ items) :
    item.height ≤ heightOfItems items := by
  induction items with
  | nil => cases h
  | cons first items ih =>
    rw [heightOfItems]
    rcases List.mem_cons.1 h with rfl | h
    · exact Nat.le_max_left _ _
    · exact Nat.le_trans (ih h) (Nat.le_max_right _ _)

theorem height_le_of_mem_members {m : String × Json} {members : List (String × Json)}
    (h : m ∈ members) : m.2.height ≤ heightOfMembers members := by
  induction members with
  | nil => cases h
  | cons first members ih =>
    obtain ⟨key, value⟩ := first
    rw [heightOfMembers]
    rcases List.mem_cons.1 h with rfl | h
    · exact Nat.le_max_left _ _
    · exact Nat.le_trans (ih h) (Nat.le_max_right _ _)

theorem floats_subset_of_mem_items {item : Json} {items : List Json} (h : item ∈ items) :
    item.floats ⊆ floatsOfItems items := by
  induction items with
  | nil => cases h
  | cons first items ih =>
    rcases List.mem_cons.1 h with rfl | h
    · exact List.subset_append_left _ _
    · exact List.Subset.trans (ih h) (List.subset_append_right _ _)

theorem floats_subset_of_mem_members {m : String × Json} {members : List (String × Json)}
    (h : m ∈ members) : m.2.floats ⊆ floatsOfMembers members := by
  induction members with
  | nil => cases h
  | cons first members ih =>
    rcases List.mem_cons.1 h with rfl | h
    · exact List.subset_append_left _ _
    · exact List.Subset.trans (ih h) (List.subset_append_right _ _)

theorem documents_eq_map (items : List Json) : documents items = items.map document := by
  induction items with
  | nil => rfl
  | cons item items ih => rw [documents, ih, List.map_cons]

end Json

namespace Decoder

variable {α β γ : Type} {n : Nat} {j : Json}

/-- A reader gives `a` for the document of a value whose floats read back, when it may enter more
arrays and objects than are nested in it, and at most `n`. -/
def Gives (n : Nat) (d : Decoder α) (j : Json) (a : α) : Prop :=
  (∀ x ∈ j.floats, Json.ReadsBack x) → ∀ depth ≤ n, j.height < depth → d depth j.document = some a

theorem enter_of_lt {depth : Nat} (height : Nat) (h : height + 1 < depth) :
    enter depth = some (depth - 1) ∧ height < depth - 1 := by
  obtain ⟨k, rfl⟩ : ∃ k, depth = k + 2 := ⟨depth - 2, by omega⟩
  exact ⟨rfl, by omega⟩

namespace Gives

/-! ## Leaves -/

theorem text (n : Nat) (s : String) : Gives n Decoder.text (.str s) s := by
  intro _ depth _ _
  exact Document.textOf?_glyphsOf s

theorem bool (n : Nat) (b : Bool) : Gives n Decoder.bool (.bool b) b := by
  intro _ depth _ _
  rfl

theorem integer (n : Nat) {low high i : Int} (hmin : Int64.minValue.toInt ≤ i)
    (hmax : i < UInt64.size) (hlow : low ≤ i) (hhigh : i ≤ high) :
    Gives n (Decoder.integer low high) (.int i) i := by
  intro _ depth _ _
  rw [Json.document, Decoder.integer, Numeral.value?_ofInt hmin hmax]
  exact if_pos ⟨hlow, hhigh⟩

theorem word (n : Nat) {k : Nat} (hk : k < UInt32.size) :
    Gives n (Decoder.word UInt32.size) (.ofNat k) k := by
  intro hfloats depth hdepth hheight
  have hsize : UInt32.size = 4294967296 := rfl
  have hmin : Int64.minValue.toInt = -9223372036854775808 := rfl
  have hmax : UInt64.size = 18446744073709551616 := rfl
  have hinteger : Gives n (Decoder.integer 0 (UInt32.size - 1)) (.int k) k :=
    integer n (by omega) (by omega) (by omega) (by omega)
  have hread := hinteger hfloats depth hdepth hheight
  rw [Decoder.word, Decoder.map, Json.ofNat, hread]
  rfl

theorem int64 (n : Nat) (i : Int64) : Gives n Decoder.int64 (.int i.toInt) i := by
  intro hfloats depth hdepth hheight
  have hlow := i.minValue_le_toInt
  have hhigh := i.toInt_le
  have hread := integer n hlow (by
    have hmax : Int64.maxValue.toInt = 9223372036854775807 := rfl
    have hsize : UInt64.size = 18446744073709551616 := rfl
    omega) hlow hhigh hfloats depth hdepth hheight
  rw [Decoder.int64, Decoder.map, hread, Option.map_some, Int64.ofInt_toInt]

theorem float (n : Nat) (x : Float) : Gives n Decoder.float (.float x) x := by
  intro hfloats depth _ _
  have hx := hfloats x (List.mem_singleton.2 rfl)
  obtain ⟨m, hm⟩ := Document.parse?_renderFloat hx
  unfold Json.ReadsBack Decoder.run at hx
  rw [hm] at hx
  rw [Json.document, hm]
  exact hx

/-! ## Sequences -/

theorem mono {m : Nat} {d : Decoder α} {a : α} (h : Gives n d j a) (hm : m ≤ n) : Gives m d j a :=
  fun hfloats depth hdepth => h hfloats depth (Nat.le_trans hdepth hm)

/-- A value in an array is read after the array is entered. -/
theorem item {items : List Json} {depth : Nat} {d : Decoder α} {a : α} (h : Gives n d j a)
    (hj : j ∈ items) (hfloats : ∀ x ∈ (Json.array items).floats, Json.ReadsBack x)
    (hdepth : depth ≤ n) (hheight : Json.heightOfItems items < depth) :
    d depth j.document = some a :=
  h (fun x hx => hfloats x (Json.floats_subset_of_mem_items hj hx)) depth hdepth
    (Nat.lt_of_le_of_lt (Json.height_le_of_mem_items hj) hheight)

theorem list {d : Decoder α} {f : α → Json} {xs : List α} (h : ∀ x ∈ xs, Gives n d (f x) x) :
    Gives n (Decoder.list d) (.array (xs.map f)) xs := by
  intro hfloats depth hdepth hheight
  obtain ⟨henter, hless⟩ := enter_of_lt (Json.heightOfItems (xs.map f)) hheight
  rw [Json.document, Decoder.list, henter, Json.documents_eq_map]
  have hread : ∀ x ∈ xs, d (depth - 1) (f x).document = some x := fun x hx =>
    (h x hx).item (List.mem_map_of_mem hx) hfloats (by omega) hless
  simp only [Option.bind_eq_bind, Option.bind_some, List.map_map]
  clear henter hless hheight hfloats h
  induction xs with
  | nil => rfl
  | cons x xs ih =>
    have hx := hread x List.mem_cons_self
    have hxs := ih fun y hy => hread y (List.mem_cons_of_mem x hy)
    simp [hx, hxs]

theorem pair {first : Decoder α} {second : Decoder β} {k : Json} {a : α} {b : β}
    (ha : Gives n first j a) (hb : Gives n second k b) :
    Gives n (Decoder.pair first second) (.array [j, k]) (a, b) := by
  intro hfloats depth hdepth hheight
  obtain ⟨henter, hless⟩ := enter_of_lt (Json.heightOfItems [j, k]) hheight
  have hfirst := ha.item (by simp) hfloats (by omega : depth - 1 ≤ n) hless
  have hsecond := hb.item (by simp) hfloats (by omega : depth - 1 ≤ n) hless
  simp [Json.document, Json.documents, Decoder.pair, henter, hfirst, hsecond]

theorem triple {first : Decoder α} {second : Decoder β} {third : Decoder γ} {k l : Json} {a : α}
    {b : β} {c : γ} (ha : Gives n first j a) (hb : Gives n second k b) (hc : Gives n third l c) :
    Gives n (Decoder.triple first second third) (.array [j, k, l]) (a, b, c) := by
  intro hfloats depth hdepth hheight
  obtain ⟨henter, hless⟩ := enter_of_lt (Json.heightOfItems [j, k, l]) hheight
  have hfirst := ha.item (by simp) hfloats (by omega : depth - 1 ≤ n) hless
  have hsecond := hb.item (by simp) hfloats (by omega : depth - 1 ≤ n) hless
  have hthird := hc.item (by simp) hfloats (by omega : depth - 1 ≤ n) hless
  simp [Json.document, Json.documents, Decoder.triple, henter, hfirst, hsecond, hthird]

theorem nullable {d : Decoder α} {f : α → Json} {a? : Option α}
    (h : ∀ a ∈ a?, Gives n d (f a) a ∧ (f a).document ≠ .null) :
    Gives n (Decoder.nullable d) (.ofOption f a?) a? := by
  intro hfloats depth hdepth hheight
  cases a? with
  | none => rfl
  | some a =>
    obtain ⟨hread, hnull⟩ := h a rfl
    rw [Json.ofOption, Decoder.nullable, hread hfloats depth hdepth hheight]
    · rfl
    · exact hnull

/-! ## Choices -/

/-- A choice with content is read by the reader of its content. -/
theorem choice {read : Choice → Option α} {d : Decoder β} {name : String} {a : α} {b : β}
    (h : Gives n d j b)
    (hread : ∀ depth doc, d depth doc = some b → read ⟨name, depth, some doc⟩ = some a) :
    Gives (n + 1) (Decoder.choice read) (.tagged name j) a := by
  intro hfloats depth hdepth hheight
  obtain ⟨henter, hless⟩ := enter_of_lt (Json.heightOfMembers [(name, j)]) hheight
  have hcontent := h (fun x hx => hfloats x (Json.floats_subset_of_mem_members
    (m := (name, j)) List.mem_cons_self hx)) (depth - 1) (by omega)
    (Nat.lt_of_le_of_lt (Json.height_le_of_mem_members (m := (name, j)) List.mem_cons_self) hless)
  simp [Json.tagged, Json.document, Json.memberDocuments, Decoder.choice, henter,
    hread _ _ hcontent]

/-- The content of a choice is read and put into its place. -/
theorem map_carrying {d : Decoder β} {f : β → α} {name : String} {depth : Nat} {doc : Document}
    {b : β} (h : d depth doc = some b) :
    (Choice.carrying ⟨name, depth, some doc⟩ d).map f = some (f b) :=
  congrArg (Option.map f) h

/-- A choice without content is read from its name. -/
theorem choice_unit {read : Choice → Option α} {name : String} {a : α}
    (hread : ∀ depth, read ⟨name, depth, none⟩ = some a) :
    Gives n (Decoder.choice read) (.str name) a := by
  intro _ depth _ _
  simp [Json.document, Decoder.choice, hread]

/-- A choice among names without content. -/
theorem oneOf {variants : List (String × α)} {name : String} {a : α}
    (h : variants.find? (·.1 == name) = some (name, a)) :
    Gives n (Decoder.oneOf variants) (.str name) a := by
  refine choice_unit fun depth => ?_
  simp [h, Choice.unit]

/-! ## Records -/

end Gives

/-- The fields of a record that is read from an object with these members. -/
def Fields.of (depth : Nat) (members : List (String × Json)) : Fields :=
  ⟨depth, false, members.map fun m => (m.1, m.2.document)⟩

namespace Fields

variable {depth : Nat} {name other : String} {members : List (String × Json)} {d : Decoder α}

@[simp] theorem required_of_self :
    (of depth ((name, j) :: members)).required name d = d depth j.document := by
  simp [of, required, find?]

@[simp] theorem optional_of_self :
    (of depth ((name, j) :: members)).optional name d = nullable d depth j.document := by
  simp [of, optional, find?]

theorem required_of_ne (h : other ≠ name) :
    (of depth ((other, j) :: members)).required name d = (of depth members).required name d := by
  simp [of, required, find?, h]

theorem optional_of_ne (h : other ≠ name) :
    (of depth ((other, j) :: members)).optional name d = (of depth members).optional name d := by
  simp [of, optional, find?, h]

end Fields

/-- The members of a written object are all known to a reader of the same fields. -/
theorem knownMembers_memberDocuments {names : List String} {members : List (String × Json)}
    (hknown : ∀ m ∈ members, m.1 ∈ names) (hnodup : (members.map (·.1)).Nodup) :
    knownMembers names (Json.memberDocuments members) =
      some (members.map fun m => (m.1, m.2.document)) := by
  induction members with
  | nil => rfl
  | cons m members ih =>
    obtain ⟨key, value⟩ := m
    rw [List.map_cons, List.nodup_cons] at hnodup
    have hrest := ih (fun m hm => hknown m (List.mem_cons_of_mem _ hm)) hnodup.2
    have hkey := hknown (key, value) List.mem_cons_self
    have hnew : ∀ m ∈ members, m.1 ≠ key := fun m hm heq =>
      hnodup.1 (List.mem_map.2 ⟨m, hm, heq⟩)
    have hany : ((members.map fun m => (m.1, m.2.document)).any (·.1 == key)) = false := by
      simpa using fun a b hm heq => hnew (a, b) hm heq
    rw [Json.memberDocuments, knownMembers, Document.textOf?_glyphsOf, hrest]
    simp only [Option.bind_eq_bind, Option.bind_some, List.contains_iff_mem.2 hkey, if_true, hany]
    rfl

/-- A record is read field by field. -/
theorem Gives.record {names : List String} {read : Fields → Option α}
    {members : List (String × Json)} {a : α} (hnames : members.map (·.1) = names)
    (hnodup : names.Nodup)
    (h : ∀ depth, (∀ {β : Type} {d : Decoder β} {j : Json} {b : β}, Gives n d j b →
      j ∈ members.map (·.2) → d depth j.document = some b) →
      read (Fields.of depth members) = some a) :
    Gives n (record names read) (.object members) a := by
  intro hfloats depth hdepth hheight
  obtain ⟨henter, hless⟩ := enter_of_lt (Json.heightOfMembers members) hheight
  subst hnames
  have hknown := knownMembers_memberDocuments (fun m hm => List.mem_map_of_mem hm) hnodup
  rw [Decoder.record, Json.document, fields, henter]
  simp only [Option.bind_eq_bind, Option.bind_some, hknown]
  refine h (depth - 1) fun {β d j b} hread hj => ?_
  obtain ⟨m, hm, rfl⟩ := List.mem_map.1 hj
  exact hread (fun x hx => hfloats x (Json.floats_subset_of_mem_members hm hx)) (depth - 1)
    (by omega) (Nat.lt_of_le_of_lt (Json.height_le_of_mem_members hm) hless)

/-! ## Nested data -/

/-- Nested data of a kind is given back, if one level of it is, given a reader of what is nested in
it. The induction is on the number of levels, which is the depth that is left. -/
theorem Gives.nested {step : Decoder α → Decoder α} {f : α → Json} {P : α → Prop}
    (hstep : ∀ n d, (∀ a, P a → Gives n d (f a) a) → ∀ a, P a → Gives (n + 1) (step d) (f a) a)
    {a : α} (ha : P a) : Gives n (Decoder.nested step) (f a) a := by
  have hlevels (levels : Nat) : ∀ a, P a → Gives levels (nested.go step levels) (f a) a := by
    induction levels with
    | zero =>
      intro a _ _ depth hdepth hheight
      omega
    | succ levels ih => exact hstep levels _ ih
  exact fun hfloats depth _ => hlevels depth a ha hfloats depth (Nat.le_refl depth)

end Decoder
end ReactiveView
