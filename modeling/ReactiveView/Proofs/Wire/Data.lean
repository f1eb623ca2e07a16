import Mathlib.Data.String.Basic
import ReactiveView.Proofs.Artifacts.Decoding
import ReactiveView.Value.Json

/-!
# Any data on the wire

A consumer may be given any data, and reads it without knowing what it is. Of the data of a document
that was written from a value (`Json.document`), that value is read again with the members of its
objects sorted (`Decoder.Gives.json`). Data as it is kept in memory is sorted already
(`Json.Regular`), and so is the data that the values of the language become
(`Value.regular_toJson`); it is read as it was.

A float is not read as an integer, since its numeral has a point or an exponent
(`FloatFormat.exists_mark`).
-/

namespace ReactiveView

/-! ## Floats -/

namespace Decimal

theorem point_mem_positional {v : Decimal} (h : v.exponent < 0) : '.' ∈ v.positional := by
  unfold positional
  rw [if_neg (by omega)]
  dsimp only
  split
  · exact List.mem_cons_of_mem _ List.mem_cons_self
  · exact List.mem_append_right _ List.mem_cons_self

theorem exponent_mem_scientific (v : Decimal) : 'e' ∈ v.scientific :=
  List.mem_append_right _ List.mem_cons_self

end Decimal

/-- The text of a float on the wire has a point or an exponent. -/
theorem FloatFormat.exists_mark (v : Binary64.Parts) :
    ∃ c ∈ (FloatFormat.wire.render v).toList, c = '.' ∨ c = 'e' := by
  have hbody (d : Decimal) : ∃ c ∈ (if FloatFormat.wire.isPositional d.leading then
      if FloatFormat.wire.showsFraction && 0 ≤ d.exponent then d.positional ++ ['.', '0']
      else d.positional else d.scientific), c = '.' ∨ c = 'e' := by
    split
    · split
      · exact ⟨'.', List.mem_append_right _ List.mem_cons_self, .inl rfl⟩
      · next hexponent =>
        have hneg : d.exponent < 0 := by simpa [FloatFormat.wire] using hexponent
        exact ⟨'.', Decimal.point_mem_positional hneg, .inl rfl⟩
    · exact ⟨'e', d.exponent_mem_scientific, .inr rfl⟩
  obtain ⟨c, hc, hmark⟩ := hbody (Decimal.shortest FloatFormat.wire.tie v)
  refine ⟨c, ?_, hmark⟩
  unfold FloatFormat.render
  dsimp only
  rw [String.toList_ofList]
  split
  · exact List.mem_cons_of_mem _ hc
  · exact hc

namespace Document

/-- A numeral without a point and an exponent has nothing but digits. -/
theorem isAsciiDigit_of_numeral? {negative : Bool} {cs : List Char} {n : Numeral}
    (h : numeral? negative cs = some (n, [])) (hfraction : n.fraction = [])
    (hexponent : n.exponent = none) : ∀ c ∈ cs, Text.isAsciiDigit c = true := by
  rw [numeral?_eq, List.span_eq_takeWhile_dropWhile] at h
  split at h
  · simp only [Option.bind_eq_bind, Option.bind_eq_some_iff, Prod.exists, Option.pure_def,
      Option.some.injEq, Prod.mk.injEq] at h
    obtain ⟨fraction, rest, hpoint, exponent, left, hmark, rfl, rfl⟩ := h
    obtain rfl : fraction = [] := hfraction
    obtain rfl : exponent = none := hexponent
    have hrest : rest = [] := by
      unfold exponent? at hmark
      split at hmark
      · rfl
      · split at hmark
        · dsimp only at hmark
          split at hmark <;> cases hmark
        · cases hmark
    unfold fraction? at hpoint
    split at hpoint
    · next tail _ =>
      split at hpoint
      · cases hpoint
      · next hne =>
        have hdigits : (tail.span Text.isAsciiDigit).1 = [] := by rw [Option.some.inj hpoint]
        rw [hdigits] at hne
        exact absurd rfl hne
    · obtain ⟨-, hdrop⟩ := Prod.mk.inj (Option.some.inj hpoint)
      exact List.dropWhile_eq_nil_iff.1 (hdrop.trans hrest)
  · cases h

/-- A text without blanks that is read as a number is a numeral behind its sign. -/
theorem numeral?_of_parse? {text : String} {n : Numeral}
    (hchars : ∀ c ∈ text.toList, Decimal.isNumeralChar c = true)
    (h : parse? text = some (.number n)) : ∃ negative cs,
      (text.toList = cs ∨ text.toList = '-' :: cs) ∧ numeral? negative cs = some (n, []) := by
  obtain ⟨left, hvalue, hgap⟩ := valueAt?_of_parse? h
  generalize text.toList = cs at hvalue hchars ⊢
  cases cs with
  | nil => cases hvalue
  | cons c cs =>
    rw [valueAt?_number (hchars c List.mem_cons_self)] at hvalue
    obtain ⟨⟨m, left'⟩, hread, hpair⟩ := Option.map_eq_some_iff.1 hvalue
    cases hpair
    by_cases hminus : c = '-'
    · rw [if_pos hminus] at hread
      have htail : ∀ d ∈ cs, Decimal.isNumeralChar d = true := fun d hd =>
        hchars d (List.mem_cons_of_mem c hd)
      rw [eq_nil_of_numeral? htail hread hgap] at hread
      exact ⟨true, cs, .inr (by rw [hminus]), hread⟩
    · rw [if_neg hminus] at hread
      rw [eq_nil_of_numeral? hchars hread hgap] at hread
      exact ⟨false, c :: cs, .inl rfl, hread⟩

end Document

/-- A numeral with a point or an exponent is not read as an integer. -/
theorem Numeral.value?_ne_int {n : Numeral} (h : n.fraction ≠ [] ∨ n.exponent ≠ none) (i : Int) :
    n.value? ≠ some (.int i) := by
  obtain ⟨negative, whole, fraction, exponent⟩ := n
  unfold value?
  dsimp only at h ⊢
  split
  · simp at h
  · split
    · simp
    · split_ifs <;> simp

namespace Json

/-- A float that reads back is read as a float by readers that do not ask for one. -/
theorem value?_of_readsBack {x : Float} (hx : ReadsBack x) :
    ∃ n, (Json.float x).document = .number n ∧ n.value? = some (.float x) := by
  obtain ⟨n, hn⟩ := Document.parse?_renderFloat hx
  have hdocument : (Json.float x).document = .number n := by rw [document, hn]; rfl
  refine ⟨n, hdocument, ?_⟩
  have hmark : ∃ c ∈ (renderFloat x).toList, c = '.' ∨ c = 'e' := by
    cases hdecode : Binary64.decode x with
    | some v =>
      rw [renderFloat, hdecode]
      exact FloatFormat.exists_mark v
    | none =>
      rw [renderFloat, hdecode] at hn
      cases hn
  have hmarked : n.fraction ≠ [] ∨ n.exponent ≠ none := by
    by_contra hplain
    obtain ⟨hfraction, hexponent⟩ := not_or.1 hplain
    obtain ⟨negative, cs, htext, hread⟩ :=
      Document.numeral?_of_parse? (Document.isNumeralChar_of_mem_renderFloat hx) hn
    have hdigits := Document.isAsciiDigit_of_numeral? hread (not_not.1 hfraction)
      (not_not.1 hexponent)
    obtain ⟨c, hc, hmark⟩ := hmark
    have hmem : c ∈ cs := by
      rcases htext with htext | htext
      · exact htext ▸ hc
      · rw [htext, List.mem_cons] at hc
        refine hc.resolve_left ?_
        rintro rfl
        exact absurd hmark (by decide)
    have hdigit := hdigits c hmem
    rcases hmark with rfl | rfl <;> cases hdigit
  have hread : Decoder.float Decoder.depthLimit (.number n) = some x := by
    unfold ReadsBack Decoder.run at hx
    rwa [hn] at hx
  unfold Decoder.float at hread
  obtain ⟨value, hvalue, hfloat⟩ := Option.map_eq_some_iff.1 hread
  cases value with
  | int i => exact absurd hvalue (Numeral.value?_ne_int hmarked i)
  | float y => rw [hvalue, ← hfloat]

/-! ## Sorted members -/

/-- Members in the order of their keys, each of which stands once. -/
def Sorted {α : Type} (members : List (String × α)) : Prop :=
  members.Pairwise fun a b => a.1 < b.1

theorem insertMember_of_lt {α : Type} {key : String} (value : α) {members : List (String × α)}
    (h : ∀ m ∈ members, m.1 < key) : insertMember key value members = members ++ [(key, value)] := by
  induction members with
  | nil => rfl
  | cons m members ih =>
    obtain ⟨k, v⟩ := m
    have hlt : k < key := h (k, v) List.mem_cons_self
    rw [insertMember, if_neg hlt.ne', if_neg (lt_asymm hlt),
      ih fun m hm => h m (List.mem_cons_of_mem _ hm), List.cons_append]

/-- Members that are sorted stay as they are. -/
theorem sortMembers_of_sorted {α : Type} {members : List (String × α)} (h : Sorted members) :
    sortMembers members = members := by
  have hfold (done : List (String × α)) (hsorted : Sorted (done ++ members)) :
      members.foldl (fun acc m => insertMember m.1 m.2 acc) done = done ++ members := by
    clear h
    induction members generalizing done with
    | nil => exact (List.append_nil _).symm
    | cons m members ih =>
      have hlast : ∀ d ∈ done, d.1 < m.1 := fun d hd =>
        (List.pairwise_append.1 hsorted).2.2 d hd m List.mem_cons_self
      rw [List.foldl_cons, insertMember_of_lt m.2 hlast]
      have hrest := ih (done ++ [m]) (by rwa [List.append_assoc, List.singleton_append])
      rw [hrest, List.append_assoc, List.singleton_append]
  exact hfold [] h

theorem mem_insertMember {α : Type} {key : String} {value : α} {members : List (String × α)}
    {m : String × α} (h : m ∈ insertMember key value members) : m = (key, value) ∨ m ∈ members := by
  induction members with
  | nil => exact .inl (List.mem_singleton.1 h)
  | cons first members ih =>
    rw [insertMember] at h
    split_ifs at h
    · exact (List.mem_cons.1 h).imp_right (List.mem_cons_of_mem _)
    · exact List.mem_cons.1 h
    · rcases List.mem_cons.1 h with rfl | h
      · exact .inr List.mem_cons_self
      · exact (ih h).imp_right (List.mem_cons_of_mem _)

/-- A member is put into its place. -/
theorem Sorted.insertMember {α : Type} {members : List (String × α)} (h : Sorted members)
    (key : String) (value : α) : Sorted (insertMember key value members) := by
  induction members with
  | nil => exact List.pairwise_singleton _ _
  | cons first members ih =>
    obtain ⟨k, v⟩ := first
    obtain ⟨hfirst, hrest⟩ := List.pairwise_cons.1 h
    rw [Json.insertMember]
    split_ifs with heq hlt
    · subst heq
      exact List.pairwise_cons.2 ⟨hfirst, hrest⟩
    · refine List.pairwise_cons.2 ⟨fun m hm => ?_, h⟩
      rcases List.mem_cons.1 hm with rfl | hm
      · exact hlt
      · exact lt_trans hlt (hfirst m hm)
    · refine List.pairwise_cons.2 ⟨fun m hm => ?_, ih hrest⟩
      rcases mem_insertMember hm with rfl | hm
      · exact lt_of_le_of_ne (not_lt.1 hlt) (Ne.symm heq)
      · exact hfirst m hm

theorem sorted_sortMembers {α : Type} (members : List (String × α)) :
    Sorted (sortMembers members) :=
  List.foldlRecOn members _ .nil fun _ h m _ => h.insertMember m.1 m.2

theorem mem_sortMembers {α : Type} {members : List (String × α)} {m : String × α}
    (h : m ∈ sortMembers members) : m ∈ members := by
  refine List.foldlRecOn (motive := fun acc => ∀ m ∈ acc, m ∈ members) members _
    (fun _ hm => (List.not_mem_nil hm).elim) (fun acc hacc m hm m' hm' => ?_) m h
  rcases mem_insertMember hm' with rfl | hm'
  · exact hm
  · exact hacc m' hm'

mutual

/-- A value with the members of its objects sorted, the last of a repeated key winning. -/
def sorted : Json → Json
  | array items => array (sortedItems items)
  | object members => object (sortMembers (sortedMembers members))
  | j => j

/-- The items of an array, sorted. -/
def sortedItems : List Json → List Json
  | [] => []
  | item :: items => item.sorted :: sortedItems items

/-- The members of an object in their order, with sorted values. -/
def sortedMembers : List (String × Json) → List (String × Json)
  | [] => []
  | (key, value) :: members => (key, value.sorted) :: sortedMembers members

end

theorem sortedItems_of_sorted {items : List Json} (h : ∀ j ∈ items, j.sorted = j) :
    sortedItems items = items := by
  induction items with
  | nil => rfl
  | cons item items ih =>
    rw [sortedItems, h item List.mem_cons_self, ih fun j hj => h j (List.mem_cons_of_mem _ hj)]

theorem sortedMembers_of_sorted {members : List (String × Json)}
    (h : ∀ m ∈ members, m.2.sorted = m.2) : sortedMembers members = members := by
  induction members with
  | nil => rfl
  | cons m members ih =>
    obtain ⟨key, value⟩ := m
    rw [sortedMembers, h (key, value) List.mem_cons_self,
      ih fun m hm => h m (List.mem_cons_of_mem _ hm)]

/-! ## Data in memory -/

/-- All integers of a value are of 64 bits, with a sign or without. -/
inductive Ranged : Json → Prop where
  | null : Ranged .null
  | bool (b : Bool) : Ranged (.bool b)
  | int {i : Int} (hlow : Int64.minValue.toInt ≤ i) (hhigh : i < UInt64.size) : Ranged (.int i)
  | float (x : Float) : Ranged (.float x)
  | str (s : String) : Ranged (.str s)
  | array {items : List Json} (h : ∀ j ∈ items, Ranged j) : Ranged (.array items)
  | object {members : List (String × Json)} (h : ∀ m ∈ members, Ranged m.2) :
    Ranged (.object members)

/-- A value as it is kept in memory. -/
structure Regular (j : Json) : Prop where
  /-- Its integers are of 64 bits. -/
  ranged : j.Ranged
  /-- The members of its objects are sorted. -/
  sorted : j.sorted = j

theorem ranged_oid (n : UInt64) : (int n.toNat).Ranged := by
  have hmin : Int64.minValue.toInt = -9223372036854775808 := rfl
  have hlt := n.toNat_lt_size
  exact .int (by omega) (by omega)

theorem ranged_word {n : Nat} (h : n < UInt32.size) : (ofNat n).Ranged := by
  have hmin : Int64.minValue.toInt = -9223372036854775808 := rfl
  have hword : UInt32.size = 4294967296 := rfl
  have hsize : UInt64.size = 18446744073709551616 := rfl
  exact .int (by omega) (by omega)

theorem ranged_int64 (i : Int64) : (int i.toInt).Ranged := by
  have hmax : Int64.maxValue.toInt = 9223372036854775807 := rfl
  have hsize : UInt64.size = 18446744073709551616 := rfl
  have hhigh := i.toInt_le
  exact .int i.minValue_le_toInt (by omega)

/-- The members of an object are sorted with their values. -/
theorem regular_object_sortMembers {members : List (String × Json)}
    (h : ∀ m ∈ members, m.2.Regular) : (object (sortMembers members)).Regular where
  ranged := .object fun m hm => (h m (mem_sortMembers hm)).ranged
  sorted := by
    rw [Json.sorted, sortedMembers_of_sorted fun m hm => (h m (mem_sortMembers hm)).sorted,
      sortMembers_of_sorted (sorted_sortMembers members)]

theorem regular_array {items : List Json} (h : ∀ j ∈ items, j.Regular) : (array items).Regular where
  ranged := .array fun j hj => (h j hj).ranged
  sorted := by rw [Json.sorted, sortedItems_of_sorted fun j hj => (h j hj).sorted]

end Json

namespace Value

mutual

/-- The data of a value is data in memory, by induction on the value. -/
theorem regular_toJson : ∀ v : Value, v.toJson.Regular
  | null => ⟨.null, rfl⟩
  | bool b => ⟨.bool b, rfl⟩
  | int i => ⟨Json.ranged_int64 i, rfl⟩
  | float x => by
    rw [toJson]
    split
    · exact ⟨.float x, rfl⟩
    · exact ⟨.null, rfl⟩
  | str s => ⟨.str s, rfl⟩
  | list items => Json.regular_array (regular_itemsToJson items)
  | map ⟨entries⟩ => Json.regular_object_sortMembers (regular_entriesToJson entries)
  | node oid => ⟨Json.ranged_oid oid, rfl⟩
  | func _ => ⟨.null, rfl⟩
  | builtin _ => ⟨.null, rfl⟩

theorem regular_itemsToJson : ∀ items : List Value, ∀ j ∈ itemsToJson items, j.Regular
  | [], _, h => nomatch h
  | item :: items, j, h => by
    rw [itemsToJson] at h
    rcases List.mem_cons.1 h with rfl | h
    · exact regular_toJson item
    · exact regular_itemsToJson items j h

theorem regular_entriesToJson :
    ∀ entries : List (String × Value), ∀ m ∈ entriesToJson entries, m.2.Regular
  | [], _, h => nomatch h
  | (key, value) :: entries, m, h => by
    rw [entriesToJson] at h
    rcases List.mem_cons.1 h with rfl | h
    · exact regular_toJson value
    · exact regular_entriesToJson entries m h

end

end Value

/-! ## Reading any data -/

namespace Decoder

variable {n : Nat}

theorem jsonItems_documents {depth : Nat} {items : List Json}
    (h : ∀ j ∈ items, json depth j.document = some j.sorted) :
    jsonItems depth (Json.documents items) = some (Json.sortedItems items) := by
  induction items with
  | nil => rfl
  | cons item items ih =>
    have hitem : jsonIn depth item.document = some item.sorted := h item List.mem_cons_self
    rw [Json.documents, jsonItems, hitem, ih fun j hj => h j (List.mem_cons_of_mem _ hj)]
    rfl

theorem jsonMembers_memberDocuments {depth : Nat} {members : List (String × Json)}
    (h : ∀ m ∈ members, json depth m.2.document = some m.2.sorted) :
    jsonMembers depth (Json.memberDocuments members) = some (Json.sortedMembers members) := by
  induction members with
  | nil => rfl
  | cons m members ih =>
    obtain ⟨key, value⟩ := m
    have hvalue : jsonIn depth value.document = some value.sorted := h _ List.mem_cons_self
    rw [Json.memberDocuments, jsonMembers, Document.textOf?_glyphsOf, hvalue,
      ih fun m hm => h m (List.mem_cons_of_mem _ hm)]
    rfl

/-- Any data is read as it was written, with the members of its objects sorted. -/
theorem Gives.json (n : Nat) {j : Json} (hj : j.Ranged) : Gives n Decoder.json j j.sorted := by
  induction hj with
  | null => exact fun _ _ _ _ => rfl
  | bool b => exact fun _ _ _ _ => rfl
  | @int i hlow hhigh =>
    intro _ depth _ _
    rw [Json.document, Decoder.json, jsonIn, Numeral.value?_ofInt hlow hhigh]
    rfl
  | float x =>
    intro hfloats depth _ _
    obtain ⟨m, hm, hvalue⟩ := Json.value?_of_readsBack (hfloats x (List.mem_singleton.2 rfl))
    rw [hm, Decoder.json, jsonIn, hvalue]
    rfl
  | str s =>
    intro _ depth _ _
    rw [Json.document, Decoder.json, jsonIn, Document.textOf?_glyphsOf]
    rfl
  | @array items _ ih =>
    intro hfloats depth hdepth hheight
    obtain ⟨henter, hless⟩ := enter_of_lt (Json.heightOfItems items) hheight
    have hitems := jsonItems_documents fun j hj => (ih j hj).item hj hfloats
      (show depth - 1 ≤ n by omega) hless
    rw [Json.document, Decoder.json, jsonIn, henter, Json.sorted]
    simp only [Option.bind_eq_bind, Option.bind_some, hitems]
    rfl
  | @object members _ ih =>
    intro hfloats depth hdepth hheight
    obtain ⟨henter, hless⟩ := enter_of_lt (Json.heightOfMembers members) hheight
    have hmembers := jsonMembers_memberDocuments fun m hm => (ih m hm)
      (fun x hx => hfloats x (Json.floats_subset_of_mem_members hm hx)) (depth - 1) (by omega)
      (Nat.lt_of_le_of_lt (Json.height_le_of_mem_members hm) hless)
    rw [Json.document, Decoder.json, jsonIn, henter, Json.sorted]
    simp only [Option.bind_eq_bind, Option.bind_some, hmembers]
    rfl

/-- Data in memory is read as it was. -/
theorem Gives.json_of_regular (n : Nat) {j : Json} (hj : j.Regular) : Gives n Decoder.json j j := by
  have hread := Gives.json n hj.ranged
  rwa [hj.sorted] at hread

end Decoder
end ReactiveView
