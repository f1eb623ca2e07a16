import ReactiveView.Proofs.Artifacts.Leaves

/-!
# The text of a value is read as its document

`Json.document` is the document that a value is written as. The compact text of a value is read as
that document in front of anything that does not continue a numeral
(`Document.valueAt?_render`), so that the whole text is (`Document.parse?_render`). Only of the
floats in a value is it assumed that their numerals read back.
-/

namespace ReactiveView
namespace Json

mutual

/-- The document that a value is written as. -/
def document : Json → Document
  | null => .null
  | bool b => .bool b
  | int i => .number (.ofInt i)
  | float x => (Document.parse? (renderFloat x)).getD .null
  | str s => .text (Document.glyphsOf s)
  | array items => .array (documents items)
  | object members => .object (memberDocuments members)

/-- The documents of the items of an array. -/
def documents : List Json → List Document
  | [] => []
  | item :: items => item.document :: documents items

/-- The documents of the members of an object. -/
def memberDocuments : List (String × Json) → List (List Glyph × Document)
  | [] => []
  | (key, value) :: members => (Document.glyphsOf key, value.document) :: memberDocuments members

end

mutual

/-- The floats in a value. -/
def floats : Json → List Float
  | null => []
  | bool _ => []
  | int _ => []
  | float x => [x]
  | str _ => []
  | array items => floatsOfItems items
  | object members => floatsOfMembers members

/-- The floats in the items of an array. -/
def floatsOfItems : List Json → List Float
  | [] => []
  | item :: items => item.floats ++ floatsOfItems items

/-- The floats in the members of an object. -/
def floatsOfMembers : List (String × Json) → List Float
  | [] => []
  | (_, value) :: members => value.floats ++ floatsOfMembers members

end

/-- A float whose numeral is read as that float. -/
def ReadsBack (x : Float) : Prop := Decoder.run .float (renderFloat x) = some x

end Json

namespace Document

open Decimal (isNumeralChar)

/-! ## Numbers -/

theorem isGap_of_isNumeralChar {c : Char} (hc : isNumeralChar c = true) : isGap c = false := by
  rw [← Bool.not_eq_true]
  simp only [isGap, Bool.or_eq_true, beq_iff_eq]
  rintro (((rfl | rfl) | rfl) | rfl) <;> cases hc

/-- A text that begins like a number is read as one. -/
theorem valueAt?_number {c : Char} (hc : isNumeralChar c = true) (fuel : Nat) (cs : List Char) :
    valueAt? (fuel + 1) (c :: cs) =
      (if c = '-' then numeral? true cs else numeral? false (c :: cs)).map
        fun (n, rest) => (.number n, rest) := by
  have hskip : skipGap (c :: cs) = c :: cs := by
    simp [skipGap, isGap_of_isNumeralChar hc]
  rw [valueAt?, hskip]
  split
  case h_5 heq => cases heq; rw [if_pos rfl]
  case h_8 hminus _ _ => rw [if_neg fun h => hminus cs (by rw [h])]
  all_goals
    next heq =>
      cases heq
      cases hc

/-- A numeral in a text without blanks leaves no blanks. -/
theorem eq_nil_of_numeral? {negative : Bool} {cs left : List Char} {n : Numeral}
    (hchars : ∀ c ∈ cs, isNumeralChar c = true) (h : numeral? negative cs = some (n, left))
    (hgap : (skipGap left).isEmpty = true) : left = [] := by
  cases left with
  | nil => rfl
  | cons g left =>
    have hg := hchars g ((numeral?_suffix h).subset List.mem_cons_self)
    simp [skipGap, isGap_of_isNumeralChar hg] at hgap

/-- A text that is read is one value with nothing but blanks behind it. -/
theorem valueAt?_of_parse? {text : String} {d : Document} (h : parse? text = some d) :
    ∃ left, valueAt? (2 * text.toList.length + 2) text.toList = some (d, left) ∧
      (skipGap left).isEmpty = true := by
  unfold parse? at h
  dsimp only at h
  split at h
  · next left hvalue =>
    split at h
    · next hgap =>
      cases h
      exact ⟨left, hvalue, hgap⟩
    · cases h
  · cases h

/-- A text of one number is read the same in front of anything that does not continue it. -/
theorem valueAt?_append {text : String} {n : Numeral}
    (hchars : ∀ c ∈ text.toList, isNumeralChar c = true)
    (h : parse? text = some (.number n)) (fuel : Nat) {rest : List Char} (hrest : Parted rest) :
    valueAt? (fuel + 1) (text.toList ++ rest) = some (.number n, rest) := by
  obtain ⟨left, hvalue, hgap⟩ := valueAt?_of_parse? h
  generalize text.toList = cs at hvalue hchars ⊢
  cases cs with
  | nil => cases hvalue
  | cons c cs =>
    have hc := hchars c List.mem_cons_self
    rw [valueAt?_number hc] at hvalue
    rw [List.cons_append, valueAt?_number hc]
    obtain ⟨⟨m, left'⟩, hread, hpair⟩ := Option.map_eq_some_iff.1 hvalue
    cases hpair
    by_cases hminus : c = '-'
    · rw [if_pos hminus] at hread ⊢
      have htail : ∀ d ∈ cs, isNumeralChar d = true := fun d hd =>
        hchars d (List.mem_cons_of_mem c hd)
      rw [eq_nil_of_numeral? htail hread hgap] at hread
      rw [numeral?_append hread hrest]
      rfl
    · rw [if_neg hminus] at hread ⊢
      rw [eq_nil_of_numeral? hchars hread hgap] at hread
      rw [← List.cons_append, numeral?_append hread hrest]
      rfl

/-- A float that reads back is written as a number. -/
theorem parse?_renderFloat {x : Float} (hx : Json.ReadsBack x) :
    ∃ n, parse? (Json.renderFloat x) = some (.number n) := by
  unfold Json.ReadsBack Decoder.run at hx
  cases hd : parse? (Json.renderFloat x) with
  | none =>
    rw [hd] at hx
    cases hx
  | some d =>
    rw [hd] at hx
    cases d with
    | number n => exact ⟨n, rfl⟩
    | _ => cases hx

theorem isNumeralChar_of_mem_renderFloat {x : Float} (hx : Json.ReadsBack x) :
    ∀ c ∈ (Json.renderFloat x).toList, isNumeralChar c = true := by
  obtain ⟨n, hn⟩ := parse?_renderFloat hx
  unfold Json.renderFloat at hn ⊢
  split
  · exact fun c => FloatFormat.isNumeralChar_of_mem_render
  · next hnot =>
    rw [hnot] at hn
    have hnull : parse? "null" = some .null := by
      simp [parse?, valueAt?, skipGap, isGap]
    rw [hnull] at hn
    cases hn

theorem toList_toString (i : Int) :
    (toString i).toList =
      if i < 0 then '-' :: Nat.toDigits 10 i.natAbs else Nat.toDigits 10 i.natAbs := by
  cases i with
  | ofNat n =>
    have hpos : ¬ Int.ofNat n < 0 := by simp
    rw [if_neg hpos]
    change (Nat.repr n).toList = _
    rw [Nat.repr_eq_ofList_toDigits, String.toList_ofList]
    rfl
  | negSucc n =>
    rw [if_pos (Int.negSucc_lt_zero n)]
    change ("-" ++ Nat.repr (n + 1)).toList = _
    rw [String.toList_append, Nat.repr_eq_ofList_toDigits, String.toList_ofList,
      String.toList_ofList]
    rfl

theorem isNumeralChar_of_mem_toString {i : Int} :
    ∀ c ∈ (toString i).toList, isNumeralChar c = true := by
  intro c hc
  rw [toList_toString] at hc
  split at hc
  · rcases List.mem_cons.1 hc with rfl | hc
    · rfl
    · exact Decimal.isNumeralChar_of_mem_digitText hc
  · exact Decimal.isNumeralChar_of_mem_digitText hc

theorem valueAt?_toString (i : Int) (fuel : Nat) {rest : List Char} (hrest : Parted rest) :
    valueAt? (fuel + 1) ((toString i).toList ++ rest) = some (.number (.ofInt i), rest) := by
  rw [toList_toString]
  split
  · next hneg =>
    rw [List.cons_append, valueAt?_number rfl, if_pos rfl,
      numeral?_append (numeral?_toDigits true i.natAbs) hrest]
    simp [Numeral.ofInt, hneg]
  · next hpos =>
    have hread := numeral?_append (numeral?_toDigits false i.natAbs) hrest
    have hdigit : ∀ c ∈ Nat.toDigits 10 i.natAbs, Text.isAsciiDigit c = true :=
      fun c => isAsciiDigit_of_mem_toDigits
    have hne : Nat.toDigits 10 i.natAbs ≠ [] := Nat.toDigits_ne_nil
    obtain ⟨d, ds, hds⟩ := List.exists_cons_of_ne_nil hne
    rw [hds] at hdigit hread ⊢
    have hd := hdigit d List.mem_cons_self
    have hminus : d ≠ '-' := by
      rintro rfl
      cases hd
    rw [List.cons_append, valueAt?_number (by simp [isNumeralChar, hd]), if_neg hminus,
      ← List.cons_append, hread]
    simp [Numeral.ofInt, hpos, hds]

/-! ## Texts -/

theorem toList_renderText (s : String) :
    (Json.renderText s).toList = '"' :: (s.toList.flatMap Json.escapeChar ++ ['"']) := by
  rw [Json.renderText, String.toList_ofList]

theorem valueAt?_quote (fuel : Nat) (cs : List Char) :
    valueAt? (fuel + 1) ('"' :: cs) = (glyphs? cs).map fun (gs, rest) => (.text gs, rest) := rfl

theorem valueAt?_renderText (s : String) (fuel : Nat) (rest : List Char) :
    valueAt? (fuel + 1) ((Json.renderText s).toList ++ rest) = some (.text (glyphsOf s), rest) := by
  rw [toList_renderText, List.cons_append, List.append_assoc, List.singleton_append,
    valueAt?_quote, glyphs?_written]
  rfl

/-! ## Arrays and objects -/

theorem skipGap_cons {c : Char} (hc : isGap c = false) (cs : List Char) :
    skipGap (c :: cs) = c :: cs := by
  simp [skipGap, hc]

theorem valueAt?_array {c : Char} (hc : isGap c = false) (hne : c ≠ ']') (fuel : Nat)
    (cs : List Char) :
    valueAt? (fuel + 1) ('[' :: c :: cs) =
      (itemsAt? fuel (c :: cs)).map fun (items, rest) => (.array items, rest) := by
  have hskip : skipGap ('[' :: c :: cs) = '[' :: c :: cs := rfl
  rw [valueAt?, hskip]
  simp [skipGap_cons hc, hne]

theorem valueAt?_object (fuel : Nat) (cs : List Char) :
    valueAt? (fuel + 1) ('\x7b' :: '"' :: cs) =
      (membersAt? fuel ('"' :: cs)).map fun (members, rest) => (.object members, rest) := rfl

theorem membersAt?_key (fuel : Nat) (key : String) (cs : List Char) :
    membersAt? (fuel + 1) ((Json.renderText key).toList ++ ':' :: cs) = (do
      let (value, rest) ← valueAt? fuel cs
      match skipGap rest with
      | '\x7d' :: rest => return ([(glyphsOf key, value)], rest)
      | ',' :: rest =>
        let (members, rest) ← membersAt? fuel rest
        return ((glyphsOf key, value) :: members, rest)
      | _ => none) := by
  have hskip (cs : List Char) : skipGap ('"' :: cs) = '"' :: cs := rfl
  have hcolon : skipGap (':' :: cs) = ':' :: cs := rfl
  rw [toList_renderText, List.cons_append, List.append_assoc, List.singleton_append, membersAt?]
  simp only [hskip, glyphs?_written, Option.bind_eq_bind, Option.bind_some, hcolon]
  rfl

end Document

/-! ## The text of a value -/

namespace Json

/-- The items of an array between its brackets. -/
def itemsText (items : List Json) : List Char :=
  [','].intercalate ((renderItems items).map String.toList)

/-- The members of an object between its braces. -/
def membersText (members : List (String × Json)) : List Char :=
  [','].intercalate ((renderMembers members).map String.toList)

theorem toList_render_array (items : List Json) :
    (render (array items)).toList = '[' :: (itemsText items ++ [']']) := by
  simp [render, itemsText, String.toList_intercalate]

theorem toList_render_object (members : List (String × Json)) :
    (render (object members)).toList = '\x7b' :: (membersText members ++ ['\x7d']) := by
  simp [render, membersText, String.toList_intercalate]

theorem itemsText_singleton (item : Json) : itemsText [item] = item.render.toList := by
  simp [itemsText, renderItems]

theorem itemsText_cons_cons (item next : Json) (items : List Json) :
    itemsText (item :: next :: items) =
      item.render.toList ++ ',' :: itemsText (next :: items) := by
  simp [itemsText, renderItems, List.intercalate_cons_cons]

theorem membersText_singleton (key : String) (value : Json) :
    membersText [(key, value)] = (renderText key).toList ++ ':' :: value.render.toList := by
  simp [membersText, renderMembers]

theorem membersText_cons_cons (key : String) (value : Json) (next : String × Json)
    (members : List (String × Json)) :
    membersText ((key, value) :: next :: members) =
      (renderText key).toList ++ ':' :: (value.render.toList ++
        ',' :: membersText (next :: members)) := by
  obtain ⟨k, v⟩ := next
  simp [membersText, renderMembers, List.intercalate_cons_cons]

/-- The text of a value begins with no blank and closes no array. -/
theorem render_head {j : Json} (hj : ∀ x ∈ j.floats, ReadsBack x) :
    ∃ c cs, j.render.toList = c :: cs ∧ Document.isGap c = false ∧ c ≠ ']' := by
  have number {cs : List Char} (hne : cs ≠ []) (h : ∀ c ∈ cs, Decimal.isNumeralChar c = true) :
      ∃ c cs', cs = c :: cs' ∧ Document.isGap c = false ∧ c ≠ ']' := by
    obtain ⟨c, cs, rfl⟩ := List.exists_cons_of_ne_nil hne
    have hc := h c List.mem_cons_self
    refine ⟨c, cs, rfl, Document.isGap_of_isNumeralChar hc, ?_⟩
    rintro rfl
    cases hc
  cases j with
  | null => exact ⟨'n', _, rfl, rfl, by decide⟩
  | bool b => cases b <;> exact ⟨_, _, rfl, rfl, by decide⟩
  | int i =>
    refine number ?_ Document.isNumeralChar_of_mem_toString
    rw [render, Document.toList_toString]
    split
    · exact List.cons_ne_nil _ _
    · exact Nat.toDigits_ne_nil
  | float x =>
    have hx := hj x (List.mem_singleton.2 rfl)
    refine number ?_ (Document.isNumeralChar_of_mem_renderFloat hx)
    intro hnil
    rw [render] at hnil
    obtain ⟨n, hn⟩ := Document.parse?_renderFloat hx
    rw [Document.parse?, hnil] at hn
    cases hn
  | str s => exact ⟨'"', _, Document.toList_renderText s, rfl, by decide⟩
  | array items => exact ⟨'[', _, toList_render_array items, rfl, by decide⟩
  | object members => exact ⟨'\x7b', _, toList_render_object members, rfl, by decide⟩

theorem itemsText_head {item : Json} {items : List Json}
    (hj : ∀ x ∈ floatsOfItems (item :: items), ReadsBack x) :
    ∃ c cs, itemsText (item :: items) = c :: cs ∧ Document.isGap c = false ∧ c ≠ ']' := by
  obtain ⟨c, cs, htext, hc⟩ := render_head fun x hx => hj x (List.mem_append_left _ hx)
  cases items with
  | nil => exact ⟨c, cs, by rw [itemsText_singleton, htext], hc⟩
  | cons next items =>
    exact ⟨c, _, by rw [itemsText_cons_cons, htext, List.cons_append], hc⟩

theorem membersText_head (m : String × Json) (members : List (String × Json)) :
    ∃ cs, membersText (m :: members) = '"' :: cs := by
  obtain ⟨key, value⟩ := m
  cases members with
  | nil =>
    exact ⟨_, by rw [membersText_singleton, Document.toList_renderText, List.cons_append]⟩
  | cons next members =>
    exact ⟨_, by rw [membersText_cons_cons, Document.toList_renderText, List.cons_append]⟩

end Json

namespace Document

/-- The text of a value is read as its document in front of anything that does not continue it. -/
def Reads (j : Json) : Prop := ∀ (fuel : Nat) (rest : List Char),
  2 * j.render.toList.length ≤ fuel → Parted rest →
    valueAt? fuel (j.render.toList ++ rest) = some (j.document, rest)

/-- The items of an array are read as their documents up to its end. -/
def ItemsRead (items : List Json) : Prop := ∀ (fuel : Nat) (rest : List Char), items ≠ [] →
  2 * (Json.itemsText items).length + 1 ≤ fuel →
    itemsAt? fuel (Json.itemsText items ++ ']' :: rest) = some (Json.documents items, rest)

/-- The members of an object are read as their documents up to its end. -/
def MembersRead (members : List (String × Json)) : Prop := ∀ (fuel : Nat) (rest : List Char),
  members ≠ [] → 2 * (Json.membersText members).length + 1 ≤ fuel →
    membersAt? fuel (Json.membersText members ++ '\x7d' :: rest) =
      some (Json.memberDocuments members, rest)

/-- It is enough to read a nonempty text with positive fuel. -/
theorem Reads.intro {j : Json} (hne : j.render.toList ≠ [])
    (h : ∀ (fuel : Nat) (rest : List Char), 2 * j.render.toList.length ≤ fuel + 1 → Parted rest →
      valueAt? (fuel + 1) (j.render.toList ++ rest) = some (j.document, rest)) : Reads j := by
  intro fuel rest hfuel hrest
  have hpos := List.length_pos_iff.2 hne
  obtain ⟨f, rfl⟩ : ∃ f, fuel = f + 1 := ⟨fuel - 1, by omega⟩
  exact h f rest hfuel hrest

theorem reads_float {x : Float} (hx : Json.ReadsBack x) : Reads (.float x) := by
  obtain ⟨c, cs, htext, -⟩ := Json.render_head (j := .float x) fun y hy => by
    rwa [List.mem_singleton.1 hy]
  refine Reads.intro (by simp [htext]) fun fuel rest _ hrest => ?_
  obtain ⟨n, hn⟩ := parse?_renderFloat hx
  rw [Json.render, valueAt?_append (isNumeralChar_of_mem_renderFloat hx) hn fuel hrest,
    Json.document, hn]
  rfl

theorem reads_int (i : Int) : Reads (.int i) := by
  obtain ⟨c, cs, htext, -⟩ := Json.render_head (j := .int i) fun y hy => by cases hy
  refine Reads.intro (by simp [htext]) fun fuel rest _ hrest => ?_
  exact valueAt?_toString i fuel hrest

theorem reads_str (s : String) : Reads (.str s) := by
  refine Reads.intro (by simp [Json.render, toList_renderText]) fun fuel rest _ hrest => ?_
  exact valueAt?_renderText s fuel rest

theorem reads_null : Reads .null := by
  refine Reads.intro (by simp [Json.render]) fun fuel rest _ hrest => ?_
  rfl

theorem reads_bool (b : Bool) : Reads (.bool b) := by
  cases b
  · refine Reads.intro (by simp [Json.render]) fun fuel rest _ hrest => ?_
    rfl
  · refine Reads.intro (by simp [Json.render]) fun fuel rest _ hrest => ?_
    rfl

theorem ItemsRead.cons {item : Json} {items : List Json} (h : Reads item)
    (hs : ItemsRead items) : ItemsRead (item :: items) := by
  intro fuel rest _ hfuel
  obtain ⟨f, rfl⟩ : ∃ f, fuel = f + 1 := ⟨fuel - 1, by omega⟩
  cases items with
  | nil =>
    rw [Json.itemsText_singleton] at hfuel ⊢
    have hread := h f (']' :: rest) (by omega) (parted_cons rfl)
    rw [itemsAt?, hread]
    rfl
  | cons next items =>
    rw [Json.itemsText_cons_cons] at hfuel ⊢
    simp only [List.length_append, List.length_cons] at hfuel
    -- no numeral goes on with the comma behind the item
    have hread := h f (',' :: (Json.itemsText (next :: items) ++ ']' :: rest)) (by omega)
      (parted_cons rfl)
    have hreads := hs f rest (List.cons_ne_nil _ _) (by omega)
    rw [List.append_assoc, List.cons_append, itemsAt?, hread]
    have hskip := skipGap_cons (c := ',') rfl (Json.itemsText (next :: items) ++ ']' :: rest)
    simp only [Option.bind_eq_bind, Option.bind_some, hskip, hreads]
    rfl

theorem MembersRead.cons {key : String} {value : Json} {members : List (String × Json)}
    (h : Reads value) (hs : MembersRead members) : MembersRead ((key, value) :: members) := by
  intro fuel rest _ hfuel
  obtain ⟨f, rfl⟩ : ∃ f, fuel = f + 1 := ⟨fuel - 1, by omega⟩
  cases members with
  | nil =>
    rw [Json.membersText_singleton] at hfuel ⊢
    simp only [List.length_append, List.length_cons] at hfuel
    have hread := h f ('\x7d' :: rest) (by omega) (parted_cons rfl)
    rw [List.append_assoc, List.cons_append, membersAt?_key, hread]
    rfl
  | cons next members =>
    rw [Json.membersText_cons_cons] at hfuel ⊢
    simp only [List.length_append, List.length_cons] at hfuel
    have hread := h f (',' :: (Json.membersText (next :: members) ++ '\x7d' :: rest)) (by omega)
      (parted_cons rfl)
    have hreads := hs f rest (List.cons_ne_nil _ _) (by omega)
    rw [List.append_assoc, List.cons_append, List.append_assoc, List.cons_append, membersAt?_key,
      hread]
    have hskip := skipGap_cons (c := ',') rfl (Json.membersText (next :: members) ++ '\x7d' :: rest)
    simp only [Option.bind_eq_bind, Option.bind_some, hskip, hreads]
    rfl

theorem Reads.array {items : List Json} (hj : ∀ x ∈ Json.floatsOfItems items, Json.ReadsBack x)
    (h : ItemsRead items) : Reads (.array items) := by
  refine Reads.intro (by simp [Json.toList_render_array]) fun fuel rest hfuel _ => ?_
  rw [Json.toList_render_array] at hfuel ⊢
  cases items with
  | nil => rfl
  | cons item items =>
    simp only [List.length_append, List.length_cons, List.length_nil] at hfuel
    obtain ⟨c, cs, htext, hgap, hne⟩ := Json.itemsText_head hj
    have hread := h fuel rest (List.cons_ne_nil _ _) (by omega)
    rw [List.cons_append, List.append_assoc, List.singleton_append]
    rw [htext, List.cons_append] at hread ⊢
    rw [valueAt?_array hgap hne, hread]
    rfl

theorem Reads.object {members : List (String × Json)} (h : MembersRead members) :
    Reads (.object members) := by
  refine Reads.intro (by simp [Json.toList_render_object]) fun fuel rest hfuel _ => ?_
  rw [Json.toList_render_object] at hfuel ⊢
  cases members with
  | nil => rfl
  | cons m members =>
    simp only [List.length_append, List.length_cons, List.length_nil] at hfuel
    obtain ⟨cs, htext⟩ := Json.membersText_head m members
    have hread := h fuel rest (List.cons_ne_nil _ _) (by omega)
    rw [List.cons_append, List.append_assoc, List.singleton_append]
    rw [htext, List.cons_append] at hread ⊢
    rw [valueAt?_object, hread]
    rfl

mutual

/-- The text of a value is read as its document, by induction on the value. -/
theorem reads_render : ∀ j : Json, (∀ x ∈ j.floats, Json.ReadsBack x) → Reads j
  | .null, _ => reads_null
  | .bool b, _ => reads_bool b
  | .int i, _ => reads_int i
  | .float x, hj => reads_float (hj x (List.mem_singleton.2 rfl))
  | .str s, _ => reads_str s
  | .array items, hj => .array hj (itemsRead_render items hj)
  | .object members, hj => .object (membersRead_render members hj)

theorem itemsRead_render :
    ∀ items : List Json, (∀ x ∈ Json.floatsOfItems items, Json.ReadsBack x) → ItemsRead items
  | [], _ => fun _ _ h => absurd rfl h
  | item :: items, hj =>
    .cons (reads_render item fun x hx => hj x (List.mem_append_left _ hx))
      (itemsRead_render items fun x hx => hj x (List.mem_append_right _ hx))

theorem membersRead_render : ∀ members : List (String × Json),
    (∀ x ∈ Json.floatsOfMembers members, Json.ReadsBack x) → MembersRead members
  | [], _ => fun _ _ h => absurd rfl h
  | (_, value) :: members, hj =>
    .cons (reads_render value fun x hx => hj x (List.mem_append_left _ hx))
      (membersRead_render members fun x hx => hj x (List.mem_append_right _ hx))

end

/-- The text of a value is read as its document. -/
theorem parse?_render {j : Json} (hj : ∀ x ∈ j.floats, Json.ReadsBack x) :
    parse? j.render = some j.document := by
  have hread := reads_render j hj (2 * j.render.toList.length + 2) [] (by omega) parted_nil
  rw [List.append_nil] at hread
  rw [parse?, hread]
  rfl

end Document
end ReactiveView
