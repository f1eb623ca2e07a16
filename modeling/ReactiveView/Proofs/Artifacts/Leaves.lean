import ReactiveView.Json.Decode
import Mathlib.Data.List.TakeDrop
import Mathlib.Data.List.TakeWhile

/-!
# Texts and numerals read back

The leaves of a JSON text. What is written for the characters of a text is read as one glyph each
(`Document.glyphs?_written`), and the glyphs stand for the text again (`Document.textOf?_glyphs`).
A numeral is read the same whatever follows it, as long as that does not continue it
(`Document.numeral?_append`); the numeral of a machine integer has its value
(`Numeral.value?_ofInt`).
-/

namespace ReactiveView

/-! ## Texts -/

/-- The glyph that a character is written as: the controls without a short escape are written by
number. -/
def Glyph.of (c : Char) : Glyph :=
  if c.toNat < 0x20 ∧ c ∉ ['\n', '\r', '\t', '\x08', '\x0c'] then .unit c.toNat else .char c

namespace Document

/-- The glyphs of a text. -/
def glyphsOf (s : String) : List Glyph := s.toList.map Glyph.of

theorem hexUnit?_one_digit : ∀ n < 0x10, Text.hexDigits n = [n.digitChar] ∧
    hexUnit? '0' '0' '0' n.digitChar = some n := by
  decide

theorem hexUnit?_two_digits : ∀ n < 0x20, 0x10 ≤ n →
    Text.hexDigits n = ['1', (n - 0x10).digitChar] ∧
      hexUnit? '0' '0' '1' (n - 0x10).digitChar = some n := by
  decide

theorem glyphs?_short {e c : Char} (h : shortEscape? e = some c) (rest : List Char) :
    glyphs? ('\\' :: e :: rest) = (glyphs? rest).map fun (gs, rest) => (.char c :: gs, rest) := by
  have hu : e ≠ 'u' := by
    rintro rfl
    cases h
  rw [glyphs?.eq_def]
  split
  case h_4 heq =>
    cases heq
    rw [h]
    cases glyphs? rest <;> rfl
  case h_5 hshort heq =>
    cases heq
    exact (hshort _ _ rfl rfl).elim
  all_goals simp_all

theorem glyphs?_unit {a b c d : Char} {n : Nat} (h : hexUnit? a b c d = some n)
    (rest : List Char) :
    glyphs? ('\\' :: 'u' :: a :: b :: c :: d :: rest) =
      (glyphs? rest).map fun (gs, rest) => (.unit n :: gs, rest) := by
  rw [glyphs?, h]
  cases glyphs? rest <;> rfl

theorem glyphs?_plain {c : Char} (hquote : c ≠ '"') (hslash : c ≠ '\\') (h : ¬ c.toNat < 0x20)
    (rest : List Char) :
    glyphs? (c :: rest) = (glyphs? rest).map fun (gs, rest) => (.char c :: gs, rest) := by
  rw [glyphs?.eq_def]
  split
  case h_5 heq =>
    cases heq
    rw [if_neg h]
    cases glyphs? rest <;> rfl
  all_goals simp_all

/-- One written character is read as its glyph. -/
theorem glyphs?_escapeChar (c : Char) (rest : List Char) :
    glyphs? (Json.escapeChar c ++ rest) =
      (glyphs? rest).map fun (gs, rest) => (Glyph.of c :: gs, rest) := by
  unfold Json.escapeChar
  split_ifs with hquote hslash hn hr ht hb hf hone htwo
  iterate 7 subst_vars; exact glyphs?_short rfl rest
  · obtain ⟨hd, hunit⟩ := hexUnit?_one_digit c.toNat hone
    rw [hd, Glyph.of, if_pos ⟨by omega, by simp [*]⟩]
    exact glyphs?_unit hunit rest
  · obtain ⟨hd, hunit⟩ := hexUnit?_two_digits c.toNat htwo (by omega)
    rw [hd, Glyph.of, if_pos ⟨htwo, by simp [*]⟩]
    exact glyphs?_unit hunit rest
  · rw [Glyph.of, if_neg fun h => htwo h.1]
    exact glyphs?_plain hquote hslash htwo rest

/-- The characters of a text are read up to the closing quote. -/
theorem glyphs?_written (cs rest : List Char) :
    glyphs? (cs.flatMap Json.escapeChar ++ '"' :: rest) = some (cs.map Glyph.of, rest) := by
  induction cs with
  | nil => simp [glyphs?]
  | cons c cs ih => simp [List.flatMap_cons, List.append_assoc, glyphs?_escapeChar, ih]

theorem characters?_map_of (cs : List Char) : characters? (cs.map Glyph.of) = some cs := by
  induction cs with
  | nil => rfl
  | cons c cs ih =>
    rw [List.map_cons]
    by_cases hunit : c.toNat < 0x20 ∧ c ∉ ['\n', '\r', '\t', '\x08', '\x0c']
    · rw [Glyph.of, if_pos hunit]
      unfold characters?
      rw [if_neg (by omega), if_neg (by omega), ih, Char.ofNat_toNat]
      rfl
    · rw [Glyph.of, if_neg hunit, characters?, ih]
      rfl

/-- The glyphs of a text stand for it. -/
@[simp] theorem textOf?_glyphsOf (s : String) : textOf? (glyphsOf s) = some s := by
  simp [textOf?, glyphsOf, characters?_map_of]

/-! ## Numerals -/

/-- Whether a numeral may go on with a character. -/
def continuesNumeral (c : Char) : Bool :=
  Text.isAsciiDigit c || c == '.' || c == 'e' || c == 'E'

/-- A text that no numeral in front of it goes on with. -/
def Parted (rest : List Char) : Prop := ∀ c ∈ rest.head?, continuesNumeral c = false

theorem Parted.digit {rest : List Char} (h : Parted rest) :
    ∀ c ∈ rest.head?, Text.isAsciiDigit c = false := fun c hc => by
  have := h c hc
  simp only [continuesNumeral, Bool.or_eq_false_iff] at this
  exact this.1.1.1

theorem parted_nil : Parted [] := by
  intro c hc
  cases hc

theorem parted_cons {c : Char} {rest : List Char} (h : continuesNumeral c = false) :
    Parted (c :: rest) := by
  intro d hd
  cases hd
  exact h

theorem span_append {p : Char → Bool} {rest : List Char} (h : ∀ c ∈ rest.head?, p c = false)
    (cs : List Char) : (cs ++ rest).span p = ((cs.span p).1, (cs.span p).2 ++ rest) := by
  simp only [List.span_eq_takeWhile_dropWhile]
  induction cs with
  | nil =>
    cases rest with
    | nil => rfl
    | cons c rest => simp [h c rfl]
  | cons c cs ih =>
    by_cases hc : p c = true
    · simpa [hc] using ih
    · simp [hc]

/-- Digits in front of the point of a numeral: no digit follows a leading zero. -/
def isWhole : List Char → Bool
  | [] => false
  | ['0'] => true
  | d :: _ => d != '0'

/-- The digits behind a point, if one follows, and what follows them. -/
def fraction? (cs : List Char) : Option (List Char × List Char) :=
  match cs with
  | '.' :: tail =>
    if (tail.span Text.isAsciiDigit).1.isEmpty then none else some (tail.span Text.isAsciiDigit)
  | _ => some ([], cs)

/-- Whether an exponent has a minus sign, and what follows its sign. -/
def exponentSign (cs : List Char) : Bool × List Char :=
  match cs with
  | '-' :: tail => (true, tail)
  | '+' :: tail => (false, tail)
  | _ => (false, cs)

/-- The exponent, if one follows, and what follows it. -/
def exponent? (cs : List Char) : Option (Option (Bool × List Char) × List Char) :=
  match cs with
  | [] => some (none, [])
  | e :: tail =>
    if e = 'e' ∨ e = 'E' then
      let digits := (exponentSign tail).2.span Text.isAsciiDigit
      if digits.1.isEmpty then none else some (some ((exponentSign tail).1, digits.1), digits.2)
    else some (none, cs)

/-- A numeral is read part by part. -/
theorem numeral?_eq (negative : Bool) (cs : List Char) :
    numeral? negative cs =
      if isWhole (cs.span Text.isAsciiDigit).1 then do
        let (fraction, rest) ← fraction? (cs.span Text.isAsciiDigit).2
        let (exponent, rest) ← exponent? rest
        return (⟨negative, (cs.span Text.isAsciiDigit).1, fraction, exponent⟩, rest)
      else none := by
  unfold numeral?
  generalize cs.span Text.isAsciiDigit = parts
  obtain ⟨whole, left⟩ := parts
  change (if !isWhole whole then none else _) = _
  cases isWhole whole
  · rfl
  simp only [Bool.not_true, Bool.false_eq_true, if_false, if_true]
  split
  · next hnone =>
    have hf : fraction? left = none := hnone
    rw [hf]
    rfl
  · next fraction rest hsome =>
    have hf : fraction? left = some (fraction, rest) := hsome
    rw [hf, Option.bind_eq_bind, Option.bind_some]
    cases rest with
    | nil => rfl
    | cons e tail =>
      change (if e = 'e' ∨ e = 'E' then
        if ((exponentSign tail).2.span Text.isAsciiDigit).1.isEmpty then none else _ else _) = _
      by_cases hmark : e = 'e' ∨ e = 'E'
      · simp only [exponent?, if_pos hmark]
        cases ((exponentSign tail).2.span Text.isAsciiDigit).1.isEmpty <;> rfl
      · simp [exponent?, hmark]

theorem fraction?_append {cs left rest ds : List Char} (h : fraction? cs = some (ds, left))
    (hrest : Parted rest) : fraction? (cs ++ rest) = some (ds, left ++ rest) := by
  unfold fraction? at h
  split at h
  · next tail =>
    split at h
    · cases h
    · next hne =>
      rw [List.cons_append, fraction?, span_append hrest.digit, if_neg hne, Option.some.inj h]
  · next hpoint =>
    cases h
    unfold fraction?
    split
    · next tail htail =>
      cases cs with
      | nil => 
        rw [List.nil_append] at htail
        have := hrest '.' (by rw [htail]; rfl)
        cases this
      | cons c cs =>
        cases htail
        exact (hpoint cs rfl).elim
    · rfl

theorem exponentSign_append {cs : List Char} (h : cs ≠ []) (rest : List Char) :
    exponentSign (cs ++ rest) = ((exponentSign cs).1, (exponentSign cs).2 ++ rest) := by
  obtain ⟨c, cs, rfl⟩ := List.exists_cons_of_ne_nil h
  by_cases hm : c = '-'
  · subst hm; rfl
  · by_cases hp : c = '+'
    · subst hp; rfl
    · simp [exponentSign, hm, hp]

theorem exponent?_append {cs rest : List Char} {e : Option (Bool × List Char)}
    (h : exponent? cs = some (e, [])) (hrest : Parted rest) :
    exponent? (cs ++ rest) = some (e, rest) := by
  cases cs with
  | nil =>
    cases h
    cases rest with
    | nil => rfl
    | cons c rest =>
      have hc := hrest c rfl
      simp_all [continuesNumeral, exponent?]
  | cons mark tail =>
    rw [exponent?] at h
    split at h
    · next hmark =>
      dsimp only at h
      split at h
      · cases h
      · next hne =>
        have htail : tail ≠ [] := by
          rintro rfl
          exact hne rfl
        rw [List.cons_append, exponent?, if_pos hmark, exponentSign_append htail]
        dsimp only
        rw [span_append hrest.digit, if_neg hne]
        simp only [Option.some.injEq, Prod.mk.injEq] at h
        rw [h.1, h.2, List.nil_append]
    · cases h

/-- A numeral that ends its text is read the same in front of anything that does not continue it. -/
theorem numeral?_append {negative : Bool} {cs rest : List Char} {n : Numeral}
    (h : numeral? negative cs = some (n, [])) (hrest : Parted rest) :
    numeral? negative (cs ++ rest) = some (n, rest) := by
  rw [numeral?_eq] at h ⊢
  rw [span_append hrest.digit]
  split at h
  · next hwhole =>
    rw [if_pos hwhole]
    simp only [Option.bind_eq_bind, Option.bind_eq_some_iff, Prod.exists, Option.pure_def,
      Option.some.injEq, Prod.mk.injEq] at h
    obtain ⟨fraction, left, hfraction, exponent, _, hexponent, rfl, rfl⟩ := h
    simp only [fraction?_append hfraction hrest, exponent?_append hexponent hrest,
      Option.bind_eq_bind, Option.bind_some, Option.pure_def]
  · cases h

theorem fraction?_suffix {cs left ds : List Char} (h : fraction? cs = some (ds, left)) :
    left <:+ cs := by
  unfold fraction? at h
  split at h
  · split at h
    · cases h
    · rw [List.span_eq_takeWhile_dropWhile] at h
      cases h
      exact (List.dropWhile_suffix _).trans (List.suffix_cons _ _)
  · cases h
    exact List.suffix_rfl

theorem exponentSign_suffix (cs : List Char) : (exponentSign cs).2 <:+ cs := by
  unfold exponentSign
  split
  · exact List.suffix_cons _ _
  · exact List.suffix_cons _ _
  · exact List.suffix_rfl

theorem exponent?_suffix {cs left : List Char} {e : Option (Bool × List Char)}
    (h : exponent? cs = some (e, left)) : left <:+ cs := by
  unfold exponent? at h
  split at h
  · cases h
    exact List.suffix_rfl
  · split at h
    · dsimp only at h
      split at h
      · cases h
      · rw [List.span_eq_takeWhile_dropWhile] at h
        cases h
        exact ((List.dropWhile_suffix _).trans (exponentSign_suffix _)).trans (List.suffix_cons _ _)
    · cases h
      exact List.suffix_rfl

/-- What follows a numeral is the end of its text. -/
theorem numeral?_suffix {negative : Bool} {cs left : List Char} {n : Numeral}
    (h : numeral? negative cs = some (n, left)) : left <:+ cs := by
  rw [numeral?_eq] at h
  split at h
  · simp only [Option.bind_eq_bind, Option.bind_eq_some_iff, Prod.exists, Option.pure_def,
      Option.some.injEq, Prod.mk.injEq, List.span_eq_takeWhile_dropWhile] at h
    obtain ⟨_, _, hfraction, _, _, hexponent, -, rfl⟩ := h
    exact ((exponent?_suffix hexponent).trans (fraction?_suffix hfraction)).trans
      (List.dropWhile_suffix _)
  · cases h

/-! ## Integers -/

theorem isAsciiDigit_of_mem_toDigits {n : Nat} {c : Char} (h : c ∈ Nat.toDigits 10 n) :
    Text.isAsciiDigit c = true := by
  have := Nat.isDigit_of_mem_toDigits (by decide) (by decide) h
  simpa [Char.isDigit, Text.isAsciiDigit, Char.le_def] using this

theorem toDigits_pos {n : Nat} (hn : 0 < n) :
    ∃ d ds, Nat.toDigits 10 n = d :: ds ∧ d ≠ '0' := by
  induction n using Nat.strongRecOn with
  | ind n ih =>
    by_cases hlt : n < 10
    · refine ⟨n.digitChar, [], Nat.toDigits_of_lt_base hlt, ?_⟩
      have hdigit : ∀ m < 10, 0 < m → m.digitChar ≠ '0' := by decide
      exact hdigit n hlt hn
    · obtain ⟨d, ds, hds, hd⟩ := ih (n / 10) (by omega) (by omega)
      refine ⟨d, ds ++ [(n % 10).digitChar], ?_, hd⟩
      rw [Nat.toDigits_of_base_le (by decide) (by omega), hds, List.cons_append]

theorem isWhole_toDigits (n : Nat) : isWhole (Nat.toDigits 10 n) = true := by
  rcases Nat.eq_zero_or_pos n with rfl | hn
  · rfl
  · obtain ⟨d, ds, hds, hd⟩ := toDigits_pos hn
    rw [hds, isWhole.eq_def]
    split <;> simp_all

/-- The digits of a number are a numeral. -/
theorem numeral?_toDigits (negative : Bool) (n : Nat) :
    numeral? negative (Nat.toDigits 10 n) =
      some (⟨negative, Nat.toDigits 10 n, [], none⟩, []) := by
  have hspan : (Nat.toDigits 10 n).span Text.isAsciiDigit = (Nat.toDigits 10 n, []) := by
    rw [List.span_eq_takeWhile_dropWhile,
      List.takeWhile_eq_self_iff.2 fun c => isAsciiDigit_of_mem_toDigits,
      List.dropWhile_eq_nil_iff.2 fun c => isAsciiDigit_of_mem_toDigits]
  rw [numeral?_eq, hspan, if_pos (isWhole_toDigits n)]
  rfl

end Document

namespace Numeral

/-- The numeral of an integer. -/
def ofInt (i : Int) : Numeral := ⟨i < 0, Nat.toDigits 10 i.natAbs, [], none⟩

theorem le_digitsValue (acc : Nat) (cs : List Char) : acc ≤ Text.digitsValue acc cs := by
  unfold Text.digitsValue
  induction cs generalizing acc with
  | nil => exact Nat.le_refl acc
  | cons c cs ih =>
    have := ih (10 * acc + (c.toNat - '0'.toNat))
    rw [List.foldl_cons]
    omega

/-- Digits are absorbed as long as the value fits. -/
theorem absorb_of_lt {acc : Nat} {cs : List Char} (h : Text.digitsValue acc cs < UInt64.size) :
    absorb acc cs = (Text.digitsValue acc cs, []) := by
  induction cs generalizing acc with
  | nil => rfl
  | cons c cs ih =>
    have hnext : Text.digitsValue acc [c] ≤ Text.digitsValue acc (c :: cs) := le_digitsValue _ cs
    rw [absorb, if_pos (Nat.lt_of_le_of_lt hnext h)]
    exact ih h

theorem absorb_toDigits {n : Nat} (h : n < UInt64.size) :
    absorb 0 (Nat.toDigits 10 n) = (n, []) := by
  have hvalue : Text.digitsValue 0 (Nat.toDigits 10 n) = n := by
    rw [Text.digitsValue, ← Nat.ofDigitChars_eq_foldl,
      Nat.ofDigitChars_toDigits (by decide) (by decide)]
  rw [absorb_of_lt (by rwa [hvalue]), hvalue]

/-- The numeral of a machine integer has its value. -/
theorem value?_ofInt {i : Int} (hlow : Int64.minValue.toInt ≤ i) (hhigh : i < UInt64.size) :
    (ofInt i).value? = some (.int i) := by
  have hlow : -9223372036854775808 ≤ i := hlow
  have hhigh : i < 18446744073709551616 := hhigh
  have hsize : UInt64.size = 18446744073709551616 := rfl
  rw [value?, ofInt, absorb_toDigits (by omega)]
  rcases Int.lt_or_le i 0 with hneg | hpos
  · have hfits : ¬(i.natAbs = 0 ∨ 2 * i.natAbs > UInt64.size) := by omega
    have habs : -(i.natAbs : Int) = i := by omega
    simp only [hneg, decide_true, Bool.not_true, Bool.false_eq_true, if_false, hfits, habs]
  · have habs : (i.natAbs : Int) = i := by omega
    simp only [Int.not_lt.2 hpos, decide_false, Bool.not_false, if_true, habs]

end Numeral

/-! ## Floats -/

namespace Decimal

/-- Whether a character is one of those that numbers are written with. -/
def isNumeralChar (c : Char) : Bool :=
  Text.isAsciiDigit c || c == '.' || c == 'e' || c == '+' || c == '-'

theorem isNumeralChar_of_mem_digitText {n : Nat} {c : Char} (h : c ∈ digitText n) :
    isNumeralChar c = true := by
  simp [isNumeralChar, Document.isAsciiDigit_of_mem_toDigits h]

theorem isNumeralChar_of_mem_replicate {n : Nat} {c : Char} (h : c ∈ List.replicate n '0') :
    isNumeralChar c = true := by
  rw [(List.mem_replicate.1 h).2]
  rfl

theorem isNumeralChar_of_mem_positional {v : Decimal} {c : Char} (h : c ∈ v.positional) :
    isNumeralChar c = true := by
  unfold positional at h
  dsimp only at h
  split at h
  · rcases List.mem_append.1 h with h | h
    · exact isNumeralChar_of_mem_digitText h
    · exact isNumeralChar_of_mem_replicate h
  · split at h
    · simp only [List.mem_cons, List.mem_append] at h
      rcases h with rfl | rfl | h | h
      · rfl
      · rfl
      · exact isNumeralChar_of_mem_replicate h
      · exact isNumeralChar_of_mem_digitText h
    · simp only [List.mem_cons, List.mem_append] at h
      rcases h with h | rfl | h
      · exact isNumeralChar_of_mem_digitText (List.mem_of_mem_take h)
      · rfl
      · exact isNumeralChar_of_mem_digitText (List.mem_of_mem_drop h)

theorem isNumeralChar_of_mem_scientific {v : Decimal} {c : Char} (h : c ∈ v.scientific) :
    isNumeralChar c = true := by
  unfold scientific at h
  dsimp only at h
  rcases List.mem_append.1 h with h | h
  · split at h
    · next d e rest hd =>
      rcases List.mem_cons.1 h with rfl | h
      · exact isNumeralChar_of_mem_digitText (n := v.digits) (by simp [hd])
      · rcases List.mem_cons.1 h with rfl | h
        · rfl
        · exact isNumeralChar_of_mem_digitText (n := v.digits) (by simp_all)
    · exact isNumeralChar_of_mem_digitText h
  · rcases List.mem_cons.1 h with rfl | h
    · rfl
    · split at h
      all_goals
        rcases List.mem_cons.1 h with rfl | h
        · rfl
        · exact isNumeralChar_of_mem_digitText h

end Decimal

/-- Doubles are written with digits, points, signs and exponent marks. -/
theorem FloatFormat.isNumeralChar_of_mem_render {f : FloatFormat} {v : Binary64.Parts} {c : Char}
    (h : c ∈ (f.render v).toList) : Decimal.isNumeralChar c = true := by
  have hbody : ∀ d : Decimal, ∀ c ∈ if f.isPositional d.leading then
      if f.showsFraction && 0 ≤ d.exponent then d.positional ++ ['.', '0'] else d.positional
      else d.scientific, Decimal.isNumeralChar c = true := by
    intro d c hc
    split_ifs at hc
    · rcases List.mem_append.1 hc with hc | hc
      · exact Decimal.isNumeralChar_of_mem_positional hc
      · simp only [List.mem_cons, List.not_mem_nil, or_false] at hc
        rcases hc with rfl | rfl <;> rfl
    · exact Decimal.isNumeralChar_of_mem_positional hc
    · exact Decimal.isNumeralChar_of_mem_scientific hc
  unfold FloatFormat.render at h
  dsimp only at h
  rw [String.toList_ofList] at h
  split at h
  · rcases List.mem_cons.1 h with rfl | h
    · rfl
    · exact hbody _ _ h
  · exact hbody _ _ h

end ReactiveView
