import ReactiveView.Expr.Printer
import ReactiveView.Proofs.Artifacts.Leaves

/-!
# Written tokens are scanned back

A token that is written down is scanned back as it was, if a blank or the end follows it
(`Token.stepsTo_written`), whatever the place; so tokens with blanks between them are scanned back one
by one (`Token.scanned_intercalate`).
-/

namespace ReactiveView

/-- Tokens that are scanned back: no doubles and line ends, no negative integers, and words as
names. -/
def Lexeme.Writable : Lexeme → Prop
  | name x => Expr.isWord x = true
  | int i => 0 ≤ i.toInt
  | str _ | mark _ => True
  | float _ | newline => False

namespace Token

/-- A blank or the end follows. -/
def Parted (rest : List Char) : Prop := ∀ c ∈ rest.head?, c = ' '

/-- One step of scanning reads a token, and leaves a rest. -/
def StepsTo (l : Lexeme) (cs rest : List Char) : Prop :=
  ∃ c tail, cs = c :: tail ∧ rest.length ≤ tail.length ∧
    ∀ p, ∃ t q, step false p c tail = .ok (some t, q, rest) ∧ t.lexeme = l

variable {rest : List Char}

theorem parted_nil : Parted [] := fun _ h => by cases h

theorem Parted.false_of {p : Char → Bool} (h : Parted rest) (hp : p ' ' = false) :
    ∀ c ∈ rest.head?, p c = false := by
  intro c hc
  rw [h c hc, hp]

/-! ## Names -/

theorem not_digit_of_nameStart {c : Char} (h : isNameStart c = true) :
    Text.isAsciiDigit c = false := by
  by_contra hdigit
  rw [Bool.not_eq_false, Text.isAsciiDigit, Bool.and_eq_true, decide_eq_true_iff,
    decide_eq_true_iff] at hdigit
  have hlow : '0'.toNat ≤ c.toNat := hdigit.1
  have hhigh : c.toNat ≤ '9'.toNat := hdigit.2
  simp only [isNameStart, Text.isAsciiLetter, Bool.or_eq_true, beq_iff_eq, Bool.and_eq_true,
    decide_eq_true_iff] at h
  rcases h with (rfl | rfl) | ⟨hletter, -⟩ | ⟨hletter, -⟩
  · exact absurd hhigh (by decide)
  · exact absurd hlow (by decide)
  · have hletter : 'a'.toNat ≤ c.toNat := hletter
    exact absurd (Nat.le_trans hletter hhigh) (by decide)
  · have hletter : 'A'.toNat ≤ c.toNat := hletter
    exact absurd (Nat.le_trans hletter hhigh) (by decide)

theorem stepsTo_name {x : String} (hx : Expr.isWord x = true) (hrest : Parted rest) :
    StepsTo (.name x) (x.toList ++ rest) rest := by
  rw [Expr.isWord] at hx
  split at hx
  · cases hx
  next c cs heq =>
  obtain ⟨hc, hcs⟩ := Bool.and_eq_true_iff.1 hx
  have hne {d : Char} (hd : isNameStart d = false) : c ≠ d := by
    rintro rfl
    rw [hc] at hd
    cases hd
  have hpart : isNamePart c = true := by rw [isNamePart, hc, Bool.true_or]
  have hspan : (c :: (cs ++ rest)).span isNamePart = (c :: cs, rest) := by
    rw [← List.cons_append, Document.span_append (hrest.false_of rfl), List.span_eq_takeWhile_dropWhile,
      List.takeWhile_eq_self_iff.2, List.dropWhile_eq_nil_iff.2]
    · rfl
    all_goals
      intro d hd
      rcases List.mem_cons.1 hd with rfl | hd
      · exact hpart
      · exact List.all_eq_true.1 hcs d hd
  refine ⟨c, cs ++ rest, by rw [heq, List.cons_append], by simp, fun p => ?_⟩
  refine ⟨⟨.name x, p.offset, p.line⟩, { p with offset := p.offset + (c :: cs).length }, ?_, rfl⟩
  rw [step, if_neg (hne (by decide)), if_neg, if_neg, if_neg, if_neg, if_pos hc, hspan]
  · dsimp only
    rw [← heq, String.ofList_toList]
  · rw [not_digit_of_nameStart hc]
    exact Bool.false_ne_true
  · rintro (h | h)
    · exact hne (by decide) h
    · exact hne (by decide) h
  · exact Bool.false_ne_true
  · rintro (h | h | h)
    · exact hne (by decide) h
    · exact hne (by decide) h
    · exact hne (by decide) h

/-! ## Integers -/

theorem digitsValue_toDigits (n : Nat) : Text.digitsValue 0 (Nat.toDigits 10 n) = n := by
  rw [Text.digitsValue, ← Nat.ofDigitChars_eq_foldl,
    Nat.ofDigitChars_toDigits (by decide) (by decide)]

/-- The digits of an integer are read as it. -/
theorem readInt64?_toDigits {i : Int64} (hi : 0 ≤ i.toInt) :
    readInt64? (Nat.toDigits 10 i.toInt.natAbs) = some i := by
  have hdigit : ∀ c ∈ Nat.toDigits 10 i.toInt.natAbs, Text.isAsciiDigit c = true :=
    fun c => Document.isAsciiDigit_of_mem_toDigits
  have hvalue := digitsValue_toDigits i.toInt.natAbs
  have hne : Nat.toDigits 10 i.toInt.natAbs ≠ [] := Nat.toDigits_ne_nil
  generalize Nat.toDigits 10 i.toInt.natAbs = ds at *
  have hall : (ds.isEmpty || !ds.all Text.isAsciiDigit) = false := by
    rw [Bool.or_eq_false_iff, List.isEmpty_eq_false_iff, Bool.not_eq_false', List.all_eq_true]
    exact ⟨hne, hdigit⟩
  have habs : (i.toInt.natAbs : Int) = i.toInt := Int.natAbs_of_nonneg hi
  have hrange : Int64.minValue.toInt ≤ i.toInt ∧ i.toInt ≤ Int64.maxValue.toInt :=
    ⟨Int64.le_toInt i, Int64.toInt_le i⟩
  unfold readInt64?
  split
  next negative body heq =>
  -- no digit is a sign
  obtain ⟨rfl, rfl⟩ : negative = false ∧ body = ds := by
    split at heq
    · exact absurd (hdigit '-' List.mem_cons_self) (by decide)
    · exact absurd (hdigit '+' List.mem_cons_self) (by decide)
    · obtain ⟨rfl, rfl⟩ := Prod.mk.inj heq
      exact ⟨rfl, rfl⟩
  simp only [hall, Bool.false_eq_true, if_false, hvalue, habs]
  rw [int64?, if_pos hrange, Int64.ofInt_toInt]

theorem stepsTo_int {i : Int64} (hi : 0 ≤ i.toInt) (hrest : Parted rest) :
    StepsTo (.int i) ((displayInt i).toList ++ rest) rest := by
  have htext : (displayInt i).toList = Nat.toDigits 10 i.toInt.natAbs := by
    rw [displayInt, if_neg (Int.not_lt.2 hi), String.toList_ofList, Decimal.digitText]
  have hdigit : ∀ c ∈ Nat.toDigits 10 i.toInt.natAbs, Text.isAsciiDigit c = true :=
    fun c => Document.isAsciiDigit_of_mem_toDigits
  have hread := readInt64?_toDigits hi
  have hne : Nat.toDigits 10 i.toInt.natAbs ≠ [] := Nat.toDigits_ne_nil
  rw [htext]
  generalize Nat.toDigits 10 i.toInt.natAbs = ds at *
  obtain ⟨c, cs, rfl⟩ := List.exists_cons_of_ne_nil hne
  have hc := hdigit c List.mem_cons_self
  have hnumber : number (c :: (cs ++ rest)) = (some (.int i), c :: cs, rest) := by
    have hspan : (c :: (cs ++ rest)).span Text.isAsciiDigit = (c :: cs, rest) := by
      rw [← List.cons_append, Document.span_append (hrest.false_of rfl),
        List.span_eq_takeWhile_dropWhile, List.takeWhile_eq_self_iff.2 hdigit,
        List.dropWhile_eq_nil_iff.2 hdigit]
      rfl
    rw [number, hspan]
    dsimp only
    split
    · exact absurd (hrest '.' rfl) (by decide)
    · rw [hread]
      rfl
  have hne' {d : Char} (hd : Text.isAsciiDigit d = false) : c ≠ d := by
    rintro rfl
    rw [hc] at hd
    cases hd
  refine ⟨c, cs ++ rest, rfl, by simp, fun p => ?_⟩
  refine ⟨⟨.int i, p.offset, p.line⟩, { p with offset := p.offset + (c :: cs).length }, ?_, rfl⟩
  rw [step, if_neg (hne' (by decide)), if_neg, if_neg, if_neg, if_pos hc, hnumber]
  · rintro (h | h)
    · exact hne' (by decide) h
    · exact hne' (by decide) h
  · exact Bool.false_ne_true
  · rintro (h | h | h)
    · exact hne' (by decide) h
    · exact hne' (by decide) h
    · exact hne' (by decide) h

/-! ## Texts -/

/-- A text literal is read up to its closing quote. The line counts the line breaks in the text. -/
theorem quoted_escape {quote : Char} (hquote : quote = '"' ∨ quote = '\'') (cs rest : List Char)
    (line : Nat) :
    ∃ q, quoted quote line (escape quote cs ++ quote :: rest) = .ok q ∧ q.value = cs ∧
      q.rest = rest := by
  have hslash : quote ≠ '\\' := by rcases hquote with rfl | rfl <;> decide
  induction cs generalizing line with
  | nil =>
    refine ⟨⟨[], 1, line, rest⟩, ?_, rfl, rfl⟩
    show quoted quote line (quote :: rest) = _
    rw [quoted.eq_def]
    exact if_pos rfl
  | cons c cs ih =>
    have hcons : escape quote (c :: cs) ++ quote :: rest =
        (if c = quote ∨ c = '\\' then ['\\', c] else [c]) ++ (escape quote cs ++ quote :: rest) := by
      rw [escape, List.flatMap_cons, List.append_assoc]
      rfl
    rw [hcons]
    by_cases hc : c = quote ∨ c = '\\'
    · -- behind a backslash a quote or a backslash is read as it is
      have hascii : c.toNat < 128 ∧ unescape c = c := by
        rcases hc with rfl | rfl
        · rcases hquote with rfl | rfl <;> decide
        · decide
      obtain ⟨q, hq, hvalue, hrest⟩ := ih line
      refine ⟨⟨c :: q.value, q.bytes + 2, q.line, q.rest⟩, ?_, by rw [hvalue], hrest⟩
      rw [if_pos hc, List.cons_append, List.cons_append, List.nil_append, quoted,
        if_neg hslash.symm, if_pos rfl, if_pos hascii.1, hq, hascii.2]
      rfl
    · obtain ⟨q, hq, hvalue, hrest⟩ := ih (if c = '\n' then line + 1 else line)
      refine ⟨⟨c :: q.value, q.bytes + c.utf8Size, q.line, q.rest⟩, ?_, by rw [hvalue], hrest⟩
      rw [if_neg hc, List.cons_append, List.nil_append, quoted.eq_def]
      dsimp only
      rw [if_neg fun h => hc (.inl h), if_neg fun h => hc (.inr h), hq]
      rfl

theorem stepsTo_str (sp : Spelling) (s : String) :
    StepsTo (.str s) (Lexeme.written sp (.str s) ++ rest) rest := by
  have hquote : sp.quote = '"' ∨ sp.quote = '\'' := by
    rw [Spelling.quote]
    split
    · exact .inl rfl
    · exact .inr rfl
  refine ⟨sp.quote, escape sp.quote s.toList ++ sp.quote :: rest, ?_, ?_, fun p => ?_⟩
  · rw [Lexeme.written, List.cons_append, List.append_assoc, List.singleton_append]
  · simp only [List.length_append, List.length_cons]
    omega
  obtain ⟨q, hq, hvalue, hrest⟩ := quoted_escape hquote s.toList rest p.line
  have hplain : sp.quote ≠ '\n' ∧ ¬(sp.quote = ' ' ∨ sp.quote = '\t' ∨ sp.quote = '\r') := by
    rcases hquote with h | h <;> rw [h] <;> decide
  refine ⟨⟨.str s, p.offset, q.line⟩, { p with offset := p.offset + 1 + q.bytes, line := q.line },
    ?_, rfl⟩
  rw [step, if_neg hplain.1, if_neg hplain.2, if_neg (by exact Bool.false_ne_true), if_pos hquote, hq]
  dsimp only
  rw [hvalue, hrest, String.ofList_toList]

/-! ## Marks -/

theorem ofChars?_symbol (m : Mark) (hrest : Parted rest) :
    Mark.ofChars? (m.symbol.toList ++ rest) = some (m, rest) := by
  cases rest with
  | nil => cases m <;> rfl
  | cons c rest =>
    obtain rfl := hrest c rfl
    cases m <;> rfl

theorem stepsTo_mark (m : Mark) (hrest : Parted rest) :
    StepsTo (.mark m) (m.symbol.toList ++ rest) rest := by
  have hchars := ofChars?_symbol m hrest
  obtain ⟨c, tail, heq, hplain⟩ : ∃ c tail, m.symbol.toList = c :: tail ∧ c ≠ '\n' ∧
      ¬(c = ' ' ∨ c = '\t' ∨ c = '\r') ∧ ¬(c = '"' ∨ c = '\'') ∧ Text.isAsciiDigit c = false ∧
        isNameStart c = false := by
    cases m <;> exact ⟨_, _, rfl, by decide⟩
  rw [heq, List.cons_append] at hchars
  refine ⟨c, tail ++ rest, by rw [heq, List.cons_append], by simp, fun p => ?_⟩
  obtain ⟨hline, hblank, hquote, hdigit, hname⟩ := hplain
  rw [step, if_neg hline, if_neg hblank, if_neg (by exact Bool.false_ne_true), if_neg hquote,
    hdigit, if_neg Bool.false_ne_true, hname, if_neg Bool.false_ne_true, hchars]
  exact ⟨_, _, rfl, rfl⟩

/-- A token that is written down is scanned back. -/
theorem stepsTo_written (sp : Spelling) {l : Lexeme} (hl : l.Writable) (hrest : Parted rest) :
    StepsTo l (l.written sp ++ rest) rest := by
  cases l with
  | name x => exact stepsTo_name hl hrest
  | int i => exact stepsTo_int hl hrest
  | str s => exact stepsTo_str sp s
  | mark m => exact stepsTo_mark m hrest
  | float => exact hl.elim
  | newline => exact hl.elim

/-! ## Scans -/

/-- A text is scanned as some tokens. -/
def Scanned (cs : List Char) (ls : List Lexeme) : Prop :=
  ∀ (steps : Nat) (p : Place), cs.length ≤ steps →
    ∃ list, scanFrom false steps p cs = .ok list ∧ list.tokens.map (·.lexeme) = ls

theorem scanned_nil : Scanned [] [] := by
  intro steps p _
  cases steps <;> exact ⟨_, rfl, rfl⟩

theorem Scanned.blank {cs : List Char} {ls : List Lexeme} (h : Scanned cs ls) :
    Scanned (' ' :: cs) ls := by
  intro steps p hsteps
  obtain ⟨steps, rfl⟩ := Nat.exists_eq_succ_of_ne_zero (Nat.ne_of_gt (Nat.lt_of_lt_of_le
    (Nat.succ_pos _) hsteps))
  obtain ⟨list, hlist, hls⟩ := h steps { p with offset := p.offset + 1 }
    (Nat.le_of_succ_le_succ hsteps)
  refine ⟨list, ?_, hls⟩
  rw [scanFrom, step, if_neg (by decide), if_pos (.inl rfl)]
  simp only [bind, Except.bind, hlist]
  rfl

theorem StepsTo.scanned {l : Lexeme} {cs : List Char} {ls : List Lexeme}
    (h : StepsTo l cs rest) (hrest : Scanned rest ls) : Scanned cs (l :: ls) := by
  obtain ⟨c, tail, rfl, hlength, hstep⟩ := h
  intro steps p hsteps
  obtain ⟨steps, rfl⟩ := Nat.exists_eq_succ_of_ne_zero (Nat.ne_of_gt (Nat.lt_of_lt_of_le
    (Nat.succ_pos _) hsteps))
  obtain ⟨t, q, heq, rfl⟩ := hstep p
  obtain ⟨list, hlist, rfl⟩ := hrest steps q (Nat.le_trans hlength (Nat.le_of_succ_le_succ hsteps))
  refine ⟨{ list with tokens := t :: list.tokens }, ?_, rfl⟩
  rw [scanFrom, heq]
  simp only [bind, Except.bind, hlist]
  rfl

/-- Tokens with blanks between them are scanned back. -/
theorem scanned_intercalate (sp : Spelling) {ls : List Lexeme} (hls : ∀ l ∈ ls, l.Writable) :
    Scanned ([' '].intercalate (ls.map (Lexeme.written sp))) ls := by
  induction ls with
  | nil => exact scanned_nil
  | cons l ls ih =>
    obtain ⟨hl, hls⟩ := List.forall_mem_cons.1 hls
    cases ls with
    | nil =>
      rw [List.map_singleton, List.intercalate_singleton, ← List.append_nil (l.written sp)]
      exact (stepsTo_written sp hl parted_nil).scanned scanned_nil
    | cons l' ls =>
      rw [List.map_cons, List.map_cons, List.intercalate_cons_cons, List.append_assoc]
      refine (stepsTo_written sp hl ?_).scanned (ih hls).blank
      intro c hc
      exact (Option.some.inj hc).symm

/-- The tokens that a written form is made of are its tokens. -/
theorem scan_intercalate (sp : Spelling) {ls : List Lexeme} (hls : ∀ l ∈ ls, l.Writable) :
    ∃ list, scan false (" ".intercalate (ls.map fun l => String.ofList (l.written sp))) = .ok list ∧
      list.tokens.map (·.lexeme) = ls := by
  have htext : (" ".intercalate (ls.map fun l => String.ofList (l.written sp))).toList =
      [' '].intercalate (ls.map (Lexeme.written sp)) := by
    rw [String.toList_intercalate, List.map_map]
    congr 1
    exact List.map_congr_left fun l _ => String.toList_ofList
  obtain ⟨list, hlist, hmap⟩ := scanned_intercalate sp hls _ ⟨0, 1, 0⟩ (Nat.le_refl _)
  refine ⟨list, ?_, hmap⟩
  rw [scan, htext]
  exact hlist

end Token
end ReactiveView
