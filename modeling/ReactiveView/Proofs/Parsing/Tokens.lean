import ReactiveView.Expr.Token
import ReactiveView.Proofs.Parsing.Places

/-!
# Scanning stays in its text

Every step of scanning reads at least one character and moves its place on by exactly the bytes that
it read (`Token.step_reads`). So a scan needs no more steps than there are characters
(`Token.scanFrom_steps`), and all its tokens and errors are located in the text
(`Token.scanFrom_within`). The one text literal that scanning gives up on, for a reason other than
its end, has a backslash before a character that is not ASCII.
-/

namespace ReactiveView

open Text (Boundary BrokenEscape Located byteLength lineCount)

/-- A token that is located in its text. -/
def Token.Within (source : List Char) (t : Token) : Prop := Located source t.offset t.line

/-- An error that is located in its text. An escape is reported as broken only if one is. -/
structure SyntaxError.Within (source : List Char) (e : SyntaxError) : Prop where
  /-- The error is located. -/
  located : Located source e.offset e.line
  /-- A broken escape is there. -/
  escape : e.cause = .brokenEscape → BrokenEscape source

namespace Token

/-! ## Characters of one byte -/

/-- ASCII characters of one line. -/
def Plain (cs : List Char) : Prop := ∀ c ∈ cs, c.toNat < 128 ∧ c ≠ '\n'

theorem plain_of_all {cs : List Char}
    (h : (cs.all fun c => decide (c.toNat < 128) && c != '\n') = true) : Plain cs := by
  intro c hc
  have hc := List.all_eq_true.1 h c hc
  rw [Bool.and_eq_true, decide_eq_true_iff, bne_iff_ne] at hc
  exact hc

theorem Plain.append {cs ds : List Char} (hc : Plain cs) (hd : Plain ds) : Plain (cs ++ ds) :=
  fun c hmem => (List.mem_append.1 hmem).elim (hc c) (hd c)

theorem Plain.byteLength {cs : List Char} (h : Plain cs) : byteLength cs = cs.length :=
  Text.byteLength_of_ascii fun c hc => (h c hc).1

theorem Plain.count {cs : List Char} (h : Plain cs) : cs.count '\n' = 0 :=
  List.count_eq_zero.2 fun hc => (h _ hc).2 rfl

theorem plain_of_span {p : Char → Bool} (hp : ∀ c, p c = true → c.toNat < 128 ∧ c ≠ '\n')
    (cs : List Char) : Plain (cs.takeWhile p) :=
  fun c hc => hp c (List.all_eq_true.1 List.all_takeWhile c hc)

theorem plain_digit (c : Char) (h : Text.isAsciiDigit c = true) : c.toNat < 128 ∧ c ≠ '\n' := by
  simp only [Text.isAsciiDigit, Bool.and_eq_true, decide_eq_true_iff] at h
  have hle : c.toNat ≤ '9'.toNat := h.2
  refine ⟨Nat.lt_of_le_of_lt hle (by decide), ?_⟩
  rintro rfl
  exact absurd h.1 (by decide)

theorem plain_letter (c : Char) (h : Text.isAsciiLetter c = true) : c.toNat < 128 ∧ c ≠ '\n' := by
  simp only [Text.isAsciiLetter, Bool.or_eq_true, Bool.and_eq_true, decide_eq_true_iff] at h
  constructor
  · rcases h with ⟨-, hle⟩ | ⟨-, hle⟩
    · have hle : c.toNat ≤ 'z'.toNat := hle
      exact Nat.lt_of_le_of_lt hle (by decide)
    · have hle : c.toNat ≤ 'Z'.toNat := hle
      exact Nat.lt_of_le_of_lt hle (by decide)
  · rintro rfl
    exact absurd h (by decide)

theorem plain_namePart (c : Char) (h : isNamePart c = true) : c.toNat < 128 ∧ c ≠ '\n' := by
  simp only [isNamePart, isNameStart, Bool.or_eq_true, beq_iff_eq] at h
  rcases h with ((rfl | rfl) | h) | h
  · decide
  · decide
  · exact plain_letter c h
  · exact plain_digit c h

/-! ## Places -/

/-- The place of what is left of a text. Some lines may be uncounted: those that end behind a
backslash. -/
def Place.At (source : List Char) (p : Place) (rest : List Char) : Prop :=
  ∃ before, source = before ++ rest ∧ p.offset = byteLength before ∧
    1 ≤ p.line ∧ p.line ≤ lineCount before

namespace Place.At

variable {source cs rest : List Char} {p q : Place}

/-- Characters are read. -/
theorem skip (h : p.At source (cs ++ rest)) (hoffset : q.offset = p.offset + byteLength cs)
    (hle : p.line ≤ q.line) (hline : q.line ≤ p.line + cs.count '\n') : q.At source rest := by
  obtain ⟨before, hsource, hp, hpos, hcount⟩ := h
  refine ⟨before ++ cs, by rw [hsource, List.append_assoc], ?_, Nat.le_trans hpos hle, ?_⟩
  · rw [hoffset, hp, Text.byteLength_append]
  · rw [Text.lineCount_append]
    omega

/-- Characters of one byte are read. -/
theorem skipPlain (h : p.At source (cs ++ rest)) (hcs : Plain cs)
    (hoffset : q.offset = p.offset + cs.length) (hline : q.line = p.line) : q.At source rest :=
  h.skip (by rw [hoffset, hcs.byteLength]) (Nat.le_of_eq hline.symm) (by omega)

/-- What is left is located where the place is, also on a later line. -/
theorem located {line : Nat} (h : p.At source rest) (hle : p.line ≤ line)
    (hline : line ≤ p.line + rest.count '\n') : Located source p.offset line := by
  obtain ⟨before, rfl, hp, hpos, hcount⟩ := h
  refine ⟨⟨before, rest, rfl, hp.symm⟩, Nat.le_trans hpos hle, ?_⟩
  rw [Text.lineCount_append]
  omega

theorem located_self (h : p.At source rest) : Located source p.offset p.line :=
  h.located (Nat.le_refl _) (Nat.le_add_right ..)

theorem suffix (h : p.At source rest) : rest <:+ source := by
  obtain ⟨before, rfl, -⟩ := h
  exact List.suffix_append ..

end Place.At

/-! ## Parts of tokens -/

/-- What reading a text literal comes to: it has moved on by the bytes that were read and counts no
line too many, or it has found no end or a broken escape. -/
def ReadsQuoted (line : Nat) (cs : List Char) : Except (SyntaxCause × Nat) Quoted → Prop
  | .ok q => line ≤ q.line ∧ ∃ read, cs = read ++ q.rest ∧ q.bytes = byteLength read ∧
      q.line ≤ line + read.count '\n'
  | .error (cause, l) => line ≤ l ∧ l ≤ line + cs.count '\n' ∧
      (cause = .brokenEscape → BrokenEscape cs)

/-- Some characters were read before. -/
theorem ReadsQuoted.after {line line' : Nat} {cs : List Char} {f : Quoted → Quoted}
    {r : Except (SyntaxCause × Nat) Quoted} (first : List Char) (h : ReadsQuoted line' cs r)
    (hle : line ≤ line')
    (hline : line' ≤ line + first.count '\n')
    (hf : ∀ q, (f q).bytes = q.bytes + byteLength first ∧ (f q).line = q.line ∧ (f q).rest = q.rest)
      :
    ReadsQuoted line (first ++ cs) (r.map f) := by
  cases r with
  | error e =>
    obtain ⟨cause, l⟩ := e
    obtain ⟨hl, hcount, hescape⟩ := h
    refine ⟨Nat.le_trans hle hl, ?_, fun he =>
      (hescape he).mono (List.suffix_append first cs).isInfix⟩
    rw [List.count_append]
    omega
  | ok q =>
    obtain ⟨hl, read, rfl, hbytes, hcount⟩ := h
    obtain ⟨hbytes', hline', hrest⟩ := hf q
    refine ⟨?_, first ++ read, ?_, ?_, ?_⟩
    · rw [hline']
      exact Nat.le_trans hle hl
    · rw [hrest, List.append_assoc]
    · rw [hbytes', hbytes, Text.byteLength_append, Nat.add_comm]
    · rw [hline', List.count_append]
      omega

theorem quoted_reads {quote : Char} (hquote : quote.toNat < 128) (line : Nat) (cs : List Char) :
    ReadsQuoted line cs (quoted quote line cs) := by
  fun_induction quoted quote line cs with
  | case1 line => exact ⟨Nat.le_refl _, Nat.le_add_right .., nofun⟩
  | case2 line cs =>
    refine ⟨Nat.le_refl _, [quote], rfl, ?_, Nat.le_add_right ..⟩
    rw [Text.byteLength_cons, Text.utf8Size_of_ascii hquote, Text.byteLength_nil]
  | case3 line => exact ⟨Nat.le_refl _, Nat.le_add_right .., nofun⟩
  | case4 line e cs hascii _ ih =>
    refine ih.after ['\\', e] (Nat.le_refl _) (Nat.le_add_right ..) fun q => ⟨?_, rfl, rfl⟩
    rw [Text.byteLength_cons, Text.byteLength_cons, Text.utf8Size_of_ascii hascii]
    rfl
  | case5 line e cs hwide =>
    exact ⟨Nat.le_refl _, Nat.le_add_right .., fun _ => ⟨e, Nat.not_lt.1 hwide, [], cs, rfl⟩⟩
  | case6 line c cs _ _ ih =>
    refine ih.after [c] ?_ ?_ fun q => ⟨by rw [Text.byteLength_cons, Text.byteLength_nil]; rfl, rfl,
      rfl⟩
    · split <;> omega
    · split
      · next h => rw [h]; exact Nat.le_refl _
      · exact Nat.le_add_right ..

/-- Reading a number takes digits and points from the front, at least one. -/
theorem number_reads {c : Char} (hc : Text.isAsciiDigit c = true) (cs : List Char) :
    ∃ written rest, (number (c :: cs)).2 = (written, rest) ∧ c :: cs = written ++ rest ∧
      Plain written ∧ written ≠ [] := by
  have hsplit : c :: cs = (c :: cs).takeWhile Text.isAsciiDigit ++
      (c :: cs).dropWhile Text.isAsciiDigit := List.takeWhile_append_dropWhile.symm
  have hwhole := plain_of_span plain_digit (c :: cs)
  have hne : (c :: cs).takeWhile Text.isAsciiDigit ≠ [] := by
    rw [List.takeWhile_cons, if_pos hc]
    exact List.cons_ne_nil _ _
  unfold number
  rw [List.span_eq_takeWhile_dropWhile]
  generalize (c :: cs).takeWhile Text.isAsciiDigit = whole at *
  generalize (c :: cs).dropWhile Text.isAsciiDigit = tail at *
  dsimp only
  have hpoint : Plain ['.'] := plain_of_all rfl
  split
  · next d tail =>
    split
    · rw [List.span_eq_takeWhile_dropWhile]
      refine ⟨_, _, rfl, ?_, hwhole.append ?_, ?_⟩
      · rw [hsplit, List.append_assoc, List.cons_append, List.takeWhile_append_dropWhile]
      · exact hpoint.append (plain_of_span plain_digit _)
      · exact List.append_ne_nil_of_left_ne_nil hne _
    · exact ⟨_, _, rfl, hsplit, hwhole, hne⟩
  · exact ⟨_, _, rfl, hsplit, hwhole, hne⟩

end Token

namespace Mark

theorem append_of_ofChars? {cs rest : List Char} {m : Mark} (h : ofChars? cs = some (m, rest)) :
    cs = m.symbol.toList ++ rest := by
  unfold ofChars? at h
  split at h <;> cases h <;> rfl

theorem plain_symbol (m : Mark) : Token.Plain m.symbol.toList ∧ m.symbol.toList ≠ [] := by
  cases m <;> exact ⟨Token.plain_of_all rfl, nofun⟩

end Mark

namespace Token

/-! ## Steps -/

/-- What a step of scanning comes to: it has read at least one character, and a token that it has
read is located, or it has found an error that is located. -/
def Steps (source cs : List Char) : Except SyntaxError (Option Token × Place × List Char) → Prop
  | .ok (token, p, rest) => p.At source rest ∧ rest.length ≤ cs.length ∧ ∀ t ∈ token, t.Within
    source
  | .error e => e.Within source

/-- Characters of one byte are read, and a token that is read starts with them. -/
theorem Steps.of_plain {source cs read rest : List Char} {p q : Place} {c : Char}
    {token : Option Token} (h : p.At source (c :: cs)) (hsplit : c :: cs = read ++ rest)
    (hread : Plain read) (hne : read ≠ []) (hoffset : q.offset = p.offset + read.length)
    (hline : q.line = p.line) (htoken : ∀ t ∈ token, t.offset = p.offset ∧ t.line = p.line) :
    Steps source cs (.ok (token, q, rest)) := by
  have hlength : cs.length + 1 = read.length + rest.length := by
    rw [← List.length_append, ← hsplit, List.length_cons]
  refine ⟨(hsplit ▸ h).skipPlain hread hoffset hline, ?_, fun t ht => ?_⟩
  · have := List.length_pos_iff.2 hne
    omega
  · rw [Token.Within, (htoken t ht).1, (htoken t ht).2]
    exact h.located_self

/-- Every step of scanning reads something, or fails at a place of the text. -/
theorem step_reads (statements : Bool) {source cs : List Char} {p : Place} {c : Char}
    (h : p.At source (c :: cs)) : Steps source cs (step statements p c cs) := by
  have hself := h.located_self
  unfold step
  split
  · next hc =>
    -- the end of a line
    have h : p.At source ([c] ++ cs) := h
    refine ⟨h.skip ?_ (Nat.le_succ _) ?_, Nat.le_refl _, fun t ht => ?_⟩
    · rw [hc]
      rfl
    · rw [hc]
      exact Nat.le_refl _
    · split at ht
      · obtain rfl := Option.some.inj ht
        exact hself
      · cases ht
  split
  · next hc =>
    -- a blank
    refine Steps.of_plain h (List.singleton_append (x := c)).symm ?_ (List.cons_ne_nil _ _) rfl rfl
      nofun
    rcases hc with rfl | rfl | rfl <;> exact plain_of_all rfl
  split
  · next hc =>
    -- a comment
    obtain rfl : c = '#' := eq_of_beq (Bool.and_eq_true_iff.1 hc).2
    rw [List.span_eq_takeWhile_dropWhile]
    have h : p.At source (('#' :: cs.takeWhile (· != '\n')) ++ cs.dropWhile (· != '\n')) := by
      rwa [List.cons_append, List.takeWhile_append_dropWhile]
    refine ⟨h.skip ?_ (Nat.le_refl _) (Nat.le_add_right ..), (List.dropWhile_suffix _).length_le,
      nofun⟩
    rw [Text.byteLength_cons]
    exact Nat.add_assoc ..
  split
  · next hc =>
    -- a text literal
    have hascii : c.toNat < 128 := by rcases hc with rfl | rfl <;> decide
    have hquoted := quoted_reads hascii p.line cs
    split
    · next cause line heq =>
      rw [heq] at hquoted
      obtain ⟨hle, hline, hescape⟩ := hquoted
      refine ⟨h.located hle (Nat.le_trans hline ?_), fun he => (hescape he).mono ?_⟩
      · exact Nat.add_le_add_left (List.sublist_cons_self c cs |>.count_le _) _
      · exact (List.suffix_cons c cs).isInfix.trans h.suffix.isInfix
    · next q heq =>
      rw [heq] at hquoted
      obtain ⟨hle, read, rfl, hbytes, hline⟩ := hquoted
      have hline : q.line ≤ p.line + (c :: read).count '\n' :=
        Nat.le_trans hline (Nat.add_le_add_left ((List.sublist_cons_self c read).count_le _) _)
      have h : p.At source ((c :: read) ++ q.rest) := h
      refine ⟨h.skip ?_ hle hline, ?_, fun t ht => ?_⟩
      · rw [Text.byteLength_cons, Text.utf8Size_of_ascii hascii, hbytes]
        exact Nat.add_assoc ..
      · rw [List.length_append]
        exact Nat.le_add_left ..
      · obtain rfl := Option.some.inj ht
        refine h.located hle (Nat.le_trans hline (Nat.add_le_add_left ?_ _))
        exact (List.sublist_append_left (c :: read) q.rest).count_le _
  split
  · next hc =>
    obtain ⟨written, rest, hnumber, hsplit, hwritten, hne⟩ := number_reads hc cs
    split
    · exact ⟨hself, nofun⟩
    · next lexeme _ _ heq =>
      rw [heq] at hnumber
      obtain ⟨rfl, rfl⟩ := Prod.mk.inj hnumber
      refine Steps.of_plain h hsplit hwritten hne rfl rfl fun t ht => ?_
      obtain rfl := Option.some.inj ht
      exact ⟨rfl, rfl⟩
  split
  · next hc =>
    -- a name
    rw [List.span_eq_takeWhile_dropWhile]
    refine Steps.of_plain h List.takeWhile_append_dropWhile.symm (plain_of_span plain_namePart _) ?_
      rfl rfl fun t ht => ?_
    · rw [List.takeWhile_cons, if_pos (by rw [isNamePart, hc, Bool.true_or])]
      exact List.cons_ne_nil _ _
    · obtain rfl := Option.some.inj ht
      exact ⟨rfl, rfl⟩
  · split
    · exact ⟨hself, nofun⟩
    · next m rest heq =>
      obtain ⟨hplain, hne⟩ := m.plain_symbol
      refine Steps.of_plain h (Mark.append_of_ofChars? heq) hplain hne ?_ rfl fun t ht => ?_
      · rw [String.length_toList]
      · obtain rfl := Option.some.inj ht
        exact ⟨rfl, rfl⟩

end Token

/-- Tokens that are located in their text, and so is their end. -/
structure TokenList.Within (source : List Char) (list : TokenList) : Prop where
  /-- Every token is located. -/
  tokens : ∀ t ∈ list.tokens, t.Within source
  /-- The end is located. -/
  stop : Located source list.endOffset list.endLine

namespace Token

/-! ## Scans -/

/-- What a scan comes to. -/
def Scans (source : List Char) : Except SyntaxError TokenList → Prop
  | .ok list => list.Within source
  | .error e => e.Within source

/-- A scan that has a step for each character is complete, whatever the number of its steps. -/
theorem scanFrom_scans (statements : Bool) {source rest : List Char} {p : Place}
    {steps steps' : Nat}
    (h : p.At source rest) (hsteps : rest.length ≤ steps) (hsteps' : rest.length ≤ steps') :
    scanFrom statements steps p rest = scanFrom statements steps' p rest ∧
      Scans source (scanFrom statements steps p rest) := by
  induction steps generalizing steps' p rest with
  | zero =>
    obtain rfl := List.eq_nil_of_length_eq_zero (Nat.le_zero.1 hsteps)
    cases steps' <;> exact ⟨rfl, nofun, h.located_self⟩
  | succ steps ih =>
    cases rest with
    | nil => cases steps' <;> exact ⟨rfl, nofun, h.located_self⟩
    | cons c cs =>
      obtain ⟨steps', rfl⟩ := Nat.exists_eq_add_of_lt (Nat.lt_of_lt_of_le (Nat.zero_lt_succ _)
        hsteps')
      rw [Nat.zero_add, scanFrom, scanFrom]
      have hstep := step_reads statements h
      cases heq : step statements p c cs with
      | error e =>
        rw [heq] at hstep
        exact ⟨rfl, hstep⟩
      | ok read =>
        obtain ⟨token, q, rest⟩ := read
        rw [heq] at hstep
        obtain ⟨hq, hlength, htoken⟩ := hstep
        have hrest (n : Nat) (hn : (c :: cs).length ≤ n + 1) : rest.length ≤ n :=
          Nat.le_trans hlength (Nat.le_of_succ_le_succ hn)
        obtain ⟨hsame, hscans⟩ := ih hq (hrest steps hsteps) (hrest steps' (by omega))
        simp only [bind, Except.bind, ← hsame, true_and]
        cases hlist : scanFrom statements steps q rest with
        | error e =>
          rw [hlist] at hscans
          exact hscans
        | ok list =>
          rw [hlist] at hscans
          cases token with
          | none => exact hscans
          | some t => exact ⟨List.forall_mem_cons.2 ⟨htoken t rfl, hscans.tokens⟩, hscans.stop⟩

theorem at_start (source : List Char) : Place.At source ⟨0, 1, 0⟩ source :=
  ⟨[], rfl, rfl, Nat.le_refl _, Nat.le_refl _⟩

theorem scan_scans (statements : Bool) (source : String) :
    Scans source.toList (scan statements source) :=
  (scanFrom_scans statements (at_start source.toList) (Nat.le_refl _) (Nat.le_refl _)).2

end Token
end ReactiveView
