import ReactiveView.Proofs.Parsing.Templates

/-!
# Where errors of expressions are reported

An expression of a template stands between double braces or between the quotes of an attribute
value, and is cut out of what stands there before it is read: blanks, marks and control words are
dropped in front of it. Reading the expression stops at a token, at a character that begins none, or
at the end (`SyntaxError.StopsIn`). The reader of the template adds the offset of that place in the
expression to the offset behind the opening braces or the opening quote (`TemplateError.Counted`),
whatever was dropped. So an error is reported too early by exactly the bytes that stand between the
opening mark and the expression; this is `parseTemplate_counted`.
-/

namespace ReactiveView

open Text (Stands byteLength)

/-! ## Where reading an expression stops -/

/-- A character stands at an offset of a text. -/
def Text.Holds (cs : List Char) (offset : Nat) : Prop := ∃ c, Stands cs offset [c]

/-- Where reading an expression stops. -/
inductive SyntaxError.StopsIn (text : List Char) (error : SyntaxError) : Prop where
  /-- At a character that begins no token. -/
  | character (scan : Token.scan false (String.ofList text) = .error error)
    (holds : Text.Holds text error.offset)
  /-- At a token. -/
  | token {list : TokenList} (scan : Token.scan false (String.ofList text) = .ok list)
    (starts : ∃ t ∈ list.tokens, t.offset = error.offset) (holds : Text.Holds text error.offset)
  /-- At the end of the text. -/
  | atEnd (offset : error.offset = byteLength text)

namespace Token

/-- A step that begins at an offset reads its token, or fails, there. -/
def BeginsAt (offset : Nat) : Except SyntaxError (Option Token × Place × List Char) → Prop
  | .ok (token, _, _) => ∀ t ∈ token, t.offset = offset
  | .error e => e.offset = offset

theorem step_beginsAt (statements : Bool) (p : Place) (c : Char) (cs : List Char) :
    BeginsAt p.offset (step statements p c cs) := by
  have hsome {q : Place} {left : List Char} (t : Token) (h : t.offset = p.offset) :
      BeginsAt p.offset (.ok (some t, q, left)) := by
    rintro _ ⟨⟩
    exact h
  unfold step
  split
  · -- the end of a line, which may be a token
    dsimp only
    split
    · exact hsome _ rfl
    · exact nofun
  split
  · -- a blank
    exact nofun
  split
  · -- a comment
    exact nofun
  split
  · -- a text literal
    split
    · rfl
    · exact hsome _ rfl
  split
  · -- a number
    split
    · rfl
    · exact hsome _ rfl
  split
  · -- a name
    exact hsome _ rfl
  · split
    · rfl
    · exact hsome _ rfl

/-- Where the tokens of a scan, its error and its end are. -/
def Locates (source : List Char) : Except SyntaxError TokenList → Prop
  | .ok list => (∀ t ∈ list.tokens, Text.Holds source t.offset) ∧ list.endOffset = byteLength source
  | .error e => Text.Holds source e.offset

theorem scanFrom_locates (statements : Bool) {source rest : List Char} {p : Place} {steps : Nat}
    (h : p.At source rest) (hsteps : rest.length ≤ steps) :
    Locates source (scanFrom statements steps p rest) := by
  have hend {p : Place} (h : p.At source []) : p.offset = byteLength source := by
    obtain ⟨before, rfl, hoffset, -⟩ := h
    rw [hoffset, List.append_nil]
  induction steps generalizing p rest with
  | zero =>
    obtain rfl := List.eq_nil_of_length_eq_zero (Nat.le_zero.1 hsteps)
    exact ⟨nofun, hend h⟩
  | succ steps ih =>
    cases rest with
    | nil => exact ⟨nofun, hend h⟩
    | cons c cs =>
      have hholds : Text.Holds source p.offset := by
        obtain ⟨before, rfl, hoffset, -⟩ := h
        exact ⟨c, before, cs, rfl, hoffset.symm⟩
      have hreads := step_reads statements h
      have hbegins := step_beginsAt statements p c cs
      rw [scanFrom]
      cases hstep : step statements p c cs with
      | error e =>
        rw [hstep] at hbegins
        have hoffset : e.offset = p.offset := hbegins
        show Text.Holds source e.offset
        rwa [hoffset]
      | ok read =>
        obtain ⟨token, q, left⟩ := read
        rw [hstep] at hreads hbegins
        obtain ⟨hq, hlength, -⟩ := hreads
        have hlocates := ih hq (Nat.le_trans hlength (Nat.le_of_succ_le_succ hsteps))
        simp only [bind, Except.bind]
        cases hlist : scanFrom statements steps q left with
        | error e =>
          rw [hlist] at hlocates
          exact hlocates
        | ok list =>
          rw [hlist] at hlocates
          obtain ⟨htokens, hlast⟩ := hlocates
          cases token with
          | none => exact ⟨htokens, hlast⟩
          | some t =>
            have ht : t.offset = p.offset := hbegins t rfl
            exact ⟨List.forall_mem_cons.2 ⟨ht ▸ hholds, htokens⟩, hlast⟩

end Token

/-- A failure stops at the first of the tokens that were left, or at the end. -/
theorem Parser.Failure.stopsIn {text : List Char} {list : TokenList}
    (hscan : Token.scan false (String.ofList text) = .ok list)
    (hlocates : Token.Locates text (.ok list)) {f : Failure} (hf : f.rest <:+ list.tokens) :
    (f.toError list).StopsIn text := by
  unfold Failure.toError
  split
  · next t _ hrest =>
    have hmem : t ∈ list.tokens := hf.subset (hrest ▸ List.mem_cons_self)
    exact .token hscan ⟨t, hmem, rfl⟩ (hlocates.1 t hmem)
  · exact .atEnd hlocates.2

/-- Where reading an expression stops is a place of its text. -/
theorem parseExpression_stopsIn {text : List Char} {error : SyntaxError}
    (h : parseExpression (String.ofList text) = .error error) : error.StopsIn text := by
  have hlocates : Token.Locates text (Token.scan false (String.ofList text)) := by
    unfold Token.scan
    rw [String.toList_ofList]
    exact Token.scanFrom_locates false (Token.at_start text) (Nat.le_refl _)
  unfold parseExpression at h
  cases hscan : Token.scan false (String.ofList text) with
  | error e =>
    rw [hscan] at h hlocates
    obtain rfl : e = error := Except.error.inj h
    exact .character hscan hlocates
  | ok list =>
    rw [hscan] at h hlocates
    have hreads := Parser.reads_expression list.tokens
    simp only [bind, Except.bind] at h
    split at h
    · next f heq =>
      exact Except.error.inj h ▸ Parser.Failure.stopsIn hscan hlocates (hreads.stop heq).1
    · cases h
    · next e' left _ heq =>
      exact Except.error.inj h ▸ Parser.Failure.stopsIn hscan hlocates (hreads.rest heq).1

/-! ## Marks around expressions -/

/-- The marks between which expressions stand. -/
inductive Encloses : (opening closing : List Char) → Prop where
  /-- Double braces. -/
  | braces : Encloses ['\x7b', '\x7b'] ['\x7d', '\x7d']
  /-- Double quotes. -/
  | quotes : Encloses ['"'] ['"']
  /-- Single quotes. -/
  | ticks : Encloses ['\''] ['\'']

/-- A text that stands in a source between two marks, of which the second is the first of its kind
behind the first. Other characters may stand in front of the text and behind it. -/
structure Enclosed (source : List Char) where
  /-- What stands before the marks. -/
  before : List Char
  /-- The first mark. -/
  opening : List Char
  /-- What was skipped in front of the text. -/
  skipped : List Char
  /-- The text. -/
  text : List Char
  /-- What stands between the text and the second mark. -/
  rest : List Char
  /-- The second mark. -/
  closing : List Char
  /-- What stands behind the marks. -/
  after : List Char
  /-- The marks belong together. -/
  encloses : Encloses opening closing
  /-- The second mark does not stand anywhere between them. -/
  free : ¬ closing <:+: skipped ++ text ++ rest
  /-- All together is the source. -/
  source_eq : source = before ++ opening ++ (skipped ++ text ++ rest) ++ closing ++ after

namespace Enclosed

variable {source : List Char}

/-- The offset behind the first mark. -/
def base (x : Enclosed source) : Nat := byteLength (x.before ++ x.opening)

/-- The offset of the text. -/
def start (x : Enclosed source) : Nat := byteLength (x.before ++ x.opening ++ x.skipped)

theorem start_eq (x : Enclosed source) : x.start = x.base + byteLength x.skipped :=
  Text.byteLength_append ..

end Enclosed

/-- A text that stands between two marks, of which the first ends at an offset. -/
def Behind (source : List Char) (offset : Nat) (text : List Char) : Prop :=
  ∃ x : Enclosed source, x.base = offset ∧ x.text = text

/-- An error of an expression that stands between two marks. The place at which reading it stopped
is counted from the first mark on, as if nothing had been skipped. -/
def TemplateError.Counted (source : List Char) (e : TemplateError) : Prop :=
  ∃ (x : Enclosed source) (error : SyntaxError),
    parseExpression (String.ofList x.text) = .error error ∧ error.StopsIn x.text ∧
    e.detail = some error.cause.message ∧
    e.position = Position.ofOffset source (x.base + error.offset) ∧
    e.position.offset + byteLength x.skipped = x.start + error.offset

theorem Behind.mono {source text part : List Char} {offset : Nat} (h : Behind source offset text)
    (hpart : part <:+: text) : Behind source offset part := by
  obtain ⟨x, hbase, rfl⟩ := h
  obtain ⟨first, last, hsplit⟩ := hpart
  have hbetween : x.skipped ++ first ++ part ++ (last ++ x.rest) =
      x.skipped ++ x.text ++ x.rest := by
    rw [← hsplit]
    simp only [List.append_assoc]
  refine ⟨⟨x.before, x.opening, x.skipped ++ first, part, last ++ x.rest, x.closing, x.after,
    x.encloses, ?_, ?_⟩, hbase, rfl⟩
  · rw [hbetween]
    exact x.free
  · rw [hbetween]
    exact x.source_eq

/-- What stands between two marks. -/
theorem Text.Stands.behind {source opening content closing after : List Char} {offset : Nat}
    (h : Stands source offset (opening ++ (content ++ (closing ++ after))))
    (hmarks : Encloses opening closing) (hfree : ¬ closing <:+: content) :
    Behind source (offset + byteLength opening) content := by
  obtain ⟨before, behind, hsource, rfl⟩ := h
  refine ⟨⟨before, opening, [], content, [], closing, after ++ behind, hmarks, ?_, ?_⟩,
    Text.byteLength_append .., rfl⟩
  · rwa [List.nil_append, List.append_nil]
  · rw [hsource]
    simp only [List.append_assoc, List.nil_append]

/-- The text before the first occurrence of a mark does not have it. -/
theorem Text.not_infix_of_splitAt? {needle cs before rest : List Char} (hneedle : needle ≠ [])
    (h : splitAt? needle cs = some (before, rest)) : ¬ needle <:+: before := by
  induction cs generalizing before with
  | nil =>
    obtain ⟨_, -, hpair⟩ := Option.map_eq_some_iff.1 h
    obtain ⟨rfl, -⟩ := Prod.mk.inj hpair
    exact fun hin => hneedle (List.infix_nil.1 hin)
  | cons c cs ih =>
    unfold splitAt? at h
    split at h
    · obtain ⟨rfl, -⟩ := Prod.mk.inj (Option.some.inj h)
      exact fun hin => hneedle (List.infix_nil.1 hin)
    · next hdrop =>
      obtain ⟨⟨before', rest'⟩, hcut, hpair⟩ := Option.map_eq_some_iff.1 h
      obtain ⟨rfl, rfl⟩ := Prod.mk.inj hpair
      rw [List.infix_cons_iff]
      rintro (⟨last, hlast⟩ | hin)
      · -- the mark would stand at the front
        have hfront : c :: cs = needle ++ (last ++ needle ++ rest') := by
          rw [append_of_splitAt? hcut, ← List.append_assoc, ← List.append_assoc, hlast]
          rfl
        rw [hfront, dropPrefix?_append] at hdrop
        cases hdrop
      · exact ih hcut hin

/-! ## Readers -/

namespace TemplateReader

variable {α β : Type} {ctx : Context} {c : Cursor} {P : α → Cursor → Prop} {Q : β → Cursor → Prop}

/-- What a reader comes to in a source: it leaves a cursor of the source with `P` true of what it
gives, or fails, and if it fails at an expression, then with an error that is counted from the mark
in front of that. -/
structure Counts (source : List Char) (P : α → Cursor → Prop)
    (r : Except TemplateError (α × Cursor)) : Prop where
  /-- What it gives. -/
  done : ∀ {a c}, r = .ok (a, c) → c.At source ∧ P a c
  /-- How it fails. -/
  stop : ∀ {e}, r = .error e → e.fault = .invalidExpression → e.Counted source

/-- Nothing is said of what a reader gives. -/
abbrev Anything (_ : α) (_ : Cursor) : Prop := True

/-- A reader that never fails at an expression. -/
theorem Lands.counts {source : List Char} {k : Nat} {r : Except TemplateError (α × Cursor)}
    (h : Reaches source k c P r) (hr : ∀ e, r = .error e → e.fault ≠ .invalidExpression) :
    Counts source P r where
  done hok := ⟨(h.done hok).1, (h.done hok).2.2⟩
  stop herror hfault := absurd hfault (hr _ herror)

theorem counts_pure {source : List Char} {a : α} (hc : c.At source) (ha : P a c) :
    Counts source P (.ok (a, c)) where
  done h := by
    obtain ⟨rfl, rfl⟩ := Prod.mk.inj (Except.ok.inj h)
    exact ⟨hc, ha⟩
  stop := nofun

/-- One thing is read, and then another. -/
theorem Counts.bind {source : List Char} {m : TemplateReader α} {f : α → TemplateReader β}
    (h : Counts source P (m ctx c))
    (hf : ∀ a c', c'.At source → P a c' → Counts source Q (f a ctx c')) :
    Counts source Q ((m >>= f) ctx c) := by
  have hbind : (m >>= f) ctx c = (m ctx c).bind fun (a, c') => f a ctx c' := rfl
  rw [hbind]
  cases hm : m ctx c with
  | error e =>
    refine ⟨nofun, fun he hfault => ?_⟩
    obtain rfl := Except.error.inj he
    exact h.stop hm hfault
  | ok read =>
    obtain ⟨a, c'⟩ := read
    obtain ⟨hat, ha⟩ := h.done hm
    exact hf a c' hat ha

theorem Counts.mono {source : List Char} {P' : α → Cursor → Prop}
    {r : Except TemplateError (α × Cursor)} (h : Counts source P r) (hP : ∀ a c, P a c → P' a c) :
    Counts source P' r where
  done hr := (h.done hr).imp_right (hP _ _)
  stop := h.stop

/-- Another failure than one at an expression. -/
theorem counts_fail {source : List Char} {fault : TemplateFault} {p : Position}
    (hfault : fault ≠ .invalidExpression) (detail : Option String) :
    Counts source P (fail fault p detail ctx c) where
  done := nofun
  stop h he := by
    obtain rfl := Except.error.inj h
    exact absurd he hfault

theorem counts_fail_bind {source : List Char} {fault : TemplateFault} {p : Position}
    (hfault : fault ≠ .invalidExpression) (detail : Option String) {f : α → TemplateReader β} :
    Counts source Q ((fail fault p detail >>= f) ctx c) :=
  (counts_fail (P := fun _ _ => False) hfault detail).bind fun _ _ _ h => h.elim

/-! ## Steps -/

section Steps

variable {source : List Char}

/-- Where the reader stands, it looks at what is left. -/
theorem counts_rest {f : List Char → TemplateReader α} (h : Counts source P (f c.rest ctx c)) :
    Counts source P ((rest >>= f) ctx c) := h

/-- The reader looks at what stays the same. -/
theorem counts_read {f : Context → TemplateReader α} (h : Counts source P (f ctx ctx c)) :
    Counts source P ((read >>= f) ctx c) := h

/-- Where the reader stands, it looks at its position. -/
theorem counts_here {f : Position → TemplateReader α} (h : Counts source P (f c.position ctx c)) :
    Counts source P ((here >>= f) ctx c) := h

/-- The stretch up to where the reader stands. -/
theorem counts_spanFrom {start : Position} {f : Span → TemplateReader α}
    (h : Counts source P (f ⟨start, c.position⟩ ctx c)) :
    Counts source P ((spanFrom start >>= f) ctx c) := h

theorem counts_skipOver {cs rest : List Char} (hc : c.At source) (hrest : c.rest = cs ++ rest) :
    Counts source (fun _ c' => c' = ⟨rest, c.position.after cs⟩) (skipOver cs rest ctx c) where
  done h := by
    obtain ⟨-, rfl⟩ := Prod.mk.inj (Except.ok.inj h)
    exact ⟨hc.skip hrest, rfl⟩
  stop := nofun

theorem counts_takeWhile (p : Char → Bool) (hc : c.At source) :
    Counts source Anything (takeWhile p ctx c) :=
  ((lands_takeWhile p hc).counts nofun).mono fun _ _ _ => trivial

theorem counts_skipBlanks (hc : c.At source) : Counts source Anything (skipBlanks ctx c) :=
  (lands_skipBlanks hc).counts nofun

theorem counts_eat (start : String) (hc : c.At source) :
    Counts source Anything (eat start ctx c) := by
  refine counts_rest ?_
  cases heq : Text.dropPrefix? start.toList c.rest with
  | none => exact counts_pure hc trivial
  | some rest =>
    exact (counts_skipOver hc (Text.append_of_dropPrefix? heq)).bind fun _ _ hc' _ =>
      counts_pure hc' trivial

theorem counts_eat_front {start : String} {rest : List Char} (hc : c.At source)
    (hrest : c.rest = start.toList ++ rest) :
    Counts source (fun _ c' => c' = ⟨rest, c.position.after start.toList⟩) (eat start ctx c) := by
  refine counts_rest ?_
  have hdrop : Text.dropPrefix? start.toList c.rest = some rest := by
    rw [hrest]
    exact Text.dropPrefix?_append ..
  rw [hdrop]
  exact (counts_skipOver hc hrest).bind fun _ c' hc' hleft => counts_pure hc' hleft

/-- What stands before the first occurrence of a mark is taken, with the mark. -/
theorem counts_takeThrough? {needle : String} (hneedle : needle.toList ≠ []) (hc : c.At source) :
    Counts source (fun taken c' => ∀ content ∈ taken,
      c.rest = content ++ (needle.toList ++ c'.rest) ∧ ¬ needle.toList <:+: content)
      (takeThrough? needle ctx c) := by
  refine counts_rest ?_
  cases heq : Text.splitAt? needle.toList c.rest with
  | none => exact counts_pure hc nofun
  | some cut =>
    obtain ⟨before, rest⟩ := cut
    have hrest := Text.append_of_splitAt? heq
    refine (counts_skipOver hc hrest).bind fun _ c' hc' hleft => ?_
    refine counts_pure hc' fun content hcontent => ?_
    obtain rfl : before = content := Option.some.inj hcontent
    rw [hleft, hrest, List.append_assoc]
    exact ⟨rfl, Text.not_infix_of_splitAt? hneedle heq⟩

end Steps

/-! ## Expressions inside the source -/

/-- An expression behind a mark; an error in it is counted from there. -/
theorem counts_expression {part : List Char} {offset : Nat} (hc : c.At ctx.source)
    (hpart : Behind ctx.source offset part) :
    Counts ctx.source Anything (expression part offset ctx c) := by
  unfold expression
  cases heq : parseExpression (String.ofList part) with
  | ok e => exact counts_pure hc trivial
  | error error =>
    refine ⟨nofun, fun he _ => ?_⟩
    obtain rfl := Except.error.inj he
    obtain ⟨x, rfl, rfl⟩ := hpart
    refine ⟨x, error, heq, parseExpression_stopsIn heq, rfl, rfl, ?_⟩
    calc
      (Position.ofOffset ctx.source (x.base + error.offset)).offset + byteLength x.skipped
        = x.base + error.offset + byteLength x.skipped := by rw [Position.offset_ofOffset]
      _ = x.base + byteLength x.skipped + error.offset := Nat.add_right_comm ..
      _ = x.start + error.offset := by rw [x.start_eq]

/-- What is found in braces, or else what was to be looked at, is a part of it. -/
theorem unwrap?_getD_part (first last : Char) (body : List Char) :
    (unwrap? first last body).getD body <:+: body := by
  cases hinner : unwrap? first last body with
  | none => exact List.infix_refl body
  | some inner => exact unwrap?_part hinner

theorem counts_formatParts {offset : Nat} {segments : List (List Char)} (hc : c.At ctx.source)
    (hsegments : ∀ segment ∈ segments, Behind ctx.source offset segment) (isExpr : Bool) :
    Counts ctx.source Anything (formatParts offset isExpr segments ctx c) := by
  induction segments generalizing isExpr c with
  | nil => exact counts_pure hc trivial
  | cons segment segments ih =>
    obtain ⟨hsegment, hsegments⟩ := List.forall_mem_cons.1 hsegments
    unfold formatParts
    split
    · have hbody (marked : Bool) (body : List Char) (hbody : body <:+: Text.trim segment) :
          Counts ctx.source Anything
            ((expression ((unwrap? '\x7b' '\x7d' body).getD body) offset >>= fun e =>
              formatParts offset false segments >>= fun read =>
                pure (FormatPart.expr e :: read.1, marked || read.2)) ctx c) := by
        have hpart : (unwrap? '\x7b' '\x7d' body).getD body <:+: segment :=
          (unwrap?_getD_part ..).trans (hbody.trans (Text.trim_part segment))
        refine (counts_expression hc (hsegment.mono hpart)).bind fun e c' hc' _ => ?_
        exact (ih hc' hsegments false).bind fun read c'' hc'' _ => counts_pure hc'' trivial
      generalize Text.trim segment = trimmed at *
      dsimp only
      split
      · exact hbody true _ (List.suffix_cons ..).isInfix
      · exact hbody false _ (List.infix_refl _)
    · refine (ih hc hsegments true).bind fun read c' hc' _ => ?_
      obtain ⟨parts, reactive⟩ := read
      dsimp only
      split
      · exact counts_pure hc' trivial
      · exact counts_pure hc' trivial

theorem counts_attributeValue {raw : List Char} {offset : Nat} (hc : c.At ctx.source)
    (hraw : Behind ctx.source offset raw) :
    Counts ctx.source Anything (attributeValue raw offset ctx c) := by
  have hbody (reactive : Bool) {body : List Char} (hbody : body <:+: raw) :
      Counts ctx.source Anything (attributeBody raw offset reactive body ctx c) := by
    unfold attributeBody
    cases hinner : unwrap? '\x7b' '\x7d' body with
    | some source =>
      have hpart : source <:+: raw := (unwrap?_part hinner).trans hbody
      exact (counts_expression hc (hraw.mono hpart)).bind fun _ _ hc' _ => counts_pure hc' trivial
    | none =>
      dsimp only
      split
      · have hsegments (segment : List Char) (h : segment ∈ Text.splitBy (· == '\x60') raw) :
            Behind ctx.source offset segment := hraw.mono (Text.splitBy_part h)
        exact (counts_formatParts hc hsegments false).bind fun _ _ hc' _ => counts_pure hc' trivial
      · exact counts_pure hc trivial
  have htrim := Text.trim_part raw
  unfold attributeValue
  generalize Text.trim raw = trimmed at *
  dsimp only
  split
  · exact hbody true ((List.suffix_cons ..).isInfix.trans htrim)
  · exact hbody false htrim

theorem counts_attributeOperand (name : String) {start : Position} (hc : c.At ctx.source) :
    Counts ctx.source Anything (attributeOperand name start ctx c) := by
  refine (counts_eat "=" hc).bind fun eaten c hc _ => ?_
  split
  · refine (counts_skipBlanks hc).bind fun _ c hc _ => ?_
    refine counts_rest ?_
    generalize hleft : c.rest = left
    split
    · exact counts_fail (by decide) none
    · next quote left =>
      split
      · next hquote =>
        have hopening : quote.toString.toList = [quote] := by
          rcases hquote with rfl | rfl <;> rfl
        have hmarks : Encloses [quote] [quote] := by
          rcases hquote with rfl | rfl
          · exact .quotes
          · exact .ticks
        have hfront : c.rest = quote.toString.toList ++ left := by
          rw [hleft, hopening]
          rfl
        refine (counts_eat_front hc hfront).bind fun _ c₁ hc₁ hafter => ?_
        refine counts_here ?_
        have hne : quote.toString.toList ≠ [] := by
          rw [hopening]
          exact List.cons_ne_nil quote []
        refine (counts_takeThrough? hne hc₁).bind fun raw c₂ hc₂ hraw => ?_
        cases raw with
        | none => exact counts_fail (by decide) none
        | some raw =>
          obtain ⟨hcontent, hfree⟩ := hraw raw rfl
          rw [hopening] at hcontent hfree
          have hstands : c.rest = ([quote] ++ (raw ++ ([quote] ++ c₂.rest))) ++ [] := by
            rw [← hcontent, hafter, hleft, List.append_nil]
            rfl
          have hbehind := (hc.stands hstands).behind hmarks hfree
          have hoffset : c₁.position.offset = c.position.offset + byteLength [quote] := by
            rw [hafter, hopening]
            exact (Position.after_eq _ _).1
          rw [← hoffset] at hbehind
          exact counts_attributeValue hc₂ hbehind
      · exact counts_fail (by decide) (some name)
  · exact counts_pure hc trivial

theorem counts_attributesAt (steps : Nat) (hc : c.At ctx.source) :
    Counts ctx.source Anything (attributesAt steps ctx c) := by
  induction steps generalizing c with
  | zero => exact counts_here (counts_fail (by decide) none)
  | succ steps ih =>
    refine (counts_skipBlanks hc).bind fun _ c hc _ => ?_
    refine counts_rest ?_
    generalize c.rest = left
    split
    · exact counts_here (counts_fail (by decide) none)
    · exact counts_pure hc trivial
    · exact counts_pure hc trivial
    · refine counts_here ?_
      refine (counts_takeWhile _ hc).bind fun name c₁ hc₁ _ => ?_
      split
      · exact counts_fail_bind (by decide) none
      · refine (counts_skipBlanks hc₁).bind fun _ c₂ hc₂ _ => ?_
        refine (counts_attributeOperand _ hc₂).bind fun value c₃ hc₃ _ => ?_
        refine counts_spanFrom ?_
        exact (ih hc₃).bind fun _ _ hc₄ _ => counts_pure hc₄ trivial

/-! ## Raw blocks -/

/-- The content of a raw block stands where the reader stood. -/
theorem counts_rawBody (tag : String) (selfClosing : Bool) {start : Position}
    (hc : c.At ctx.source) :
    Counts ctx.source (fun body _ => ∃ after, c.rest = body ++ after)
      (rawBody tag selfClosing start ctx c) := by
  unfold rawBody
  split
  · exact counts_pure hc ⟨c.rest, rfl⟩
  · have hne : ("</" ++ tag ++ ">").toList ≠ [] := by
      rw [String.toList_append, String.toList_append]
      exact List.cons_ne_nil _ _
    refine (counts_takeThrough? hne hc).bind fun body c' hc' hbody => ?_
    cases body with
    | none => exact counts_fail (by decide) _
    | some body => exact counts_pure hc' ⟨_, (hbody body rfl).1⟩

theorem counts_scriptParts (rounds : Nat) {offset : Nat} {body : List Char}
    (hc : c.At ctx.source) (hbody : Stands ctx.source offset body) :
    Counts ctx.source Anything (scriptParts rounds offset body ctx c) := by
  induction rounds generalizing offset body c with
  | zero => exact counts_pure hc trivial
  | succ rounds ih =>
    unfold scriptParts
    cases hopen : Text.splitAt? ['\x7b', '\x7b'] body with
    | none =>
      dsimp only
      split <;> exact counts_pure hc trivial
    | some cut =>
      obtain ⟨before, after⟩ := cut
      have hopened :
          Stands ctx.source (offset + byteLength before) (['\x7b', '\x7b'] ++ after) := by
        rw [Text.append_of_splitAt? hopen, List.append_assoc] at hbody
        exact hbody.right
      dsimp only
      cases hclose : Text.splitAt? ['\x7d', '\x7d'] after with
      | none => exact counts_read (counts_fail (by decide) none)
      | some cut =>
        obtain ⟨inside, tail⟩ := cut
        rw [Text.append_of_splitAt? hclose, List.append_assoc] at hopened
        have hinside : Behind ctx.source (offset + byteLength before + 2) inside :=
          hopened.behind .braces (Text.not_infix_of_splitAt? (List.cons_ne_nil _ _) hclose)
        have htail :
            Stands ctx.source (offset + byteLength before + 4 + byteLength inside) tail := by
          have hcount : offset + byteLength before + 4 + byteLength inside =
              offset + byteLength before + byteLength ['\x7b', '\x7b'] + byteLength inside +
                byteLength ['\x7d', '\x7d'] := by
            show _ = offset + byteLength before + 2 + byteLength inside + 2
            omega
          rw [hcount]
          exact hopened.right.right.right
        refine (counts_expression hc (hinside.mono (Text.trim_part inside))).bind
          fun e c' hc' _ => ?_
        refine (ih hc' htail).bind fun parts c'' hc'' _ => ?_
        split <;> exact counts_pure hc'' trivial

theorem counts_statements (body : List Char) (offset line : Nat) (hc : c.At ctx.source) :
    Counts ctx.source Anything (statements body offset line ctx c) := by
  unfold statements
  cases parseStatements (String.ofList body) with
  | ok ss => exact counts_pure hc trivial
  | error e => exact counts_fail (by decide) _

/-! ## Siblings -/

/-- A reader of siblings all of whose errors of expressions are counted so. -/
def CountsSiblings (ctx : Context) (s : TemplateReader Siblings) : Prop :=
  ∀ c : Cursor, c.At ctx.source → Counts ctx.source Anything (s ctx c)

variable {s : TemplateReader Siblings} {start : Position}

theorem counts_childrenOf (hs : CountsSiblings ctx s) (tag : String) (hc : c.At ctx.source) :
    Counts ctx.source Anything (childrenOf s tag start ctx c) := by
  refine (hs c hc).bind fun siblings c' hc' _ => ?_
  obtain ⟨nodes, stop⟩ := siblings
  cases stop with
  | closeTag name place =>
    dsimp only
    split
    · exact counts_pure hc' trivial
    · exact counts_fail (by decide) _
  | eof | elseIf | otherwise | endMark => exact counts_fail (by decide) _

/-- The children of a tag that may close itself. -/
theorem counts_children (hs : CountsSiblings ctx s) (tag : String) (selfClosing : Bool)
    (start : Position) (hc : c.At ctx.source) :
    Counts ctx.source Anything
      ((if selfClosing then return [] else childrenOf s tag start : TemplateReader (List Node)) ctx
        c) := by
  split
  · exact counts_pure hc trivial
  · exact counts_childrenOf hs tag hc

/-- What is read last leaves a node. -/
theorem counts_node {γ : Type} {make : Header → γ} {header : Span → Header} (hc : c.At ctx.source) :
    Counts ctx.source Anything
      (((do return header (← spanFrom start) : TemplateReader Header) >>= fun h =>
        pure (make h)) ctx c) := counts_pure hc trivial

theorem counts_directive (hs : CountsSiblings ctx s) (tag : String) (attributes : List Attribute)
    (selfClosing : Bool) (hc : c.At ctx.source) :
    Counts ctx.source Anything (directive s tag attributes selfClosing start ctx c) := by
  refine counts_here ?_
  have hchildren := counts_children hs tag selfClosing start hc
  have hbody : Counts ctx.source _ (rawBody tag selfClosing start ctx c) :=
    counts_rawBody tag selfClosing hc
  dsimp only
  generalize Tag.directiveName tag = directive
  split
  · refine hbody.bind fun body c₁ hc₁ _ => ?_
    exact (counts_statements body _ _ hc₁).bind fun ss c₂ hc₂ _ => counts_node hc₂
  · exact hbody.bind fun body c₁ hc₁ _ => counts_node hc₁
  · refine hbody.bind fun body c₁ hc₁ hafter => ?_
    obtain ⟨after, hafter⟩ := hafter
    exact (counts_scriptParts _ hc₁ (hc.stands hafter)).bind fun parts c₂ hc₂ _ => counts_node hc₂
  · exact hchildren.bind fun nodes c₁ hc₁ _ => counts_node hc₁
  · exact hchildren.bind fun nodes c₁ hc₁ _ => counts_node hc₁
  · exact hchildren.bind fun nodes c₁ hc₁ _ => counts_node hc₁
  · refine hchildren.bind fun nodes c₁ hc₁ _ => ?_
    generalize Attribute.literal? attributes "to" = signal
    generalize Attribute.literal? attributes "action" = action
    split
    · exact counts_node hc₁
    · exact counts_fail (by decide) _
  · cases takeAttribute? "is" attributes with
    | none => exact counts_fail (by decide) _
    | some found =>
      obtain ⟨is, others⟩ := found
      dsimp only
      generalize is.value = value
      cases value with
      | literal | dynamic =>
        simp only [pure_bind]
        exact hchildren.bind fun nodes c₁ hc₁ _ => counts_spanFrom (counts_pure hc₁ trivial)
      | empty => exact counts_fail_bind (by decide) _
  · exact counts_fail (by decide) _

/-- A check may fail before what follows. -/
theorem counts_check {fault : TemplateFault} {p : Position} (hfault : fault ≠ .invalidExpression)
    {detail : Option String} {fails : Bool} {next : Unit → TemplateReader α}
    (h : Counts ctx.source P (next () ctx c)) :
    Counts ctx.source P
      ((if fails then fail fault p detail >>= next else next ()) ctx c) := by
  split
  · exact counts_fail_bind hfault detail
  · exact h

/-- The end of a tag is read, if the tag has not closed itself. -/
theorem counts_tagEnd (selfClosing : Bool) {next : Unit → TemplateReader α} (hc : c.At ctx.source)
    (h : ∀ c' : Cursor, c'.At ctx.source → Counts ctx.source P (next () ctx c')) :
    Counts ctx.source P
      ((if !selfClosing then eat ">" >>= fun closed =>
          if !closed then fail .unclosedTag start none >>= next else next ()
        else next ()) ctx c) := by
  split
  · exact (counts_eat ">" hc).bind fun closed c' hc' _ => counts_check (by decide) (h c' hc')
  · exact h c hc

theorem counts_element (hs : CountsSiblings ctx s) (top : Bool) (hc : c.At ctx.source) :
    Counts ctx.source Anything (element s top ctx c) := by
  refine counts_here ?_
  refine (counts_eat "<" hc).bind fun _ c₁ hc₁ _ => ?_
  refine (counts_takeWhile isTagChar hc₁).bind fun tag c₂ hc₂ _ => ?_
  refine Counts.bind (counts_rest (counts_attributesAt _ hc₂)) fun attributes c₃ hc₃ _ => ?_
  refine (counts_eat "/>" hc₃).bind fun selfClosing c₄ hc₄ _ => ?_
  refine counts_tagEnd selfClosing hc₄ fun c₅ hc₅ => ?_
  have hchildren := counts_children hs (String.ofList tag) selfClosing c.position hc₅
  dsimp only
  generalize TagClass.ofTag (String.ofList tag) = cls
  cases cls with
  | root =>
    refine counts_check (by decide) ?_
    exact hchildren.bind fun nodes c₆ hc₆ _ => counts_node hc₆
  | control => exact counts_fail (by decide) _
  | directive => exact counts_directive hs _ attributes selfClosing hc₅
  | component => exact hchildren.bind fun nodes c₆ hc₆ _ => counts_node hc₆
  | element =>
    dsimp only
    split
    · rw [pure_bind]
      exact counts_node hc₅
    · exact hchildren.bind fun nodes c₆ hc₆ _ => counts_node hc₆

/-! ## Control constructs -/

theorem counts_macroCloseError (expected : String) (stop : Stop) :
    Counts ctx.source P (macroCloseError expected stop start ctx c) := by
  cases stop <;> exact counts_fail (by decide) _

theorem counts_macroCloseError_bind (expected : String) (stop : Stop)
    {f : α → TemplateReader β} :
    Counts ctx.source Q ((macroCloseError expected stop start >>= f) ctx c) :=
  (counts_macroCloseError (P := fun _ _ => False) expected stop).bind fun _ _ _ h => h.elim

theorem counts_branches (hs : CountsSiblings ctx s) (reactive : Bool) (rounds : Nat)
    (predicate : Option DynamicExpr) (seenElse : Bool) (hc : c.At ctx.source) :
    Counts ctx.source Anything (branches s reactive start rounds predicate seenElse ctx c) := by
  induction rounds generalizing predicate seenElse c with
  | zero => exact counts_macroCloseError "if" .eof
  | succ rounds ih =>
    refine (hs c hc).bind fun siblings c₁ hc₁ _ => ?_
    obtain ⟨nodes, stop⟩ := siblings
    dsimp only
    split
    · exact (ih _ _ hc₁).bind fun _ _ hc₂ _ => counts_pure hc₂ trivial
    · exact (ih _ _ hc₁).bind fun _ _ hc₂ _ => counts_pure hc₂ trivial
    · exact counts_pure hc₁ trivial
    · exact counts_macroCloseError "if" _

theorem counts_loopRest (hs : CountsSiblings ctx s) (var : String) (iterable : DynamicExpr)
    (identity : Option DynamicExpr) (hc : c.At ctx.source) :
    Counts ctx.source Anything (loopRest s var iterable identity start ctx c) := by
  refine (hs c hc).bind fun siblings c₁ hc₁ _ => ?_
  obtain ⟨nodes, stop⟩ := siblings
  have hloop (empty : Option (List Node)) {c₂ : Cursor} (hc₂ : c₂.At ctx.source) :
      Counts ctx.source Anything ((headerFrom "#for" start >>= fun h =>
        pure (Node.loop h var iterable identity (Node.arrange nodes) empty)) ctx c₂) :=
    counts_node hc₂
  dsimp only
  split
  · exact hloop none hc₁
  · refine (hs c₁ hc₁).bind fun siblings c₂ hc₂ _ => ?_
    obtain ⟨others, stop⟩ := siblings
    dsimp only
    split
    · exact hloop (some _) hc₂
    · exact counts_macroCloseError_bind "for" _
  · exact counts_macroCloseError_bind "for" _

theorem counts_loop (hs : CountsSiblings ctx s) {args : List Char} (reactive : Bool)
    (hc : c.At ctx.source) (hargs : Behind ctx.source (start.offset + 2) args) :
    Counts ctx.source Anything (loop s args reactive start ctx c) := by
  unfold loop
  cases hhead : loopHead? args with
  | none => exact counts_fail (by decide) _
  | some head =>
    obtain ⟨var, rest⟩ := head
    have hrest : Behind ctx.source (start.offset + 2) rest := hargs.mono (loopHead?_part hhead)
    dsimp only
    cases hcut : splitUnquoted '#' none rest with
    | none =>
      refine (counts_expression hc (hrest.mono (Text.trim_part rest))).bind fun e c₁ hc₁ _ => ?_
      exact counts_loopRest hs var _ none hc₁
    | some cut =>
      obtain ⟨before, after⟩ := cut
      obtain ⟨hbefore, hafter⟩ := splitUnquoted_parts hcut
      have hiterable := hrest.mono ((Text.trim_part before).trans hbefore.isInfix)
      have hidentity := hrest.mono ((Text.trim_part after).trans hafter.isInfix)
      refine (counts_expression hc hiterable).bind fun e c₁ hc₁ _ => ?_
      refine (counts_expression hc₁ hidentity).bind fun e' c₂ hc₂ _ => ?_
      exact counts_loopRest hs var _ (some _) hc₂

theorem counts_binding (hs : CountsSiblings ctx s) {args : List Char} (reactive : Bool)
    (hc : c.At ctx.source) (hargs : Behind ctx.source (start.offset + 2) args) :
    Counts ctx.source Anything (binding s args reactive start ctx c) := by
  unfold binding
  dsimp only
  cases hcut : Text.splitAt? [':', '='] args with
  | none => exact counts_fail (by decide) _
  | some cut =>
    obtain ⟨name, value⟩ := cut
    dsimp only
    split
    · exact counts_fail (by decide) _
    · have hvalue := hargs.mono ((Text.trim_part value).trans (Text.splitAt?_rest hcut).isInfix)
      refine (counts_expression hc hvalue).bind fun e c₁ hc₁ _ => ?_
      refine (hs c₁ hc₁).bind fun siblings c₂ hc₂ _ => ?_
      obtain ⟨nodes, stop⟩ := siblings
      dsimp only
      split
      · exact counts_node hc₂
      · exact counts_macroCloseError "set" _

theorem counts_mustacheBody (hs : CountsSiblings ctx s) (reactive : Bool) {body : List Char}
    (hc : c.At ctx.source) (hbody : Behind ctx.source (start.offset + 2) body) :
    Counts ctx.source Anything (mustacheBody s reactive body start ctx c) := by
  unfold mustacheBody
  split
  · exact counts_pure hc trivial
  · next tail =>
    have hargs : Behind ctx.source (start.offset + 2)
        (Text.trim (tail.span (!Text.isBlank ·)).2) := by
      rw [List.span_eq_takeWhile_dropWhile]
      have hdrop := (List.dropWhile_suffix (!Text.isBlank ·)).trans (List.suffix_cons '#' tail)
      exact hbody.mono ((Text.trim_part _).trans hdrop.isInfix)
    dsimp only
    generalize String.ofList (tail.span (!Text.isBlank ·)).1 = keyword
    generalize Text.trim (tail.span (!Text.isBlank ·)).2 = args at *
    have hcondition : Counts ctx.source Anything
        ((expression args (start.offset + 2) >>= fun e =>
          pure (DynamicExpr.of e reactive (String.ofList args))) ctx c) :=
      (counts_expression hc hargs).bind fun e _ hc₁ _ => counts_pure hc₁ trivial
    split
    · refine hcondition.bind fun first c₁ hc₁ _ => ?_
      refine counts_rest ?_
      exact (counts_branches hs reactive _ _ _ hc₁).bind fun bs c₂ hc₂ _ => counts_node hc₂
    · exact hcondition.bind fun _ c₁ hc₁ _ => counts_pure hc₁ trivial
    · exact counts_pure hc trivial
    · exact (counts_loop hs reactive hc hargs).bind fun _ c₁ hc₁ _ => counts_pure hc₁ trivial
    · exact (counts_binding hs reactive hc hargs).bind fun _ c₁ hc₁ _ => counts_pure hc₁ trivial
    · exact counts_fail (by decide) _
  · exact (counts_expression hc hbody).bind fun e c₁ hc₁ _ => counts_node hc₁

theorem counts_mustacheItem (hs : CountsSiblings ctx s) {left : List Char} (hc : c.At ctx.source)
    (hleft : c.rest = "\x7b\x7b".toList ++ left) :
    Counts ctx.source Anything (mustacheItem s ctx c) := by
  refine counts_here ?_
  refine (counts_eat_front hc hleft).bind fun _ c₁ hc₁ hafter => ?_
  refine (counts_takeThrough? (by decide) hc₁).bind fun content c₂ hc₂ hcontent => ?_
  cases content with
  | none => exact counts_fail (by decide) _
  | some content =>
    obtain ⟨hsplit, hfree⟩ := hcontent content rfl
    have hsplit : left = content ++ ("\x7d\x7d".toList ++ c₂.rest) := by
      rwa [hafter] at hsplit
    have hstands : c.rest =
        (['\x7b', '\x7b'] ++ (content ++ (['\x7d', '\x7d'] ++ c₂.rest))) ++ [] := by
      rw [hleft, hsplit, List.append_nil]
      rfl
    have hbehind : Behind ctx.source (c.position.offset + 2) content :=
      (hc.stands hstands).behind .braces hfree
    have htrim := hbehind.mono (Text.trim_part content)
    dsimp only
    generalize Text.trim content = trimmed at *
    split
    · next tail =>
      have htail := (Text.trimStart_suffix tail).trans (List.suffix_cons '!' tail)
      exact counts_mustacheBody hs true hc₂ (htrim.mono htail.isInfix)
    · exact counts_mustacheBody hs false hc₂ htrim

/-! ## All that is read -/

theorem counts_textItem (hc : c.At ctx.source) : Counts ctx.source Anything (textItem ctx c) := by
  refine counts_here (counts_rest ?_)
  cases hleft : c.rest with
  | nil => exact counts_pure hc trivial
  | cons d left =>
    have hsplit : c.rest = (d :: (splitText left).1) ++ (splitText left).2 := by
      rw [hleft, List.cons_append, splitText_append]
    dsimp only
    generalize (splitText left).1 = text at *
    generalize (splitText left).2 = rest at *
    refine (counts_skipOver hc hsplit).bind fun _ c₁ hc₁ _ => ?_
    refine counts_read ?_
    split
    · exact counts_pure hc₁ trivial
    · exact counts_node hc₁

theorem counts_commentItem (hc : c.At ctx.source) :
    Counts ctx.source Anything (commentItem ctx c) := by
  refine counts_here ?_
  refine (counts_takeThrough? (by decide) hc).bind fun comment c₁ hc₁ _ => ?_
  cases comment with
  | none => exact counts_fail (by decide) _
  | some comment => exact counts_pure hc₁ trivial

theorem counts_closeTagItem (hc : c.At ctx.source) :
    Counts ctx.source Anything (closeTagItem ctx c) := by
  refine counts_here ?_
  refine (counts_eat "</" hc).bind fun _ c₁ hc₁ _ => ?_
  refine (counts_takeWhile isTagChar hc₁).bind fun tag c₂ hc₂ _ => ?_
  refine (counts_skipBlanks hc₂).bind fun _ c₃ hc₃ _ => ?_
  refine (counts_eat ">" hc₃).bind fun closed c₄ hc₄ _ => ?_
  split
  · exact counts_pure hc₄ trivial
  · exact counts_fail (by decide) _

theorem counts_item (hs : CountsSiblings ctx s) (top : Bool) (hc : c.At ctx.source) :
    Counts ctx.source Anything (item s top ctx c) := by
  refine counts_rest ?_
  generalize hleft : c.rest = left
  split
  · exact counts_pure hc trivial
  · exact counts_commentItem hc
  · exact counts_closeTagItem hc
  · exact counts_mustacheItem hs hc hleft
  · split
    · exact (counts_element hs top hc).bind fun node c₁ hc₁ _ => counts_pure hc₁ trivial
    · exact counts_textItem hc

/-- The siblings inside are read with fewer steps. -/
theorem countsSiblings_nodesAt (steps : Nat) (top : Bool) :
    CountsSiblings ctx (nodesAt steps top) := by
  induction steps generalizing top with
  | zero => exact fun c hc => counts_pure hc trivial
  | succ steps ih =>
    intro c hc
    refine (counts_item (ih false) top hc).bind fun item c₁ hc₁ _ => ?_
    cases item with
    | stop stop => exact counts_pure hc₁ trivial
    | nothing => exact ih top c₁ hc₁
    | node node => exact (ih top c₁ hc₁).bind fun siblings c₂ hc₂ _ => counts_pure hc₂ trivial

theorem counts_template (hc : c.At ctx.source) :
    Counts ctx.source Anything (template ctx c) := by
  refine counts_rest ?_
  refine (countsSiblings_nodesAt _ true c hc).bind fun siblings c₁ hc₁ _ => ?_
  obtain ⟨nodes, stop⟩ := siblings
  cases stop with
  | eof =>
    dsimp only
    cases hroot : nodes.find? Node.isRoot with
    | none => exact counts_read (counts_spanFrom (counts_pure hc₁ trivial))
    | some root =>
      rcases nodes with _ | ⟨first, _ | ⟨second, others⟩⟩
      · cases hroot
      · exact counts_pure hc₁ trivial
      · exact counts_fail (by decide) _
  | closeTag | elseIf | otherwise | endMark => exact counts_fail_bind (by decide) _

end TemplateReader

/-- If a template is rejected for an expression, that expression stands between two marks of the
template, and the error gives the place at which reading it stopped as if it began right behind the
first mark: too early by the bytes that were skipped in front of it, and so at the place itself
exactly if nothing was skipped. -/
theorem parseTemplate_counted {source : String} {options : ParserOptions} {e : TemplateError}
    (h : parseTemplate source options = .error e) (hfault : e.fault = .invalidExpression) :
    e.Counted source.toList := by
  have hcounts := @TemplateReader.counts_template ⟨source.toList, options⟩ ⟨source.toList, .start⟩
    (TemplateReader.at_start source.toList)
  unfold parseTemplate at h
  dsimp only at h
  cases hread : TemplateReader.template ⟨source.toList, options⟩ ⟨source.toList, .start⟩ with
  | error e' =>
    rw [hread] at h
    obtain rfl := Except.error.inj h
    exact hcounts.stop hread hfault
  | ok read =>
    rw [hread] at h
    cases h

/-- The blank in front of an expression moves its error to the blank inside of it. -/
theorem parseTemplate_counted_blank :
    ∃ e, parseTemplate "\x7b\x7b a b \x7d\x7d" {} = .error e ∧ e.fault = .invalidExpression ∧
      e.position = ⟨4, 1, 5⟩ ∧ e.Counted "\x7b\x7b a b \x7d\x7d".toList := by
  have hread : (match parseTemplate "\x7b\x7b a b \x7d\x7d" {} with
      | .error e => some e
      | .ok _ => none) = some ⟨.invalidExpression, "anonymous.html", ⟨4, 1, 5⟩,
        some "unexpected trailing input"⟩ := by decide +kernel
  cases h : parseTemplate "\x7b\x7b a b \x7d\x7d" {} with
  | ok node =>
    rw [h] at hread
    cases hread
  | error e =>
    rw [h] at hread
    obtain rfl := Option.some.inj hread
    exact ⟨_, rfl, rfl, rfl, parseTemplate_counted h rfl⟩

end ReactiveView
