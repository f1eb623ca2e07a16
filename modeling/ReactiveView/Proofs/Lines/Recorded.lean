import ReactiveView.Proofs.Lines.Values
import ReactiveView.Proofs.Parsing.Statements

/-!
# The lines that statements have

A statement has the line of its first token, and a branch behind an `else` the one of its own `if`.
Tokens stand on the lines of their text, and the readers of statements look at no others
(`Parser.Notes`), so all lines in the statements of a code block are among those of its text
(`parseStatements_lines`).
-/

namespace ReactiveView

open Text (lineCount)

namespace Parser

variable {α β : Type} {P : Nat → Prop} {Q : α → Prop} {R : β → Prop} {ts : List Token} {k : Nat}

/-- When a parser is given tokens on lines as `P` says, what it gives is as `Q` says, and it leaves
the end of the tokens. -/
def Notes (P : Nat → Prop) (Q : α → Prop) (ts : List Token) (p : Parser α) : Prop :=
  (∀ t ∈ ts, P t.line) → ∀ a left, p ts = .ok (a, left) → left <:+ ts ∧ Q a

theorem notes_of_reads {p : Parser α} (h : Reads k ts (p ts) (p ts)) : Notes P (fun _ => True) ts p :=
  fun _ _ _ hp => ⟨(h.rest hp).1, trivial⟩

theorem notes_done {a : α} (h : Q a) : Notes P Q ts (done a) := by
  rintro - _ _ ⟨⟩
  exact ⟨List.suffix_refl _, h⟩

theorem Notes.andThen {p : Parser α} {f : α → Parser β} (h : Notes P Q ts p)
    (hf : ∀ a left, left <:+ ts → Q a → Notes P R left (f a)) :
    Notes P R ts (Parser.andThen p f) := by
  intro hlines b left hread
  unfold Parser.andThen at hread
  cases hp : p ts with
  | error e =>
    rw [hp] at hread
    cases hread
  | ok read =>
    obtain ⟨a, between⟩ := read
    rw [hp] at hread
    obtain ⟨hbetween, ha⟩ := h hlines a between hp
    obtain ⟨hleft, hb⟩ :=
      hf a between hbetween ha (fun t ht => hlines t (hbetween.subset ht)) b left hread
    exact ⟨hleft.trans hbetween, hb⟩

/-- A test decides what is read next. -/
theorem IsTest.notes {q : Parser Bool} (h : IsTest q) {yes no : Parser α}
    (hyes : ∀ left, left <:+ ts → Notes P Q left yes) (hno : Notes P Q ts no) :
    Notes P Q ts (Parser.andThen q fun b => if b then yes else no) := by
  intro hlines a left hread
  unfold Parser.andThen at hread
  obtain ⟨t, rest, rfl, hq⟩ | hq := h ts
  · rw [hq] at hread
    have hrest := List.suffix_cons t rest
    obtain ⟨hleft, ha⟩ :=
      hyes rest hrest (fun t ht => hlines t (hrest.subset ht)) a left hread
    exact ⟨hleft.trans hrest, ha⟩
  · rw [hq] at hread
    exact hno hlines a left hread

/-- Statements on lines as `P` says. -/
abbrev AllOn (P : Nat → Prop) (stmts : List Stmt) : Prop := ∀ line ∈ Stmt.linesOf stmts, P line

theorem allOn_nil : AllOn P [] := nofun

/-- A statement on lines as `P` says. -/
abbrev On (P : Nat → Prop) (s : Stmt) : Prop := ∀ line ∈ s.lines, P line

variable {endLine : Nat} {block : Parser (List Stmt)} {stmt : Parser Stmt}

theorem notes_lineOr (hend : P endLine) : Notes P P ts (lineOr endLine) := by
  intro hlines line left hread
  obtain ⟨rfl, rfl⟩ := Prod.mk.inj (Except.ok.inj hread)
  refine ⟨List.suffix_refl _, ?_⟩
  split
  · exact hlines _ List.mem_cons_self
  · exact hend

theorem notes_branch (hend : P endLine) (hblock : ∀ ts, Notes P (AllOn P) ts block) (rounds : Nat)
    {line : Nat} (hline : P line) : Notes P (On P) ts (branch endLine block rounds line) := by
  induction rounds generalizing ts line with
  | zero => exact nofun
  | succ rounds ih =>
    refine (notes_of_reads (reads_expression ts)).andThen fun condition left _ _ => ?_
    refine (hblock left).andThen fun yes left _ hyes => ?_
    have hdone {no : List Stmt} (hno : AllOn P no) : On P (.branch line condition yes no) :=
      List.forall_mem_cons.2 ⟨hline, List.forall_mem_append.2 ⟨hyes, hno⟩⟩
    refine (isTest_eatWord "else").notes (fun left _ => ?_) (notes_done (hdone allOn_nil))
    refine (notes_lineOr hend).andThen fun elseLine left _ helse => ?_
    -- a further condition stands where the `else` does
    refine (isTest_eatWord "if").notes (fun left _ => ?_) ?_
    · refine (ih helse).andThen fun s left _ hs => notes_done (hdone ?_)
      exact List.forall_mem_append.2 ⟨hs, allOn_nil⟩
    · exact (hblock left).andThen fun no left _ hno => notes_done (hdone hno)

/-- An expression is read, and then the statement ends. -/
theorem notes_value {f : Expr → Stmt} (hf : ∀ e, On P (f e)) :
    Notes P (On P) ts (expression >>= fun value => statementEnd >>= fun _ => pure (f value)) :=
  (notes_of_reads (reads_expression ts)).andThen fun value left _ _ =>
    (notes_of_reads (reads_statementEnd left)).andThen fun _ _ _ _ => notes_done (hf value)

/-- What comes next is looked at and left. -/
theorem notes_look {γ : Type} {g : List Token → γ} {f : γ → Parser α} (h : ∀ c, Notes P Q ts (f c)) :
    Notes P Q ts ((fun ts => .ok (g ts, ts) : Parser γ) >>= f) := h (g ts)

theorem notes_advance : Notes P (fun _ => True) ts advance := by
  rintro - _ _ ⟨⟩
  exact ⟨List.tail_suffix _, trivial⟩

theorem notes_statement (hend : P endLine) (hblock : ∀ ts, Notes P (AllOn P) ts block) :
    Notes P (On P) ts (statement endLine block) := by
  unfold statement
  refine (notes_lineOr hend).andThen fun line ts _ hline => ?_
  refine (isTest_eatWord "fn").notes (fun left _ => ?_) ?_
  · refine (notes_of_reads (reads_name left)).andThen fun f left _ _ => ?_
    refine (notes_of_reads (reads_expect .openParen left)).andThen fun _ left _ _ => ?_
    refine (notes_of_reads (reads_params left)).andThen fun xs left _ _ => ?_
    exact (hblock left).andThen fun body _ _ hbody =>
      notes_done (List.forall_mem_cons.2 ⟨hline, hbody⟩)
  refine (isTest_eatWord "if").notes (fun left _ => notes_branch hend hblock _ hline) ?_
  refine (isTest_eatWord "for").notes (fun left _ => ?_) ?_
  · refine (notes_of_reads (reads_name left)).andThen fun var left _ _ => ?_
    refine (isTest_eatWord "in").notes (fun left _ => ?_) nofun
    refine (notes_of_reads (reads_expression left)).andThen fun iterable left _ _ => ?_
    exact (hblock left).andThen fun body _ _ hbody =>
      notes_done (List.forall_mem_cons.2 ⟨hline, hbody⟩)
  have hsingle : ∀ line' ∈ [line], P line' := List.forall_mem_singleton.2 hline
  refine (isTest_eatWord "return").notes (fun left _ => notes_look fun atEnd => ?_) ?_
  · split
    · exact notes_done hsingle
    · exact notes_value fun _ => hsingle
  · refine notes_look fun first => notes_look fun second => ?_
    generalize assignOp? second = op
    split
    · split
      · exact nofun
      · exact notes_advance.andThen fun _ _ _ _ => notes_advance.andThen fun _ _ _ _ =>
          notes_value fun _ => hsingle
    · exact notes_value fun _ => hsingle

/-- A statement, and then more of them. -/
theorem notes_cons {more : Parser (List Stmt)} (hstmt : ∀ ts, Notes P (On P) ts stmt)
    (hmore : ∀ ts, Notes P (AllOn P) ts more) (ts : List Token) :
    Notes P (AllOn P) ts (stmt.andThen fun s => more.andThen fun ss => done (s :: ss)) :=
  (hstmt ts).andThen fun _ left _ hs => (hmore left).andThen fun _ _ _ hss =>
    notes_done (List.forall_mem_append.2 ⟨hs, hss⟩)

theorem notes_statementsTo (hstmt : ∀ ts, Notes P (On P) ts stmt) (rounds : Nat) (ts : List Token) :
    Notes P (AllOn P) ts (statementsTo stmt rounds) := by
  induction rounds generalizing ts with
  | zero => exact nofun
  | succ rounds ih =>
    intro hlines ss left hread
    have hskip := skipEnds_suffix ts
    have hlines' : ∀ t ∈ skipEnds ts, P t.line := fun t ht => hlines t (hskip.subset ht)
    simp only [statementsTo] at hread
    generalize skipEnds ts = kept at *
    split at hread
    · cases hread
    · obtain ⟨rfl, rfl⟩ := Prod.mk.inj (Except.ok.inj hread)
      exact ⟨(List.suffix_cons ..).trans hskip, allOn_nil⟩
    · obtain ⟨hleft, hss⟩ := notes_cons hstmt ih _ hlines' ss left hread
      exact ⟨hleft.trans hskip, hss⟩

theorem notes_statementsToEnd (hstmt : ∀ ts, Notes P (On P) ts stmt) (rounds : Nat)
    (ts : List Token) : Notes P (AllOn P) ts (statementsToEnd stmt rounds) := by
  induction rounds generalizing ts with
  | zero => exact notes_done allOn_nil
  | succ rounds ih =>
    intro hlines ss left hread
    have hskip := skipEnds_suffix ts
    have hlines' : ∀ t ∈ skipEnds ts, P t.line := fun t ht => hlines t (hskip.subset ht)
    simp only [statementsToEnd] at hread
    split at hread
    · obtain ⟨rfl, rfl⟩ := Prod.mk.inj (Except.ok.inj hread)
      exact ⟨List.nil_suffix, allOn_nil⟩
    · obtain ⟨hleft, hss⟩ := notes_cons hstmt ih _ hlines' ss left hread
      exact ⟨hleft.trans hskip, hss⟩

theorem notes_blockAt (hend : P endLine) (depth : Nat) (ts : List Token) :
    Notes P (AllOn P) ts (blockAt endLine depth) := by
  induction depth generalizing ts with
  | zero => exact nofun
  | succ depth ih =>
    refine (notes_of_reads (reads_expect .openBrace ts)).andThen fun _ left _ _ => ?_
    exact notes_statementsTo (fun _ => notes_statement hend ih) _ left

end Parser

/-- The statements of a text are on its lines. -/
theorem parseStatements_lines {source : String} {stmts : List Stmt}
    (h : parseStatements source = .ok stmts) :
    ∀ line ∈ Stmt.linesOf stmts, 1 ≤ line ∧ line ≤ lineCount source.toList := by
  have hscan := Token.scan_scans true source
  unfold parseStatements at h
  cases hlist : Token.scan true source with
  | error e =>
    rw [hlist] at h
    cases h
  | ok list =>
    rw [hlist] at h hscan
    let n := list.tokens.length
    let P (line : Nat) : Prop := 1 ≤ line ∧ line ≤ lineCount source.toList
    have hend : P list.endLine := ⟨hscan.stop.line_pos, hscan.stop.line_le⟩
    have hstmt (ts : List Token) : Parser.Notes P (Parser.On P) ts
        (Parser.statement list.endLine (Parser.blockAt list.endLine (n + 1))) :=
      Parser.notes_statement hend (Parser.notes_blockAt hend (n + 1))
    have hnotes := Parser.notes_statementsToEnd hstmt (n + 1) list.tokens
      fun t ht => ⟨(hscan.tokens t ht).line_pos, (hscan.tokens t ht).line_le⟩
    simp only [bind, Except.bind] at h
    split at h
    · cases h
    · next ss left heq =>
      obtain rfl := Except.ok.inj h
      exact (hnotes ss left heq).2

end ReactiveView
