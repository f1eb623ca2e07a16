import ReactiveView.Proofs.Parsing.Expressions

/-!
# Reading statements, and whole texts

Statements are read like expressions: their loops and their nesting are bounded by the tokens. From
there the readers of whole texts follow. Each ends with a tree or with an error that is located in
the text (`parseExpression_within`, `parseStatements_within`).
-/

namespace ReactiveView
namespace Parser

variable {α : Type} {k n : Nat} {ts : List Token} {block block' : Parser (List Stmt)}

theorem skipEnds_suffix (ts : List Token) : skipEnds ts <:+ ts := by
  induction ts using skipEnds.induct with
  | case1 offset line left ih => exact ih.trans (List.suffix_cons ..)
  | case2 offset line left ih => exact ih.trans (List.suffix_cons ..)
  | case3 ts hnewline hsemicolon =>
    rw [skipEnds.eq_3 ts hnewline hsemicolon]

theorem reads_statementEnd (ts : List Token) :
    Reads 0 ts (statementEnd ts) (statementEnd ts) := by
  unfold statementEnd
  split
  · exact reads_done () ts
  · exact reads_error (List.suffix_refl ts) nofun

/-- A name is read, and then a mark that lets the reading go on. -/
theorem reads_paramsTo {rounds rounds' : Nat} (hrounds : ts.length ≤ rounds)
    (hrounds' : ts.length ≤ rounds') : Reads 1 ts (paramsTo rounds ts) (paramsTo rounds' ts) := by
  induction rounds generalizing rounds' ts with
  | zero =>
    obtain rfl := List.eq_nil_of_length_eq_zero (Nat.le_zero.1 hrounds)
    cases rounds' <;> (unfold paramsTo; exact (reads_name []).andThen_nil)
  | succ rounds ih =>
    cases rounds' with
    | zero =>
      obtain rfl := List.eq_nil_of_length_eq_zero (Nat.le_zero.1 hrounds')
      unfold paramsTo
      exact (reads_name []).andThen_nil
    | succ rounds' =>
      refine (reads_name ts).andThen (k := 0) (fun x left _ hlength => ?_) (Nat.le_refl _)
      refine (isTest_eat .closeParen).reads (fun _ left _ => reads_done _ left) ?_
      refine (reads_expect .comma left).next fun _ left _ hleft => ?_
      exact (ih (by omega) (by omega)).next fun _ left _ _ => reads_done _ left

theorem reads_params (ts : List Token) : Reads 1 ts (params ts) (params ts) :=
  (isTest_eat .closeParen).reads (fun _ left _ => reads_done _ left)
    (reads_paramsTo (Nat.le_refl _) (Nat.le_refl _))

/-- Branches are counted by the words between them. -/
theorem reads_branch (endLine : Nat) (h : Agree n block block') {rounds rounds' : Nat}
    (hrounds : ts.length < rounds) (hrounds' : ts.length < rounds') (hts : ts.length < n + 1)
    (line : Nat) :
    Reads 1 ts (branch endLine block rounds line ts) (branch endLine block' rounds' line ts) := by
  induction rounds generalizing rounds' ts line with
  | zero => exact absurd hrounds (Nat.not_lt_zero _)
  | succ rounds ih =>
    cases rounds' with
    | zero => exact absurd hrounds' (Nat.not_lt_zero _)
    | succ rounds' =>
      refine (reads_expression ts).andThen (k := 0) (fun e left _ hleft => ?_) (Nat.le_refl _)
      refine (h left (by omega)).next fun yes left _ hleft => ?_
      refine (isTest_eatWord "else").reads (fun t left hcons => ?_) (reads_done _ left)
      subst hcons
      rw [List.length_cons] at hleft
      refine (isTest_eatWord "if").reads (fun t left hcons => ?_) ?_
      · subst hcons
        rw [List.length_cons] at hleft
        exact (ih (by omega) (by omega) (by omega) _).next fun _ left _ _ => reads_done _ left
      · exact (h left (by omega)).next fun _ left _ _ => reads_done _ left

/-- What comes next is looked at and left, whatever it is. -/
theorem reads_look {γ : Type} {g : List Token → γ} {f f' : γ → Parser α}
    (h : ∀ c, Reads k ts (f c ts) (f' c ts)) :
    Reads k ts (((fun ts => .ok (g ts, ts) : Parser γ) >>= f) ts)
      (((fun ts => .ok (g ts, ts) : Parser γ) >>= f') ts) := h (g ts)

theorem reads_lineOr {endLine : Nat} {f f' : Nat → Parser α}
    (h : ∀ line, Reads k ts (f line ts) (f' line ts)) :
    Reads k ts ((lineOr endLine >>= f) ts) ((lineOr endLine >>= f') ts) := reads_look h

/-- An expression is read, and then the statement ends. -/
theorem reads_value (f : Expr → Stmt) (ts : List Token) :
    Reads 1 ts ((expression >>= fun value => statementEnd >>= fun _ => pure (f value)) ts)
      ((expression >>= fun value => statementEnd >>= fun _ => pure (f value)) ts) :=
  (reads_expression ts).andThen (k := 0) (fun _ left _ _ => (reads_statementEnd left).andThen
    (fun _ left _ _ => reads_done _ left) (Nat.zero_le _)) (Nat.le_refl _)

/-- A statement reads a token before its blocks. -/
theorem agree_statement (endLine : Nat) (h : Agree n block block') :
    Agree (n + 1) (statement endLine block) (statement endLine block') := by
  intro ts hts
  unfold statement
  refine reads_lineOr fun line => ?_
  refine (isTest_eatWord "fn").reads (fun t left hcons => ?_) ?_
  · subst hcons
    rw [List.length_cons] at hts
    refine (reads_name left).next fun f left _ hname => ?_
    refine (reads_expect .openParen left).next fun _ left _ hparen => ?_
    refine (reads_params left).next fun xs left _ hparams => ?_
    exact (h left (by omega)).next fun _ left _ _ => reads_done _ left
  refine (isTest_eatWord "if").reads (fun t left hcons => ?_) ?_
  · subst hcons
    rw [List.length_cons] at hts
    exact (reads_branch endLine h (Nat.lt_succ_self _) (Nat.lt_succ_self _) (by omega) _).mono
      (Nat.zero_le _)
  refine (isTest_eatWord "for").reads (fun t left hcons => ?_) ?_
  · subst hcons
    rw [List.length_cons] at hts
    refine (reads_name left).next fun f left _ hname => ?_
    refine (isTest_eatWord "in").reads (fun t left hcons => ?_)
      (reads_error (List.suffix_refl _) nofun)
    subst hcons
    rw [List.length_cons] at hname
    refine (reads_expression left).next fun e left _ he => ?_
    exact (h left (by omega)).next fun _ left _ _ => reads_done _ left
  refine (isTest_eatWord "return").reads (fun t left _ => ?_) ?_
  · refine reads_look fun atEnd => ?_
    split
    · exact reads_done _ left
    · exact (reads_value _ left).mono (Nat.zero_le _)
  · refine reads_look fun first => reads_look fun second => ?_
    generalize assignOp? second = op
    split
    · split
      · exact reads_error (List.suffix_refl _) nofun
      · exact (reads_value _ _).behind ((List.tail_suffix _).trans (List.tail_suffix _))
          (by simp only [List.length_tail]; omega)
    · exact reads_value _ ts

section Blocks

variable {stmt stmt' : Parser Stmt}

/-- The statements of a block are counted by their tokens. -/
theorem reads_statementsTo (h : Agree n stmt stmt') {rounds rounds' : Nat}
    (hrounds : ts.length < rounds) (hrounds' : ts.length < rounds') (hts : ts.length < n) :
    Reads 0 ts (statementsTo stmt rounds ts) (statementsTo stmt' rounds' ts) := by
  induction rounds generalizing rounds' ts with
  | zero => exact absurd hrounds (Nat.not_lt_zero _)
  | succ rounds ih =>
    cases rounds' with
    | zero => exact absurd hrounds' (Nat.not_lt_zero _)
    | succ rounds' =>
      have hskip := skipEnds_suffix ts
      have hlength := hskip.length_le
      simp only [statementsTo]
      refine Reads.behind (k := 0) ?_ hskip (by omega)
      generalize skipEnds ts = ts at *
      split
      · exact reads_error (List.suffix_refl _) nofun
      · exact (reads_done _ _).cons.mono (Nat.zero_le _)
      · refine (h _ (by omega)).next fun s left _ hleft => ?_
        exact (ih (by omega) (by omega) (by omega)).next fun _ left _ _ => reads_done _ left

theorem reads_statementsToEnd (h : Agree n stmt stmt') {rounds rounds' : Nat}
    (hrounds : ts.length < rounds) (hrounds' : ts.length < rounds') (hts : ts.length < n) :
    Reads 0 ts (statementsToEnd stmt rounds ts) (statementsToEnd stmt' rounds' ts) := by
  induction rounds generalizing rounds' ts with
  | zero => exact absurd hrounds (Nat.not_lt_zero _)
  | succ rounds ih =>
    cases rounds' with
    | zero => exact absurd hrounds' (Nat.not_lt_zero _)
    | succ rounds' =>
      have hskip := skipEnds_suffix ts
      have hlength := hskip.length_le
      simp only [statementsToEnd]
      refine Reads.behind (k := 0) ?_ hskip (by omega)
      generalize skipEnds ts = ts at *
      split
      · exact reads_done _ _
      · refine (h _ (by omega)).next fun s left _ hleft => ?_
        exact (ih (by omega) (by omega) (by omega)).next fun _ left _ _ => reads_done _ left

end Blocks

/-- Blocks nest no deeper than they have tokens. -/
theorem agree_blockAt (endLine : Nat) {depth depth' : Nat} (hdepth : n ≤ depth)
    (hdepth' : n ≤ depth') : Agree n (blockAt endLine depth) (blockAt endLine depth') := by
  induction n generalizing depth depth' with
  | zero => exact fun ts hts => absurd hts (Nat.not_lt_zero _)
  | succ n ih =>
    cases depth with
    | zero => exact absurd hdepth (Nat.not_succ_le_zero n)
    | succ depth =>
      cases depth' with
      | zero => exact absurd hdepth' (Nat.not_succ_le_zero n)
      | succ depth' =>
        have hblock := ih (Nat.le_of_succ_le_succ hdepth) (Nat.le_of_succ_le_succ hdepth')
        intro ts hts
        refine (reads_expect .openBrace ts).andThen (k := 0) (fun _ left _ hleft => ?_)
          (Nat.le_refl _)
        exact reads_statementsTo (agree_statement endLine hblock) (Nat.lt_succ_self _)
          (Nat.lt_succ_self _) (by omega)

/-- The statements up to the end of some tokens, with as many rounds and as deep as bounds say. -/
def statementsWithin (endLine rounds depth : Nat) : Parser (List Stmt) :=
  statementsToEnd (statement endLine (blockAt endLine depth)) rounds

/-- More rounds and more depth than there are tokens change nothing. -/
theorem reads_statementsWithin (endLine : Nat) {rounds rounds' depth depth' : Nat}
    (hrounds : ts.length < rounds) (hrounds' : ts.length < rounds') (hdepth : ts.length ≤ depth)
    (hdepth' : ts.length ≤ depth') :
    Reads 0 ts (statementsWithin endLine rounds depth ts) (statementsWithin endLine rounds' depth'
      ts) :=
  reads_statementsToEnd (agree_statement endLine (agree_blockAt endLine hdepth hdepth')) hrounds
    hrounds' (Nat.lt_succ_self _)

/-- A failure is reported at a token or at the end. -/
theorem Failure.within {source : List Char} {list : TokenList} (hlist : list.Within source)
    {f : Failure} (hf : f.rest <:+ list.tokens) (hcause : f.cause ≠ .brokenEscape) :
    (f.toError list).Within source := by
  unfold Failure.toError
  split
  · next t _ heq =>
    exact ⟨hlist.tokens t (hf.subset (heq ▸ List.mem_cons_self)), fun h => absurd h hcause⟩
  · exact ⟨hlist.stop, fun h => absurd h hcause⟩

end Parser

/-- Reading an expression ends with a tree, or with an error in its text. -/
theorem parseExpression_within {source : String} {e : SyntaxError}
    (h : parseExpression source = .error e) : e.Within source.toList := by
  have hscan := Token.scan_scans false source
  unfold parseExpression at h
  cases hlist : Token.scan false source with
  | error e' =>
    rw [hlist] at h hscan
    exact Except.error.inj h ▸ hscan
  | ok list =>
    rw [hlist] at h hscan
    have hreads := Parser.reads_expression list.tokens
    simp only [bind, Except.bind] at h
    split at h
    · next f heq =>
      obtain ⟨hsuffix, hcause⟩ := hreads.stop heq
      exact Except.error.inj h ▸ Parser.Failure.within hscan hsuffix hcause
    · cases h
    · next e' left _ heq =>
      exact Except.error.inj h ▸ Parser.Failure.within hscan (hreads.rest heq).1 nofun

/-- Reading statements ends with trees, or with an error in their text. -/
theorem parseStatements_within {source : String} {e : SyntaxError}
    (h : parseStatements source = .error e) : e.Within source.toList := by
  have hscan := Token.scan_scans true source
  unfold parseStatements at h
  cases hlist : Token.scan true source with
  | error e' =>
    rw [hlist] at h hscan
    exact Except.error.inj h ▸ hscan
  | ok list =>
    rw [hlist] at h hscan
    have hreads := Parser.reads_statementsWithin list.endLine (Nat.lt_succ_self list.tokens.length)
      (Nat.lt_succ_self _) (Nat.le_succ _) (Nat.le_succ _)
    simp only [bind, Except.bind] at h
    split at h
    · next f heq =>
      obtain ⟨hsuffix, hcause⟩ := hreads.stop heq
      exact Except.error.inj h ▸ Parser.Failure.within hscan hsuffix hcause
    · cases h

end ReactiveView
