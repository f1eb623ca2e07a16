import ReactiveView.Proofs.Printing.Expressions

/-!
# Reading inverts writing

`parse_print`: a writable expression that is written down is read back as itself, but for names that
are the word of a literal or `this`, which are read as what the word stands for. So expressions that
are written alike are read alike, also in different spellings. A name that is such a word shows that
this is as far as it goes (`not_parse_print`).

The proof goes along the expression. What is proved of a part (`Parser.Inverted`) is that its tokens
are read back at its own level, so that it can stand at any place, in parentheses if need be
(`Parser.Inverted.placed`); one lemma for each way of putting parts together does the rest.
-/

namespace ReactiveView
namespace Parser

variable {l : Level} {ls ls' : List Lexeme} {e e' : Expr} {sp : Spelling}

theorem eat_mark (m : Mark) (offset line : Nat) (rest : List Token) :
    eat m (⟨.mark m, offset, line⟩ :: rest) = .ok (true, rest) := by
  rw [eat, if_pos rfl]

theorem expect_mark (m : Mark) (offset line : Nat) (rest : List Token) :
    expect m (⟨.mark m, offset, line⟩ :: rest) = .ok ((), rest) := by
  unfold expect
  show Parser.andThen (eat m) (fun b => if b then done () else fail (.expectedMark m)) _ = _
  rw [andThen_of_ok (eat_mark m offset line rest)]
  rfl

theorem eat_of_ne {m : Mark} {t : Token} (h : t.lexeme ≠ .mark m) (rest : List Token) :
    eat m (t :: rest) = .ok (false, t :: rest) := by
  obtain ⟨lexeme, offset, line⟩ := t
  cases lexeme
  case mark n =>
    have hn : n ≠ m := fun hn => h (congrArg Lexeme.mark hn)
    rw [eat, if_neg hn]
  all_goals rfl

/-- The tokens around a mark. -/
theorem split_mark {ts : List Token} {m : Mark}
    (h : ts.map (·.lexeme) = ls ++ .mark m :: ls') :
    ∃ us o l vs, ts = us ++ ⟨.mark m, o, l⟩ :: vs ∧ us.map (·.lexeme) = ls ∧
      vs.map (·.lexeme) = ls' := by
  obtain ⟨us, ts, rfl, hus, hts⟩ := List.map_eq_append_iff.1 h
  obtain ⟨⟨_, o, l⟩, vs, rfl, rfl, hvs⟩ := List.map_eq_cons_iff.1 hts
  exact ⟨us, o, l, vs, rfl, hus, hvs⟩

/-- The tokens in front of a mark at the end. -/
theorem split_last {ts : List Token} {m : Mark} (h : ts.map (·.lexeme) = ls ++ [.mark m]) :
    ∃ us o l, ts = us ++ [⟨.mark m, o, l⟩] ∧ us.map (·.lexeme) = ls := by
  obtain ⟨us, o, l, vs, rfl, hus, hvs⟩ := split_mark h
  obtain rfl := List.map_eq_nil_iff.1 hvs
  exact ⟨us, o, l, rfl, hus⟩

/-- The tokens behind a mark at the front. -/
theorem split_first {ts : List Token} {m : Mark} (h : ts.map (·.lexeme) = .mark m :: ls) :
    ∃ o l us, ts = ⟨.mark m, o, l⟩ :: us ∧ us.map (·.lexeme) = ls := by
  obtain ⟨⟨_, o, l⟩, us, rfl, rfl, hus⟩ := List.map_eq_cons_iff.1 h
  exact ⟨o, l, us, rfl, hus⟩

theorem Inverts.expression (h : Inverts .conditional ls e) {ts rest : List Token}
    (hts : ts.map (·.lexeme) = ls) (hrest : Stops .conditional rest) :
    expression (ts ++ rest) = .ok (e, rest) := by
  rw [expression_eq]
  exact h ts rest hts hrest

/-- Nothing goes on with a mark that closes something. -/
theorem stops_mark {m : Mark} (h : Lexeme.continues (.mark m) = none) (offset line : Nat)
    (rest : List Token) : Stops l (⟨.mark m, offset, line⟩ :: rest) :=
  stops_cons fun k hk => by
    rw [h] at hk
    cases hk

/-! ## Conditionals -/

theorem Inverts.cond {lc ly ln : List Lexeme} {c y n : Expr} (hc : Inverts .disjunction lc c)
    (hy : Inverts .conditional ly y) (hn : Inverts .conditional ln n) :
    Inverts .conditional (lc ++ .mark .question :: (ly ++ .mark .colon :: ln)) (.cond c y n) := by
  intro ts rest hts hrest
  obtain ⟨us, o, l, cases, rfl, hus, hcases⟩ := split_mark hts
  obtain ⟨vs, o', l', ws, rfl, hvs, hws⟩ := split_mark hcases
  have hcond := hc us (⟨.mark .question, o, l⟩ :: (vs ++ ⟨.mark .colon, o', l'⟩ :: (ws ++ rest)))
    hus (stops_cons fun k hk => by obtain rfl := Option.some.inj hk; decide)
  have hyes := hy.expression hvs (stops_mark (m := .colon) rfl o' l' (ws ++ rest))
  simp only [List.append_assoc, List.cons_append]
  -- the condition, the question mark, the first case, the colon and the second case in turn
  refine (andThen_of_ok hcond _).trans ?_
  refine (andThen_of_ok (eat_mark .question o l _) _).trans ?_
  refine (andThen_of_ok hyes _).trans ?_
  refine (andThen_of_ok (expect_mark .colon o' l' _) _).trans ?_
  exact andThen_of_ok (hn.expression hws hrest) _

/-! ## Lists -/

/-- What is read back as an expression between commas. -/
structure Item (ls : List Lexeme) (e : Expr) : Prop where
  /-- How it starts. -/
  opens : Opens .conditional ls
  /-- What it is read as. -/
  whole : Inverts .conditional ls e

/-- Marks that close a list. -/
def Closes (m : Mark) : Prop := m = .closeParen ∨ m = .closeBracket

theorem Closes.continues {m : Mark} (h : Closes m) : Lexeme.continues (.mark m) = none := by
  rcases h with rfl | rfl <;> rfl

theorem Opens.eat_close {m : Mark} (hm : Closes m) (h : Opens l ls) {ts rest : List Token}
    (hts : ts.map (·.lexeme) = ls) : eat m (ts ++ rest) = .ok (false, ts ++ rest) := by
  obtain ⟨t, tail, rfl, hparen, hbracket, -⟩ := h
  obtain ⟨t, us, rfl, rfl, -⟩ := List.map_eq_cons_iff.1 hts
  refine eat_of_ne ?_ (us ++ rest)
  rcases hm with rfl | rfl
  · exact hparen
  · exact hbracket

theorem opens_lexemesOfList (h : Opens .conditional (e.lexemes sp)) (es : List Expr) :
    Opens .conditional (Expr.lexemesOfList sp (e :: es)) := by
  cases es with
  | nil => exact h
  | cons e' es => exact h.append _

/-- Expressions with commas between them are read up to what closes them. -/
theorem itemsTo_lexemes {m : Mark} (hm : Closes m) {es : List Expr}
    (h : ∀ e' ∈ e :: es, Item (e'.lexemes sp) e'.asRead) {ts rest : List Token} {o l rounds : Nat}
    (hts : ts.map (·.lexeme) = Expr.lexemesOfList sp (e :: es))
    (hrounds : (ts ++ ⟨.mark m, o, l⟩ :: rest).length ≤ rounds) :
    itemsTo expression m rounds (ts ++ ⟨.mark m, o, l⟩ :: rest) =
      .ok (Expr.asReadList (e :: es), rest) := by
  obtain ⟨rounds, rfl⟩ := Nat.exists_eq_succ_of_ne_zero (n := rounds) (by
    rw [List.length_append, List.length_cons] at hrounds
    omega)
  induction es generalizing e ts rounds with
  | nil =>
    have hread := (h e List.mem_cons_self).whole.expression hts (stops_mark hm.continues o l rest)
    have hcomma : (⟨.mark m, o, l⟩ : Token).lexeme ≠ .mark .comma := by
      rcases hm with rfl | rfl <;> exact fun heq => by cases heq
    refine (andThen_of_ok hread _).trans ?_
    refine (andThen_of_ok (eat_of_ne hcomma rest) _).trans ?_
    exact andThen_of_ok (expect_mark m o l rest) _
  | cons e' es ih =>
    obtain ⟨us, o', l', vs, rfl, hus, hvs⟩ := split_mark hts
    obtain ⟨hfirst, hothers⟩ := List.forall_mem_cons.1 h
    have hread := hfirst.whole.expression hus
      (stops_mark (m := .comma) rfl o' l' (vs ++ ⟨.mark m, o, l⟩ :: rest))
    have hopens := opens_lexemesOfList (hothers e' List.mem_cons_self).opens es
    simp only [List.append_assoc, List.cons_append, List.length_append, List.length_cons] at hrounds ⊢
    obtain ⟨rounds, rfl⟩ := Nat.exists_eq_succ_of_ne_zero (n := rounds) (by omega)
    have hrest := ih hothers hvs rounds (by
      simp only [List.length_append, List.length_cons]
      omega)
    refine (andThen_of_ok hread _).trans ?_
    refine (andThen_of_ok (eat_mark .comma o' l' _) _).trans ?_
    refine (andThen_of_ok (hopens.eat_close hm hvs) _).trans ?_
    exact andThen_of_ok hrest _

theorem items_lexemes {m : Mark} (hm : Closes m) {es : List Expr}
    (h : ∀ e ∈ es, Item (e.lexemes sp) e.asRead) {ts : List Token}
    (hts : ts.map (·.lexeme) = Expr.lexemesOfList sp es) (o l : Nat) (rest : List Token) :
    items expression m (ts ++ ⟨.mark m, o, l⟩ :: rest) = .ok (Expr.asReadList es, rest) := by
  cases es with
  | nil =>
    obtain rfl := List.map_eq_nil_iff.1 hts
    unfold items
    show Parser.andThen (eat m)
      (fun b => if b then done [] else fun ts => itemsTo expression m ts.length ts) _ = _
    rw [List.nil_append, andThen_of_ok (eat_mark m o l rest)]
    rfl
  | cons e es =>
    have hopens := opens_lexemesOfList (h e List.mem_cons_self).opens es
    refine (andThen_of_ok (hopens.eat_close hm hts) _).trans ?_
    exact itemsTo_lexemes hm h hts (Nat.le_refl _)

/-! ## Accesses -/

theorem stops_access {m : Mark} (h : Lexeme.continues (.mark m) = some .access) (o l : Nat)
    (rest : List Token) : Stops Level.access.next (⟨.mark m, o, l⟩ :: rest) :=
  stops_cons fun k hk => by
    rw [h] at hk
    obtain rfl := Option.some.inj hk
    decide

theorem Leads.member (h : Leads .access ls e) (x : String) :
    Leads .access (ls ++ [.mark .dot, .name x]) (.member e x) := by
  intro ts rest hts _
  obtain ⟨us, o, l, named, rfl, hus, hnamed⟩ := split_mark hts
  obtain ⟨⟨_, o', l'⟩, vs, rfl, rfl, hvs⟩ := List.map_eq_cons_iff.1 hnamed
  obtain rfl := List.map_eq_nil_iff.1 hvs
  simp only [List.append_assoc, List.cons_append, List.nil_append]
  rw [h us _ hus (stops_access rfl o l _)]
  exact Level.accesses_eq (Nat.le_succ _) _

theorem Leads.index (h : Leads .access ls e) (hk : Inverts .conditional ls' e') :
    Leads .access (ls ++ .mark .openBracket :: (ls' ++ [.mark .closeBracket])) (.index e e') := by
  intro ts rest hts _
  obtain ⟨us, o, l, nested, rfl, hus, hnested⟩ := split_mark hts
  obtain ⟨vs, o', l', rfl, hvs⟩ := split_last hnested
  have hkey := hk.expression hvs (stops_mark (m := .closeBracket) rfl o' l' rest)
  simp only [List.append_assoc, List.cons_append, List.nil_append]
  rw [h us _ hus (stops_access rfl o l _)]
  refine (andThen_of_ok hkey _).trans ?_
  refine (andThen_of_ok (expect_mark .closeBracket o' l' rest) _).trans ?_
  refine Level.accesses_eq ?_ _
  simp only [List.length_append, List.length_cons]
  omega

theorem Leads.call (h : Leads .access ls e) {es : List Expr}
    (hes : ∀ e ∈ es, Item (e.lexemes sp) e.asRead) :
    Leads .access (ls ++ .mark .openParen :: (Expr.lexemesOfList sp es ++ [.mark .closeParen]))
      (.call e (Expr.asReadList es)) := by
  intro ts rest hts _
  obtain ⟨us, o, l, nested, rfl, hus, hnested⟩ := split_mark hts
  obtain ⟨vs, o', l', rfl, hvs⟩ := split_last hnested
  simp only [List.append_assoc, List.cons_append, List.nil_append]
  rw [h us _ hus (stops_access rfl o l _)]
  refine (andThen_of_ok (items_lexemes (.inl rfl) hes hvs o' l' rest) _).trans ?_
  refine Level.accesses_eq ?_ _
  simp only [List.length_append, List.length_cons]
  omega

/-! ## Primary expressions -/

/-- A token that is an expression by itself. -/
theorem leads_single {lexeme : Lexeme}
    (h : ∀ o l rest, primary expression (⟨lexeme, o, l⟩ :: rest) = .ok (e, rest)) :
    Leads .primary [lexeme] e := by
  intro ts rest hts _
  obtain ⟨⟨_, o, l⟩, us, rfl, rfl, hus⟩ := List.map_eq_cons_iff.1 hts
  obtain rfl := List.map_eq_nil_iff.1 hus
  exact h o l rest

/-- A word is read as what it stands for. -/
theorem ofName_eq {x : String} (h : isReserved x = false) :
    ofName x = done ((Expr.ofWord? x).getD (.name x)) := by
  unfold Expr.ofWord?
  split
  case h_8 htrue hTrue hfalse hFalse hnull hNone hthis =>
    rw [ofName, if_neg fun hx => hx.elim htrue hTrue, if_neg fun hx => hx.elim hfalse hFalse,
      if_neg fun hx => hx.elim hnull hNone, if_neg hthis, h, if_neg Bool.false_ne_true]
    rfl
  all_goals rfl

theorem Inverts.paren (h : Inverts .conditional ls e) :
    Leads .primary (.mark .openParen :: (ls ++ [.mark .closeParen])) e := by
  intro ts rest hts _
  obtain ⟨o, l, nested, rfl, hnested⟩ := split_first hts
  obtain ⟨vs, o', l', rfl, hvs⟩ := split_last hnested
  have hread := h.expression hvs (stops_mark (m := .closeParen) rfl o' l' rest)
  simp only [List.append_assoc, List.cons_append, List.nil_append]
  refine (andThen_of_ok hread _).trans ?_
  exact andThen_of_ok (expect_mark .closeParen o' l' rest) _

theorem leads_list {es : List Expr} (hes : ∀ e ∈ es, Item (e.lexemes sp) e.asRead) :
    Leads .primary (.mark .openBracket :: (Expr.lexemesOfList sp es ++ [.mark .closeBracket]))
      (.list (Expr.asReadList es)) := by
  intro ts rest hts _
  obtain ⟨o, l, nested, rfl, hnested⟩ := split_first hts
  obtain ⟨vs, o', l', rfl, hvs⟩ := split_last hnested
  simp only [List.append_assoc, List.cons_append, List.nil_append]
  exact andThen_of_ok (items_lexemes (.inr rfl) hes hvs o' l' rest) _

/-! ## Whole expressions -/

/-- An expression is read back from its tokens at its own level. A conditional is only read as a
whole: nothing leads on behind it. -/
structure Inverted (sp : Spelling) (e : Expr) : Prop where
  /-- As a whole. -/
  item : Item (e.lexemes sp) e.asRead
  /-- At its level. -/
  written : e.level sp ≠ .conditional → Written (e.level sp) (e.lexemes sp) e.asRead

theorem Written.inverted (h : Written (e.level sp) (e.lexemes sp) e.asRead)
    (hne : e.level sp ≠ .conditional) : Inverted sp e :=
  ⟨⟨h.opens.mono (Nat.zero_le _), h.inverts hne⟩, fun _ => h⟩

/-- An expression can stand where a level is required, in parentheses if it is looser. -/
theorem Inverted.placed (h : Inverted sp e) (hl : l ≠ .conditional) :
    Written l (Expr.placed l (e.level sp) (e.lexemes sp)) e.asRead := by
  have hprimary : l.rank ≤ Level.primary.rank := by cases l <;> decide
  rw [Expr.placed]
  split
  · have hopens : Opens .primary (.mark .openParen :: (e.lexemes sp ++ [.mark .closeParen])) :=
      ⟨_, _, rfl, nofun, nofun, fun _ => nofun, fun _ => ⟨nofun, nofun⟩⟩
    exact Written.loosen ⟨hopens, h.item.whole.paren⟩ hprimary hl
  · next hrank =>
    have hne : e.level sp ≠ .conditional := by
      intro hcond
      rw [hcond] at hrank
      exact hl (by cases l <;> first | rfl | exact absurd (by decide) hrank)
    exact (h.written hne).loosen (Nat.not_lt.1 hrank) hl

/-- A binary expression at a level whose operators lean to the left. -/
theorem Inverted.binary (combine : Combine) (ha : Inverted sp e) (hb : Inverted sp e') {op : Lexeme}
    (hl : l.isChain = true) (hop : op.continues = some l)
    (hoperator : ∀ t : Token, t.lexeme = op → ∀ rest,
      l.operator (t :: rest) = some (combine, rest)) :
    Written l (Expr.placed l (e.level sp) (e.lexemes sp) ++
      op :: Expr.placed l.next (e'.level sp) (e'.lexemes sp)) (combine e.asRead e'.asRead) := by
  have hne : l ≠ .conditional ∧ l.next ≠ .conditional := by
    revert hl
    cases l <;> decide
  have hleft := ha.placed hne.1
  exact ⟨hleft.opens.append _,
    hleft.leads.binary (hb.placed hne.2).leads.inverts hl hop hoperator⟩

theorem inverted_binary (op : BinaryOp) (ha : Inverted sp e) (hb : Inverted sp e') :
    Inverted sp (.binary op e e') := by
  refine Written.inverted ?_ (by cases op <;> nofun)
  refine ha.binary (.binary op) hb ?_ ?_ ?_
  · cases op <;> rfl
  · cases op <;> rfl
  · rintro ⟨_, o, l⟩ rfl rest
    cases op <;> rfl

theorem inverted_logical (op : LogicalOp) (ha : Inverted sp e) (hb : Inverted sp e') :
    Inverted sp (.logical op e e') := by
  refine Written.inverted ?_ (by cases op <;> nofun)
  refine ha.binary (.logical op) hb ?_ ?_ ?_
  · cases op <;> rfl
  · cases op <;> rw [LogicalOp.lexeme] <;> split <;> rfl
  · rintro ⟨_, o, l⟩ rfl rest
    cases op <;> rw [LogicalOp.lexeme] <;> split <;> rfl

theorem inverted_unary (op : UnaryOp) (h : Inverted sp e) : Inverted sp (.unary op e) := by
  have hne : op.level sp ≠ .conditional := by
    cases op with
    | neg => exact nofun
    | not =>
      rw [UnaryOp.level]
      split <;> exact nofun
  have hoperand := (h.placed hne).leads
  refine Written.inverted ?_ hne
  show Written (op.level sp) (op.lexeme sp :: Expr.placed (op.level sp) _ _) (.unary op e.asRead)
  cases op with
  | neg => exact ⟨⟨_, _, rfl, nofun, nofun, fun _ => nofun,
      fun hlt => (Nat.lt_irrefl _ hlt).elim⟩, hoperand.minus⟩
  | not =>
    simp only [UnaryOp.level, UnaryOp.lexeme] at hoperand ⊢
    split
    · next hword =>
      rw [if_pos hword] at hoperand
      exact ⟨⟨_, _, rfl, nofun, nofun, fun hlt => absurd hlt (by decide),
        fun hlt => absurd hlt (by decide)⟩, hoperand.not_word⟩
    · next hword =>
      rw [if_neg hword] at hoperand
      exact ⟨⟨_, _, rfl, nofun, nofun, fun _ => nofun,
        fun hlt => absurd hlt (by decide)⟩, hoperand.bang⟩

theorem inverted_cond {c y n : Expr} (hc : Inverted sp c) (hy : Inverted sp y)
    (hn : Inverted sp n) : Inverted sp (.cond c y n) := by
  have hcondition := hc.placed (l := .disjunction) nofun
  refine ⟨⟨(hcondition.opens.mono (Nat.zero_le _)).append _, ?_⟩, fun h => absurd rfl h⟩
  exact hcondition.leads.inverts.cond hy.item.whole hn.item.whole

/-- A word that is not reserved stands for itself, a literal or `this`. -/
theorem written_word {x : String} (h : isReserved x = false) :
    Written .primary [.name x] ((Expr.ofWord? x).getD (.name x)) := by
  refine ⟨⟨_, _, rfl, nofun, nofun, fun _ hx => ?_, fun _ => ⟨nofun, nofun⟩⟩,
    leads_single fun o l rest => ?_⟩
  · rw [Lexeme.name.inj hx] at h
    exact absurd h (by decide)
  · show ofName x rest = _
    rw [ofName_eq h]
    rfl

theorem inverted_literal {l : Literal} (h : (Expr.literal l).Writable) :
    Inverted sp (.literal l) := by
  refine Written.inverted ?_ nofun
  cases l with
  | null => exact written_word (x := "null") rfl
  | bool b =>
    cases b
    · exact written_word (x := "false") rfl
    · exact written_word (x := "true") rfl
  | int i => exact ⟨⟨_, _, rfl, nofun, nofun, fun _ => nofun, fun _ => ⟨nofun, nofun⟩⟩,
      leads_single fun _ _ _ => rfl⟩
  | str s => exact ⟨⟨_, _, rfl, nofun, nofun, fun _ => nofun, fun _ => ⟨nofun, nofun⟩⟩,
      leads_single fun _ _ _ => rfl⟩
  | float x => exact h.elim

mutual

/-- A writable expression is read back from its tokens. -/
theorem inverted (sp : Spelling) : (e : Expr) → e.Writable → Inverted sp e
  | .literal _, h => inverted_literal h
  | .name _, h => Written.inverted (written_word h.2) nofun
  | .this, _ => Written.inverted (written_word (x := "this") rfl) nofun
  | .member object field, h =>
    have hobject := (inverted sp object h.1).placed (l := .access) nofun
    Written.inverted ⟨hobject.opens.append _, hobject.leads.member field⟩ nofun
  | .index object key, h =>
    have hobject := (inverted sp object h.1).placed (l := .access) nofun
    have hkey := (inverted sp key h.2).item.whole
    Written.inverted ⟨hobject.opens.append _, hobject.leads.index hkey⟩ nofun
  | .call callee args, h =>
    have hcallee := (inverted sp callee h.1).placed (l := .access) nofun
    have hargs := items_inverted sp args h.2
    Written.inverted ⟨hcallee.opens.append _, hcallee.leads.call hargs⟩ nofun
  | .list items, h =>
    have hitems := items_inverted sp items h
    Written.inverted ⟨⟨_, _, rfl, nofun, nofun, fun _ => nofun, fun _ => ⟨nofun, nofun⟩⟩,
      leads_list hitems⟩ nofun
  | .unary op operand, h => inverted_unary op (inverted sp operand h)
  | .binary op left right, h =>
    inverted_binary op (inverted sp left h.1) (inverted sp right h.2)
  | .logical op left right, h =>
    inverted_logical op (inverted sp left h.1) (inverted sp right h.2)
  | .cond condition yes no, h =>
    inverted_cond (inverted sp condition h.1) (inverted sp yes h.2.1) (inverted sp no h.2.2)

/-- So are writable expressions in a list. -/
theorem items_inverted (sp : Spelling) : (es : List Expr) → Expr.WritableList es →
    ∀ e ∈ es, Item (e.lexemes sp) e.asRead
  | [], _ => nofun
  | e :: es, h => List.forall_mem_cons.2 ⟨(inverted sp e h.1).item, items_inverted sp es h.2⟩

end

end Parser

namespace Expr

variable {sp : Spelling}

/-! ## The tokens of an expression can be written -/

theorem writable_placed {required actual : Level} {ls : List Lexeme}
    (h : ∀ l ∈ ls, l.Writable) : ∀ l ∈ placed required actual ls, l.Writable := by
  rw [placed]
  split
  · intro l hl
    rcases List.mem_cons.1 hl with rfl | hl
    · trivial
    rcases List.mem_append.1 hl with hl | hl
    · exact h l hl
    · obtain rfl := List.mem_singleton.1 hl
      trivial
  · exact h

/-- What stands around a token that can be written. -/
theorem writable_around {ls ls' : List Lexeme} {m : Lexeme} (h : ∀ l ∈ ls, l.Writable)
    (hm : m.Writable) (h' : ∀ l ∈ ls', l.Writable) : ∀ l ∈ ls ++ m :: ls', l.Writable :=
  List.forall_mem_append.2 ⟨h, List.forall_mem_cons.2 ⟨hm, h'⟩⟩

theorem writable_last {ls : List Lexeme} {m : Lexeme} (h : ∀ l ∈ ls, l.Writable)
    (hm : m.Writable) : ∀ l ∈ ls ++ [m], l.Writable := writable_around h hm nofun

mutual

theorem writable_lexemes (sp : Spelling) :
    (e : Expr) → e.Writable → ∀ l ∈ e.lexemes sp, l.Writable
  | .literal l, h => by
    refine List.forall_mem_singleton.2 ?_
    cases l with
    | null => rfl
    | bool b => cases b <;> rfl
    | int i => exact h
    | float x => exact h.elim
    | str s => trivial
  | .name _, h => List.forall_mem_singleton.2 h.1
  | .this, _ => List.forall_mem_singleton.2 rfl
  | .member object field, h =>
    writable_around (writable_placed (writable_lexemes sp object h.1)) trivial
      (List.forall_mem_singleton.2 h.2)
  | .index object key, h =>
    writable_around (writable_placed (writable_lexemes sp object h.1)) trivial
      (writable_last (writable_lexemes sp key h.2) trivial)
  | .call callee args, h =>
    writable_around (writable_placed (writable_lexemes sp callee h.1)) trivial
      (writable_last (writable_lexemesOfList sp args h.2) trivial)
  | .list items, h =>
    List.forall_mem_cons.2 ⟨trivial, writable_last (writable_lexemesOfList sp items h) trivial⟩
  | .unary op operand, h => by
    refine List.forall_mem_cons.2 ⟨?_, writable_placed (writable_lexemes sp operand h)⟩
    cases op with
    | neg => trivial
    | not =>
      rw [UnaryOp.lexeme]
      split
      · rfl
      · trivial
  | .binary op left right, h =>
    writable_around (writable_placed (writable_lexemes sp left h.1))
      (by cases op <;> trivial) (writable_placed (writable_lexemes sp right h.2))
  | .logical op left right, h => by
    refine writable_around (writable_placed (writable_lexemes sp left h.1)) ?_
      (writable_placed (writable_lexemes sp right h.2))
    cases op <;> rw [LogicalOp.lexeme] <;> split <;> trivial
  | .cond condition yes no, h =>
    writable_around (writable_placed (writable_lexemes sp condition h.1)) trivial
      (writable_around (writable_lexemes sp yes h.2.1) trivial (writable_lexemes sp no h.2.2))

theorem writable_lexemesOfList (sp : Spelling) :
    (es : List Expr) → WritableList es → ∀ l ∈ lexemesOfList sp es, l.Writable
  | [], _ => nofun
  | [e], h => writable_lexemes sp e h.1
  | e :: e' :: es, h =>
    writable_around (writable_lexemes sp e h.1) trivial (writable_lexemesOfList sp (e' :: es) h.2)

end

/-! ## Words -/

/-- A name is read as itself exactly if it is no word. -/
theorem asRead_name_iff (x : String) : (name x).asRead = name x ↔ ofWord? x = none := by
  rw [asRead]
  unfold ofWord?
  split <;> simp

mutual

/-- An expression is read as itself exactly if none of its names is a word. -/
theorem asRead_eq_iff : (e : Expr) → e.Writable →
    (e.asRead = e ↔ ∀ x ∈ e.names, ofWord? x = none)
  | .literal _, _ => by simp [asRead, names]
  | .name x, _ => by simpa [names] using asRead_name_iff x
  | .this, _ => by simp [asRead, names]
  | .member object _, h => by simpa [asRead, names] using asRead_eq_iff object h.1
  | .index object key, h => by
    simp [asRead, names, or_imp, forall_and, asRead_eq_iff object h.1, asRead_eq_iff key h.2]
  | .call callee args, h => by
    simp [asRead, names, or_imp, forall_and, asRead_eq_iff callee h.1, asReadList_eq_iff args h.2]
  | .list items, h => by simpa [asRead, names] using asReadList_eq_iff items h
  | .unary _ operand, h => by simpa [asRead, names] using asRead_eq_iff operand h
  | .binary _ left right, h => by
    simp [asRead, names, or_imp, forall_and, asRead_eq_iff left h.1, asRead_eq_iff right h.2]
  | .logical _ left right, h => by
    simp [asRead, names, or_imp, forall_and, asRead_eq_iff left h.1, asRead_eq_iff right h.2]
  | .cond condition yes no, h => by
    simp [asRead, names, or_imp, forall_and, asRead_eq_iff condition h.1,
      asRead_eq_iff yes h.2.1, asRead_eq_iff no h.2.2]

theorem asReadList_eq_iff : (es : List Expr) → WritableList es →
    (asReadList es = es ↔ ∀ x ∈ namesOfList es, ofWord? x = none)
  | [], _ => by simp [asReadList, namesOfList]
  | e :: es, h => by
    simp [asReadList, namesOfList, or_imp, forall_and, asRead_eq_iff e h.1,
      asReadList_eq_iff es h.2]

end

/-! ## Texts -/

/-- The written form of an expression is read as the expression, with its words as what they stand
for. -/
theorem parseExpression_print (sp : Spelling) {e : Expr} (h : e.Writable) :
    parseExpression (e.print sp) = .ok e.asRead := by
  obtain ⟨list, hlist, hls⟩ := Token.scan_intercalate sp (writable_lexemes sp e h)
  have hread := (Parser.inverted sp e h).item.whole.expression hls (Parser.stops_nil _)
  rw [List.append_nil] at hread
  rw [parseExpression, print, hlist]
  simp only [bind, Except.bind, hread]

/-- Reading inverts writing. A writable expression that is written down, in whatever spelling, is
read as itself exactly if none of its names is the word of a literal or `this`, and always as the
expression in which those words stand for what they mean. So only expressions that are the same but
for these words are written alike. -/
theorem parse_print (sp : Spelling) {e : Expr} (h : e.Writable) :
    parseExpression (e.print sp) = .ok e.asRead ∧
      (parseExpression (e.print sp) = .ok e ↔ ∀ x ∈ e.names, ofWord? x = none) ∧
      ∀ (sp' : Spelling) (e' : Expr), e'.Writable → e'.print sp' = e.print sp →
        e'.asRead = e.asRead := by
  have hread := parseExpression_print sp h
  refine ⟨hread, ?_, fun sp' e' h' hprint => ?_⟩
  · rw [hread, Except.ok.injEq]
    exact asRead_eq_iff e h
  · have hread' := parseExpression_print sp' h'
    rw [hprint, hread] at hread'
    exact (Except.ok.inj hread').symm

/-- Two prefixes, operands in parentheses on either side, an access to what a call gives, and a text
with a quote in it. -/
theorem parse_print_nested :
    ∃ e : Expr, e.Writable ∧
      e.print ⟨true, true, true⟩ =
        "f ( \"a\\\"b\" , x ? 1 : this ) . true in ( not ( x or - y ) )" ∧
      parseExpression "f ( \"a\\\"b\" , x ? 1 : this ) . true in ( not ( x or - y ) )" = .ok e := by
  let args := [literal (.str "a\"b"), cond (name "x") (literal (.int 1)) this]
  let e := binary .elem (member (call (name "f") args) "true")
    (unary .not (logical .or (name "x") (unary .neg (name "y"))))
  have hwritable : e.Writable := by
    simp only [e, args, Writable, WritableList]
    decide
  have hprint : e.print ⟨true, true, true⟩ =
      "f ( \"a\\\"b\" , x ? 1 : this ) . true in ( not ( x or - y ) )" := by
    decide +kernel
  refine ⟨e, hwritable, hprint, ?_⟩
  rw [← hprint]
  exact (parse_print ⟨true, true, true⟩ hwritable).2.1.2 (by decide)

/-- A name that is the word of a literal is no reserved word, but is written and read like the
literal. -/
theorem not_parse_print :
    (name "true").Writable ∧ (name "true").print ⟨true, true, true⟩ = "true" ∧
      (literal (.bool true)).print ⟨true, true, true⟩ = "true" ∧
      parseExpression "true" = .ok (literal (.bool true)) ∧
      parseExpression "true" ≠ .ok (name "true") := by
  have hprint : (literal (.bool true)).print ⟨true, true, true⟩ = "true" := by decide +kernel
  have hread : parseExpression "true" = .ok (literal (.bool true)) := by
    rw [← hprint]
    exact parseExpression_print _ trivial
  refine ⟨⟨by decide, by decide⟩, hprint, hprint, hread, ?_⟩
  rw [hread]
  intro h
  cases Except.ok.inj h

end Expr
end ReactiveView
