import ReactiveView.Proofs.Parsing.Expressions
import ReactiveView.Proofs.Printing.Tokens

/-!
# Written expressions are read back

The parser of each level reads the tokens of an expression of that level or a tighter one, up to a
token that does not continue it (`Parser.Inverts`). A level whose operators lean to the left reads on
behind an operand, so there the statement is about what it comes to with the operand read
(`Parser.Leads`): a binary expression is its left operand, read on. Levels loosen one by one
(`Parser.Written.loosen`), and parentheses make anything a primary expression.
-/

namespace ReactiveView

namespace Parser

/-! ## The parsers without their bounds -/

theorem agree_expression (n : Nat) : Agree n expression expression :=
  fun ts _ => reads_expression ts

/-- An expression is a conditional whose nested expressions are expressions. -/
theorem expression_eq (ts : List Token) : expression ts = conditional expression ts := by
  have hnested : Agree ts.length (expressionAt ts.length) expression := fun us hus =>
    agree_expressionAt (n := us.length + 1) hus (Nat.le_refl _) us (Nat.lt_succ_self _)
  exact (agree_conditional hnested ts (Nat.lt_succ_self _)).same

end Parser

namespace Level

open ReactiveView.Parser

/-- The parser of a level. -/
def parser : Level → Parser Expr
  | conditional => Parser.conditional expression
  | disjunction => Parser.disjunction expression
  | conjunction => Parser.conjunction expression
  | negation => Parser.negation expression
  | comparison => Parser.comparison expression
  | sum => Parser.sum expression
  | product => Parser.product expression
  | unary => Parser.unary expression
  | access => Parser.access expression
  | primary => Parser.primary expression

/-- The binary operators of a level. -/
def operator : Level → List Token → Option (Combine × List Token)
  | disjunction => orOperator
  | conjunction => andOperator
  | comparison => comparisonOperator
  | sum => sumOperator
  | product => productOperator
  | _ => fun _ => none

/-- What is read behind an expression of a level. -/
def tail : Level → Expr → Parser Expr
  | conditional | negation | unary | primary => done
  | access => fun e ts => accesses expression ts.length e ts
  | l => fun e ts => chainTail l.operator l.next.parser ts.length e ts

/-- Levels with binary operators. -/
def isChain : Level → Bool
  | disjunction | conjunction | comparison | sum | product => true
  | _ => false

theorem rank_next {l k : Level} (h : l.rank < k.rank) : l.next.rank = l.rank + 1 := by
  cases l
  case primary => cases k <;> exact absurd h (by decide)
  all_goals rfl

theorem eq_of_rank_eq {l k : Level} (h : l.rank = k.rank) : l = k := by
  cases l <;> cases k <;> first | rfl | cases h

theorem isOperator_operator (l : Level) : IsOperator l.operator := by
  cases l
  case disjunction => exact isOperator_or
  case conjunction => exact isOperator_and
  case comparison => exact isOperator_comparison
  case sum => exact isOperator_sum
  case product => exact isOperator_product
  all_goals exact fun ts combine left h => by cases h

theorem parser_agree (l : Level) (n : Nat) : Agree n l.parser l.parser := by
  have hexpr := agree_expression n
  have hmono {p : Parser Expr} (h : Agree (n + 1) p p) : Agree n p p :=
    fun ts hts => h ts (Nat.lt_succ_of_lt hts)
  have hunary := agree_unary hexpr
  have hnegation := agree_negation hexpr
  have hproduct := agree_chain isOperator_product hunary
  cases l
  case conditional => exact hmono (agree_conditional hexpr)
  case disjunction => exact hmono (agree_disjunction hexpr)
  case conjunction => exact hmono (agree_chain isOperator_and hnegation)
  case negation => exact hmono hnegation
  case comparison => exact hmono (agree_comparison hexpr)
  case sum => exact hmono (agree_chain isOperator_sum hproduct)
  case product => exact hmono hproduct
  case unary => exact hmono hunary
  case access => exact hmono (agree_access hexpr)
  case primary => exact hmono (agree_primary hexpr)

/-- The number of rounds does not matter if it is not less than the number of tokens. -/
theorem chainTail_eq (l : Level) {rounds : Nat} {ts : List Token} (h : ts.length ≤ rounds)
    (e : Expr) :
    chainTail l.operator l.next.parser rounds e ts =
      chainTail l.operator l.next.parser ts.length e ts :=
  (reads_chainTail l.isOperator_operator (l.next.parser_agree _) h (Nat.le_refl _)
    (Nat.lt_succ_self _) e).same

theorem accesses_eq {rounds : Nat} {ts : List Token} (h : ts.length ≤ rounds) (e : Expr) :
    accesses expression rounds e ts = accesses expression ts.length e ts :=
  (reads_accesses (agree_expression _) h (Nat.le_refl _)
    (Nat.lt_succ_of_lt (Nat.lt_succ_self _)) e).same

end Level

/-- The loosest level at which an expression goes on with a token. -/
def Lexeme.continues : Lexeme → Option Level
  | mark .question => some .conditional
  | name "or" | mark .orOr => some .disjunction
  | name "and" | mark .andAnd => some .conjunction
  | name "in" | name "not" => some .comparison
  | mark .eqEq | mark .notEq | mark .lt | mark .ltEq | mark .gt | mark .gtEq => some .comparison
  | mark .plus | mark .minus => some .sum
  | mark .star | mark .slash | mark .percent => some .product
  | mark .dot | mark .openBracket | mark .openParen => some .access
  | _ => none

namespace Parser

/-- An expression of a level ends before these tokens. -/
def Stops (l : Level) (ts : List Token) : Prop :=
  ∀ t ∈ ts.head?, ∀ k ∈ t.lexeme.continues, k.rank < l.rank

theorem Stops.mono {l k : Level} {ts : List Token} (h : Stops l ts) (hlk : l.rank ≤ k.rank) :
    Stops k ts := fun t ht j hj => Nat.lt_of_lt_of_le (h t ht j hj) hlk

theorem stops_nil (l : Level) : Stops l [] := fun _ h => by cases h

theorem stops_cons {l : Level} {t : Token} {ts : List Token}
    (h : ∀ k ∈ t.lexeme.continues, k.rank < l.rank) : Stops l (t :: ts) := by
  rintro _ ht
  obtain rfl := Option.some.inj ht
  exact h

/-- No operator of the level stands at the front. -/
theorem Stops.operator {l : Level} {ts : List Token} (h : Stops l ts) : l.operator ts = none := by
  have hfront {t : Token} {rest : List Token} {k : Level} (hts : ts = t :: rest)
      (hk : t.lexeme.continues = some k) (hle : l.rank ≤ k.rank) : False := by
    subst hts
    exact absurd (h t rfl k hk) (Nat.not_lt.2 hle)
  cases l
  case disjunction =>
    show orOperator ts = none
    unfold orOperator
    split
    · exact (hfront rfl rfl (Nat.le_refl _)).elim
    · exact (hfront rfl rfl (Nat.le_refl _)).elim
    · rfl
  case conjunction =>
    show andOperator ts = none
    unfold andOperator
    split
    · exact (hfront rfl rfl (Nat.le_refl _)).elim
    · exact (hfront rfl rfl (Nat.le_refl _)).elim
    · rfl
  case comparison =>
    show comparisonOperator ts = none
    unfold comparisonOperator
    split
    case h_9 => rfl
    all_goals exact (hfront rfl rfl (Nat.le_refl _)).elim
  case sum =>
    show sumOperator ts = none
    unfold sumOperator
    split
    · exact (hfront rfl rfl (Nat.le_refl _)).elim
    · exact (hfront rfl rfl (Nat.le_refl _)).elim
    · rfl
  case product =>
    show productOperator ts = none
    unfold productOperator
    split
    case h_4 => rfl
    all_goals exact (hfront rfl rfl (Nat.le_refl _)).elim
  all_goals rfl

theorem chainTail_of_none {operator : List Token → Option (Combine × List Token)}
    {operand : Parser Expr} {ts : List Token} (h : operator ts = none) (rounds : Nat) (e : Expr) :
    chainTail operator operand rounds e ts = .ok (e, ts) := by
  cases rounds with
  | zero => rfl
  | succ rounds => simp only [chainTail, h]

/-- Nothing is read on. -/
theorem Stops.tail {l : Level} {ts : List Token} (h : Stops l ts) (e : Expr) :
    l.tail e ts = .ok (e, ts) := by
  have hchain : chainTail l.operator l.next.parser ts.length e ts = .ok (e, ts) :=
    chainTail_of_none h.operator ts.length e
  cases l
  case access =>
    show accesses expression ts.length e ts = _
    cases ts with
    | nil => rfl
    | cons t ts =>
      have hfront {k : Level} (hk : t.lexeme.continues = some k)
          (hle : Level.access.rank ≤ k.rank) : False :=
        absurd (h t rfl k hk) (Nat.not_lt.2 hle)
      show accesses expression (ts.length + 1) e (t :: ts) = _
      simp only [accesses]
      split
      case h_5 => rfl
      all_goals
        next heq =>
        obtain ⟨rfl, -⟩ := List.cons.inj heq
        exact (hfront rfl (Nat.le_refl _)).elim
  all_goals first | rfl | exact hchain

theorem andThen_of_ok {α β : Type} {p : Parser α} {ts left : List Token} {a : α}
    (h : p ts = .ok (a, left)) (f : α → Parser β) : p.andThen f ts = f a left := by
  rw [Parser.andThen, h]

/-! ## Reading at a level -/

/-- At a level, tokens are read as an expression, up to what does not continue it. -/
def Inverts (l : Level) (ls : List Lexeme) (e : Expr) : Prop :=
  ∀ ts rest : List Token, ts.map (·.lexeme) = ls → Stops l rest →
    l.parser (ts ++ rest) = .ok (e, rest)

/-- At a level, tokens are read as an expression, and what is read on is read behind it. -/
def Leads (l : Level) (ls : List Lexeme) (e : Expr) : Prop :=
  ∀ ts rest : List Token, ts.map (·.lexeme) = ls → Stops l.next rest →
    l.parser (ts ++ rest) = l.tail e rest

/-- Tokens that an expression of a level can start with: no prefix of a looser level, and nothing
that closes a list. -/
def Opens (l : Level) (ls : List Lexeme) : Prop :=
  ∃ t tail, ls = t :: tail ∧ t ≠ .mark .closeParen ∧ t ≠ .mark .closeBracket ∧
    (Level.negation.rank < l.rank → t ≠ .name "not") ∧
    (Level.unary.rank < l.rank → t ≠ .mark .bang ∧ t ≠ .mark .minus)

/-- The tokens of an expression that is held together as tightly as a level. -/
structure Written (l : Level) (ls : List Lexeme) (e : Expr) : Prop where
  /-- How they start. -/
  opens : Opens l ls
  /-- What they are read as. -/
  leads : Leads l ls e

variable {l k : Level} {ls ls' : List Lexeme} {e e' : Expr}

theorem Opens.mono (h : Opens k ls) (hl : l.rank ≤ k.rank) : Opens l ls := by
  obtain ⟨t, tail, rfl, hparen, hbracket, hword, hmark⟩ := h
  exact ⟨t, tail, rfl, hparen, hbracket, fun h => hword (Nat.lt_of_lt_of_le h hl),
    fun h => hmark (Nat.lt_of_lt_of_le h hl)⟩

theorem Opens.append (h : Opens l ls) (ls' : List Lexeme) : Opens l (ls ++ ls') := by
  obtain ⟨t, tail, rfl, hrest⟩ := h
  exact ⟨t, tail ++ ls', rfl, hrest⟩

theorem Level.rank_le_next (l : Level) : l.rank ≤ l.next.rank := by
  cases l <;> decide

theorem Leads.inverts (h : Leads l ls e) : Inverts l ls e := by
  intro ts rest hts hrest
  rw [h ts rest hts (hrest.mono (Level.rank_le_next l)), hrest.tail]

/-- What is read at the next tighter level is read at a level. -/
theorem Inverts.leads (h : Inverts l.next ls e) (ho : Opens l.next ls) (hne : l ≠ .conditional)
    (hne' : l ≠ .primary) : Leads l ls e := by
  intro ts rest hts hrest
  have hnext := h ts rest hts hrest
  obtain ⟨t, tail, rfl, -, -, hword, hmark⟩ := ho
  obtain ⟨t, us, rfl, rfl, rfl⟩ := List.map_eq_cons_iff.1 hts
  cases l
  case conditional => exact absurd rfl hne
  case primary => exact absurd rfl hne'
  case negation =>
    show negation expression (t :: (us ++ rest)) = done e rest
    refine Eq.trans ?_ hnext
    have hnot := hword (by decide)
    obtain ⟨lexeme, offset, line⟩ := t
    cases lexeme
    case name x =>
      have hx : x ≠ "not" := fun hx => hnot (congrArg Lexeme.name hx)
      rw [negation, if_neg hx]
      rfl
    all_goals rfl
  case unary =>
    show Parser.unary expression (t :: (us ++ rest)) = done e rest
    refine Eq.trans ?_ hnext
    obtain ⟨hbang, hminus⟩ := hmark (by decide)
    obtain ⟨lexeme, offset, line⟩ := t
    cases lexeme
    case mark m =>
      rw [Parser.unary]
      · rfl
      · rintro _ _ _ heq
        obtain ⟨heq, -⟩ := List.cons.inj heq
        exact hbang (congrArg Token.lexeme heq)
      · rintro _ _ _ heq
        obtain ⟨heq, -⟩ := List.cons.inj heq
        exact hminus (congrArg Token.lexeme heq)
    all_goals rfl
  case access => exact andThen_of_ok hnext _
  all_goals exact andThen_of_ok hnext _

theorem Inverts.conditional (h : Inverts .disjunction ls e) : Inverts .conditional ls e := by
  intro ts rest hts hrest
  have hread := h ts rest hts (hrest.mono (by decide))
  have heat : eat .question rest = .ok (false, rest) := by
    unfold eat
    split
    · next n offset line left =>
      split
      · next hn =>
        subst hn
        exact absurd (hrest _ rfl _ rfl) (Nat.lt_irrefl _)
      · rfl
    · rfl
  refine (andThen_of_ok hread _).trans ?_
  exact andThen_of_ok heat _

/-- An expression that is held together as tightly as a level can stand where a looser one is
required. -/
theorem Written.loosen (h : Written k ls e) (hl : l.rank ≤ k.rank) (hne : l ≠ .conditional) :
    Written l ls e := by
  obtain ⟨n, hn⟩ := Nat.exists_eq_add_of_le hl
  induction n generalizing l with
  | zero =>
    obtain rfl := Level.eq_of_rank_eq hn.symm
    exact h
  | succ n ih =>
    have hlt : l.rank < k.rank := by omega
    have hnext := Level.rank_next hlt
    have hopens : l.next ≠ .conditional := by cases l <;> nofun
    have htighter := ih (l := l.next) (by omega) hopens (by omega)
    refine ⟨htighter.opens.mono (Level.rank_le_next l), ?_⟩
    refine htighter.leads.inverts.leads htighter.opens hne ?_
    rintro rfl
    cases k <;> exact absurd hlt (by decide)

theorem Written.inverts (h : Written l ls e) (hne : l ≠ .conditional) :
    Inverts .conditional ls e := by
  have hle : Level.disjunction.rank ≤ l.rank := by
    cases l <;> first | decide | exact absurd rfl hne
  exact (h.loosen hle nofun).leads.inverts.conditional

/-! ## Operators -/

/-- An operator of a level reads on. -/
theorem tail_of_operator (hl : l.isChain = true) {ts left rest : List Token} {combine : Combine}
    (hoperator : l.operator ts = some (combine, left))
    (hright : l.next.parser left = .ok (e', rest)) : l.tail e ts = l.tail (combine e e') rest := by
  have htail (e : Expr) (ts : List Token) :
      l.tail e ts = chainTail l.operator l.next.parser ts.length e ts := by
    cases l <;> first | rfl | cases hl
  have hshort := (l.isOperator_operator ts combine left hoperator).2
  obtain ⟨n, hn⟩ := Nat.exists_eq_add_of_lt (Nat.lt_of_lt_of_le (Nat.succ_pos _) hshort)
  rw [Nat.zero_add] at hn
  have hrest : rest.length + 1 ≤ left.length :=
    ((l.next.parser_agree _ left (Nat.lt_succ_self _)).rest hright).2
  rw [htail, htail, hn]
  simp only [chainTail, hoperator]
  rw [andThen_of_ok hright, l.chainTail_eq (by omega)]

theorem Leads.binary (ha : Leads l ls e) (hb : Inverts l.next ls' e') {op : Lexeme}
    (hl : l.isChain = true) {combine : Combine}
    (hop : op.continues = some l)
    (hoperator : ∀ t : Token, t.lexeme = op → ∀ rest,
      l.operator (t :: rest) = some (combine, rest)) :
    Leads l (ls ++ op :: ls') (combine e e') := by
  intro ts rest hts hrest
  obtain ⟨us, vs, rfl, hus, hvs⟩ := List.map_eq_append_iff.1 hts
  obtain ⟨t, vs, rfl, ht, hvs⟩ := List.map_eq_cons_iff.1 hvs
  have hlt : l.rank < l.next.rank := by cases l <;> first | decide | cases hl
  rw [List.append_assoc, List.cons_append, ha us _ hus (stops_cons ?_)]
  · exact tail_of_operator hl (hoperator t ht _) (hb vs rest hvs hrest)
  · rw [ht, hop]
    intro k hk
    obtain rfl := Option.some.inj hk
    exact hlt

/-! ## Prefixes -/

theorem Leads.not_word (h : Leads .negation ls e) :
    Leads .negation (.name "not" :: ls) (.unary .not e) := by
  intro ts rest hts hrest
  obtain ⟨⟨_, offset, line⟩, us, rfl, rfl, hus⟩ := List.map_eq_cons_iff.1 hts
  have hread := h us rest hus hrest
  show negation expression (⟨.name "not", offset, line⟩ :: (us ++ rest)) = _
  rw [negation, if_pos rfl]
  change negation expression (us ++ rest) = _ at hread
  rw [hread]
  rfl

theorem Leads.bang (h : Leads .unary ls e) :
    Leads .unary (.mark .bang :: ls) (.unary .not e) := by
  intro ts rest hts hrest
  obtain ⟨⟨_, offset, line⟩, us, rfl, rfl, hus⟩ := List.map_eq_cons_iff.1 hts
  have hread := h us rest hus hrest
  show Parser.unary expression (⟨.mark .bang, offset, line⟩ :: (us ++ rest)) = _
  rw [Parser.unary]
  change Parser.unary expression (us ++ rest) = _ at hread
  rw [hread]
  rfl

theorem Leads.minus (h : Leads .unary ls e) :
    Leads .unary (.mark .minus :: ls) (.unary .neg e) := by
  intro ts rest hts hrest
  obtain ⟨⟨_, offset, line⟩, us, rfl, rfl, hus⟩ := List.map_eq_cons_iff.1 hts
  have hread := h us rest hus hrest
  show Parser.unary expression (⟨.mark .minus, offset, line⟩ :: (us ++ rest)) = _
  rw [Parser.unary]
  change Parser.unary expression (us ++ rest) = _ at hread
  rw [hread]
  rfl

end Parser
end ReactiveView
