import ReactiveView.Expr.Parser
import ReactiveView.Proofs.Parsing.Tokens

/-!
# Parsers stay in their tokens

A parser leaves the end of the tokens that it was given, and fails at one of them or behind the
last. Each loop of the grammar counts its rounds, and each nesting its depth; what is read in a
round or before a nested part is at least one token, so that the number of tokens bounds both. Both
facts are proved at once, about two parsers that differ in these bounds only (`Parser.Reads`), level
by level as the grammar is built.
-/

namespace ReactiveView
namespace Parser

variable {α β : Type}

/-- What two parsers come to at some tokens, the first in `r` and the second in `r'`: they do the
same, and they leave the end of the tokens, after at least `k` of them, or fail at an end of them.
  -/
structure Reads (k : Nat) (ts : List Token) (r r' : Except Failure (α × List Token)) : Prop where
  /-- They do the same. -/
  same : r = r'
  /-- What is left is an end of the tokens. -/
  rest : ∀ {a left}, r = .ok (a, left) → left <:+ ts ∧ left.length + k ≤ ts.length
  /-- What is left at a failure is an end of the tokens; escapes are not among its causes. -/
  stop : ∀ {f}, r = .error f → f.rest <:+ ts ∧ f.cause ≠ .brokenEscape

variable {j k n : Nat} {ts left : List Token}

theorem reads_done (a : α) (ts : List Token) : Reads 0 ts (.ok (a, ts)) (.ok (a, ts)) where
  same := rfl
  rest := by
    rintro _ _ h
    obtain ⟨rfl, rfl⟩ := Prod.mk.inj (Except.ok.inj h)
    exact ⟨List.suffix_refl _, Nat.le_refl _⟩
  stop := nofun

theorem reads_error {cause : SyntaxCause} (hleft : left <:+ ts) (hcause : cause ≠ .brokenEscape) :
    Reads (α := α) k ts (.error ⟨cause, left⟩) (.error ⟨cause, left⟩) where
  same := rfl
  rest := nofun
  stop := by
    rintro _ h
    obtain rfl := Except.error.inj h
    exact ⟨hleft, hcause⟩

/-- Some tokens were read before. -/
theorem Reads.behind {r r' : Except Failure (α × List Token)} (h : Reads k left r r')
    (hleft : left <:+ ts) (hlength : n + left.length ≤ k + ts.length) : Reads n ts r r' where
  same := h.same
  rest hr := by
    obtain ⟨hsuffix, hle⟩ := h.rest hr
    exact ⟨hsuffix.trans hleft, by omega⟩
  stop hr := ⟨(h.stop hr).1.trans hleft, (h.stop hr).2⟩

theorem Reads.cons {t : Token} {r r' : Except Failure (α × List Token)} (h : Reads k ts r r') :
    Reads (k + 1) (t :: ts) r r' :=
  h.behind (List.suffix_cons t ts) (by rw [List.length_cons]; omega)

theorem Reads.mono {r r' : Except Failure (α × List Token)} (h : Reads k ts r r') (hn : n ≤ k) :
    Reads n ts r r' := h.behind (List.suffix_refl ts) (Nat.add_le_add_right hn _)

/-- One thing is read, and then another. -/
theorem Reads.andThen {p p' : Parser α} {f f' : α → Parser β} (h : Reads j ts (p ts) (p' ts))
    (hf : ∀ a left, left <:+ ts → left.length + j ≤ ts.length →
      Reads k left (f a left) (f' a left)) (hn : n ≤ j + k) :
    Reads n ts (Parser.andThen p f ts) (Parser.andThen p' f' ts) := by
  unfold Parser.andThen
  rw [← h.same]
  cases hp : p ts with
  | error e =>
    exact ⟨rfl, nofun, fun he => Except.error.inj he ▸ h.stop hp⟩
  | ok read =>
    obtain ⟨a, left⟩ := read
    obtain ⟨hleft, hlength⟩ := h.rest hp
    exact (hf a left hleft hlength).behind hleft (by omega)

theorem Reads.next {p p' : Parser α} {f f' : α → Parser β} (h : Reads j ts (p ts) (p' ts))
    (hf : ∀ a left, left <:+ ts → left.length + j ≤ ts.length →
      Reads 0 left (f a left) (f' a left)) :
    Reads 0 ts (Parser.andThen p f ts) (Parser.andThen p' f' ts) := h.andThen hf (Nat.zero_le _)

/-- Without tokens a parser that has to read one fails, and what would follow does not matter. -/
theorem Reads.andThen_nil {p p' : Parser α} {f f' : α → Parser β}
    (h : Reads (j + 1) [] (p []) (p' [])) :
    Reads n [] (Parser.andThen p f []) (Parser.andThen p' f' []) :=
  h.andThen (k := n) (fun _ _ _ hlength => absurd hlength (by simp)) (Nat.le_add_left ..)

/-! ## Tests -/

/-- A parser that reads one token, or says that it reads none. -/
def IsTest (q : Parser Bool) : Prop :=
  ∀ ts, (∃ t left, ts = t :: left ∧ q ts = .ok (true, left)) ∨ q ts = .ok (false, ts)

theorem isTest_eat (m : Mark) : IsTest (eat m) := by
  intro ts
  unfold eat
  split
  · next left =>
    split
    · exact .inl ⟨_, left, rfl, rfl⟩
    · exact .inr rfl
  · exact .inr rfl

theorem isTest_eatWord (word : String) : IsTest (eatWord word) := by
  intro ts
  unfold eatWord
  split
  · next left =>
    split
    · exact .inl ⟨_, left, rfl, rfl⟩
    · exact .inr rfl
  · exact .inr rfl

/-- A test decides what is read next. -/
theorem IsTest.reads {q : Parser Bool} (h : IsTest q) {yes yes' no no' : Parser α}
    (hyes : ∀ t left, ts = t :: left → Reads (k - 1) left (yes left) (yes' left))
    (hno : Reads k ts (no ts) (no' ts)) :
    Reads k ts (Parser.andThen q (fun b => if b then yes else no) ts)
      (Parser.andThen q (fun b => if b then yes' else no') ts) := by
  unfold Parser.andThen
  obtain ⟨t, left, rfl, hq⟩ | hq := h ts
  · rw [hq]
    exact (hyes t left rfl).cons.mono (by omega)
  · rw [hq]
    exact hno

theorem reads_expect (m : Mark) (ts : List Token) : Reads 1 ts (expect m ts) (expect m ts) :=
  (isTest_eat m).reads (fun _ left _ => reads_done () left)
    (reads_error (List.suffix_refl ts) nofun)

theorem reads_name (ts : List Token) : Reads 1 ts (name ts) (name ts) := by
  unfold name
  split
  · split
    · exact reads_error (List.suffix_refl _) nofun
    · exact (reads_done _ _).cons
  · exact reads_error (List.suffix_refl _) nofun

/-! ## Expressions -/

/-- An operator at the front is at least one token. -/
def IsOperator (operator : List Token → Option (Combine × List Token)) : Prop :=
  ∀ ts combine left, operator ts = some (combine, left) → left <:+ ts ∧ left.length + 1 ≤ ts.length

theorem isOperator_or : IsOperator orOperator := by
  intro ts combine left h
  unfold orOperator at h
  split at h <;> cases h <;> exact ⟨List.suffix_cons .., Nat.le_refl _⟩

theorem isOperator_and : IsOperator andOperator := by
  intro ts combine left h
  unfold andOperator at h
  split at h <;> cases h <;> exact ⟨List.suffix_cons .., Nat.le_refl _⟩

theorem isOperator_comparison : IsOperator comparisonOperator := by
  intro ts combine left h
  unfold comparisonOperator at h
  split at h <;> cases h
  case h_8 => exact ⟨⟨[_, _], rfl⟩, Nat.le_succ _⟩
  all_goals exact ⟨List.suffix_cons .., Nat.le_refl _⟩

theorem isOperator_sum : IsOperator sumOperator := by
  intro ts combine left h
  unfold sumOperator at h
  split at h <;> cases h <;> exact ⟨List.suffix_cons .., Nat.le_refl _⟩

theorem isOperator_product : IsOperator productOperator := by
  intro ts combine left h
  unfold productOperator at h
  split at h <;> cases h <;> exact ⟨List.suffix_cons .., Nat.le_refl _⟩

/-- Two parsers that do the same at fewer than `n` tokens, and read at least one. -/
def Agree (n : Nat) (p p' : Parser α) : Prop := ∀ ts, ts.length < n → Reads 1 ts (p ts) (p' ts)

theorem IsOperator.chainTail_nil {operator : List Token → Option (Combine × List Token)}
    (h : IsOperator operator) (operand : Parser Expr) (rounds : Nat) (e : Expr) :
    chainTail operator operand rounds e [] = .ok (e, []) := by
  have hnil : operator [] = none :=
    Option.eq_none_iff_forall_not_mem.2 fun read hread =>
      Nat.not_succ_le_zero _ (h [] read.1 read.2 hread).2
  cases rounds with
  | zero => rfl
  | succ rounds => simp only [chainTail, hnil]

/-- Each round of operators reads a token, so that more rounds than tokens change nothing. -/
theorem reads_chainTail {operator : List Token → Option (Combine × List Token)}
    (hoperator : IsOperator operator) {operand operand' : Parser Expr}
      (h : Agree n operand operand')
    {rounds rounds' : Nat} (hrounds : ts.length ≤ rounds) (hrounds' : ts.length ≤ rounds')
    (hts : ts.length < n) (e : Expr) :
    Reads 0 ts (chainTail operator operand rounds e ts)
      (chainTail operator operand' rounds' e ts) := by
  induction rounds generalizing rounds' ts e with
  | zero =>
    obtain rfl := List.eq_nil_of_length_eq_zero (Nat.le_zero.1 hrounds)
    rw [hoperator.chainTail_nil, hoperator.chainTail_nil]
    exact reads_done e []
  | succ rounds ih =>
    cases rounds' with
    | zero =>
      obtain rfl := List.eq_nil_of_length_eq_zero (Nat.le_zero.1 hrounds')
      rw [hoperator.chainTail_nil, hoperator.chainTail_nil]
      exact reads_done e []
    | succ rounds' =>
      simp only [chainTail]
      split
      · exact reads_done e ts
      · next combine left heq =>
        obtain ⟨hleft, hlength⟩ := hoperator _ _ _ heq
        refine ((h left (by omega)).next fun right rest _ hrest => ?_).behind hleft ?_
        · exact ih (by omega) (by omega) (by omega) (combine e right)
        · omega

/-- Operands with operators between them. -/
theorem agree_chain {operator : List Token → Option (Combine × List Token)}
    (hoperator : IsOperator operator) {operand operand' : Parser Expr}
      (h : Agree n operand operand') :
    Agree n (chain operator operand) (chain operator operand') := fun ts hts =>
  (h ts hts).andThen (fun e _ hleft _ => reads_chainTail hoperator h (Nat.le_refl _)
    (Nat.le_refl _) (Nat.lt_of_le_of_lt hleft.length_le hts) e) (Nat.le_refl _)

section Nested

variable {expr expr' : Parser Expr}

/-- Items are counted by their commas. -/
theorem reads_itemsTo (h : Agree n expr expr') (close : Mark) {rounds rounds' : Nat}
    (hrounds : ts.length ≤ rounds) (hrounds' : ts.length ≤ rounds') (hts : ts.length < n) :
    Reads 1 ts (itemsTo expr close rounds ts) (itemsTo expr' close rounds' ts) := by
  induction rounds generalizing rounds' ts with
  | zero =>
    obtain rfl := List.eq_nil_of_length_eq_zero (Nat.le_zero.1 hrounds)
    cases rounds' <;> exact (h [] hts).andThen_nil
  | succ rounds ih =>
    cases rounds' with
    | zero =>
      obtain rfl := List.eq_nil_of_length_eq_zero (Nat.le_zero.1 hrounds')
      exact (h [] hts).andThen_nil
    | succ rounds' =>
      refine (h ts hts).andThen (k := 0) (fun e left hleft hlength => ?_) (Nat.le_refl _)
      refine (isTest_eat .comma).reads (fun t left hcons => ?_) ?_
      · refine (isTest_eat close).reads (fun _ left _ => reads_done _ left) ?_
        subst hcons
        rw [List.length_cons] at hlength
        exact (ih (by omega) (by omega) (by omega)).next fun es left _ _ => reads_done _ left
      · exact (reads_expect close left).next fun _ left _ _ => reads_done _ left

theorem reads_items (h : Agree n expr expr') (close : Mark) (hts : ts.length < n) :
    Reads 1 ts (items expr close ts) (items expr' close ts) :=
  (isTest_eat close).reads (fun _ left _ => reads_done _ left)
    (reads_itemsTo h close (Nat.le_refl _) (Nat.le_refl _) hts)

theorem reads_ofName (x : String) (ts : List Token) : Reads 0 ts (ofName x ts) (ofName x ts) := by
  unfold ofName
  split
  · exact reads_done _ ts
  split
  · exact reads_done _ ts
  split
  · exact reads_done _ ts
  split
  · exact reads_done _ ts
  split
  · exact reads_error (List.suffix_refl _) nofun
  · exact reads_done _ ts

/-- What is nested in a primary expression stands behind its first token. -/
theorem agree_primary (h : Agree n expr expr') : Agree (n + 1) (primary expr) (primary expr') := by
  intro ts hts
  unfold primary
  split
  · exact (reads_done _ _).cons
  · exact (reads_done _ _).cons
  · exact (reads_done _ _).cons
  · exact (reads_ofName _ _).cons
  · have hleft := Nat.lt_of_succ_lt_succ hts
    refine ((h _ hleft).next fun e left _ _ => ?_).cons
    exact (reads_expect .closeParen left).next fun _ left _ _ => reads_done _ left
  · have hleft := Nat.lt_of_succ_lt_succ hts
    exact ((reads_items h .closeBracket hleft).next fun _ left _ _ => reads_done _ left).cons
  · exact reads_error (List.suffix_refl _) nofun
  · exact reads_error (List.suffix_refl _) nofun
  · exact reads_error (List.suffix_refl _) nofun

theorem accesses_nil (expr : Parser Expr) (rounds : Nat) (e : Expr) :
    accesses expr rounds e [] = .ok (e, []) := by
  cases rounds <;> rfl

/-- Each access reads a mark, and what is nested in it stands behind that. -/
theorem reads_accesses (h : Agree n expr expr') {rounds rounds' : Nat}
    (hrounds : ts.length ≤ rounds)
    (hrounds' : ts.length ≤ rounds') (hts : ts.length < n + 1) (e : Expr) :
    Reads 0 ts (accesses expr rounds e ts) (accesses expr' rounds' e ts) := by
  induction rounds generalizing rounds' ts e with
  | zero =>
    obtain rfl := List.eq_nil_of_length_eq_zero (Nat.le_zero.1 hrounds)
    rw [accesses_nil, accesses_nil]
    exact reads_done e []
  | succ rounds ih =>
    cases rounds' with
    | zero =>
      obtain rfl := List.eq_nil_of_length_eq_zero (Nat.le_zero.1 hrounds')
      rw [accesses_nil, accesses_nil]
      exact reads_done e []
    | succ rounds' =>
      have hround (left : List Token) (hleft : left.length + 1 ≤ ts.length) (e : Expr) :
          Reads 0 left (accesses expr rounds e left) (accesses expr' rounds' e left) :=
        ih (by omega) (by omega) (by omega) e
      have hclose (key : Expr) (left : List Token) (hleft : left.length + 1 ≤ ts.length) :
          Reads 0 left
            ((expect .closeBracket).andThen (fun _ => accesses expr rounds (.index e key)) left)
            ((expect .closeBracket).andThen (fun _ => accesses expr' rounds' (.index e key))
              left) :=
        (reads_expect .closeBracket left).next fun _ rest _ hrest => hround rest (by omega) _
      simp only [accesses]
      split
      · exact (hround _ (by simp) _).cons.cons.mono (Nat.zero_le _)
      · exact reads_error ((List.tail_suffix _).trans (List.suffix_cons ..)) nofun
      · next left =>
        have hleft := Nat.lt_of_succ_lt_succ hts
        exact ((h left hleft).next fun key rest hrest _ =>
          hclose key rest (Nat.succ_le_succ hrest.length_le)).cons.mono
            (Nat.zero_le _)
      · next left =>
        have hleft := Nat.lt_of_succ_lt_succ hts
        exact ((reads_items h .closeParen hleft).next fun args rest hrest _ =>
          hround rest (Nat.succ_le_succ hrest.length_le) _).cons.mono
            (Nat.zero_le _)
      · exact reads_done e _

theorem agree_access (h : Agree n expr expr') : Agree (n + 1) (access expr) (access expr') :=
  fun ts hts => (agree_primary h ts hts).andThen (fun e _ hleft _ => reads_accesses h
    (Nat.le_refl _)
    (Nat.le_refl _) (Nat.lt_of_le_of_lt hleft.length_le hts) e) (Nat.le_refl _)

/-- What a parser reads is wrapped. -/
theorem Reads.map {r r' : Except Failure (α × List Token)} (h : Reads k ts r r') (f : α → β) :
    Reads k ts (r.map fun (a, left) => (f a, left)) (r'.map fun (a, left) => (f a, left)) := by
  rw [← h.same]
  cases r with
  | error e => exact ⟨rfl, nofun, fun he => Except.error.inj he ▸ h.stop rfl⟩
  | ok read =>
    refine ⟨rfl, fun hr => ?_, nofun⟩
    obtain ⟨rfl, rfl⟩ := Prod.mk.inj (Except.ok.inj hr)
    exact h.rest rfl

theorem agree_unary (h : Agree n expr expr') : Agree (n + 1) (unary expr) (unary expr') := by
  intro ts hts
  induction ts using unary.induct with
  | case1 offset line left ih =>
    exact ((ih (Nat.lt_of_succ_lt hts)).map (Expr.unary .not)).cons.mono (Nat.le_succ _)
  | case2 offset line left ih =>
    exact ((ih (Nat.lt_of_succ_lt hts)).map (Expr.unary .neg)).cons.mono (Nat.le_succ _)
  | case3 ts hbang hminus =>
    rw [unary.eq_3 expr ts hbang hminus, unary.eq_3 expr' ts hbang hminus]
    exact agree_access h ts hts

theorem agree_comparison (h : Agree n expr expr') :
    Agree (n + 1) (comparison expr) (comparison expr') :=
  agree_chain isOperator_comparison (agree_chain isOperator_sum
    (agree_chain isOperator_product (agree_unary h)))

theorem agree_negation (h : Agree n expr expr') :
    Agree (n + 1) (negation expr) (negation expr') := by
  intro ts hts
  induction ts using negation.induct with
  | case1 offset line left ih =>
    rw [negation, negation, if_pos rfl, if_pos rfl]
    exact ((ih (Nat.lt_of_succ_lt hts)).map (Expr.unary .not)).cons.mono (Nat.le_succ _)
  | case2 x offset line left hx =>
    rw [negation, negation, if_neg hx, if_neg hx]
    exact agree_comparison h _ hts
  | case3 ts hname =>
    rw [negation.eq_2 expr ts hname, negation.eq_2 expr' ts hname]
    exact agree_comparison h ts hts

theorem agree_disjunction (h : Agree n expr expr') :
    Agree (n + 1) (disjunction expr) (disjunction expr') :=
  agree_chain isOperator_or (agree_chain isOperator_and (agree_negation h))

/-- A nested expression stands behind a mark. -/
theorem agree_conditional (h : Agree n expr expr') :
    Agree (n + 1) (conditional expr) (conditional expr') := by
  intro ts hts
  refine (agree_disjunction h ts hts).andThen (k := 0) (fun e left _ hlength => ?_) (Nat.le_refl _)
  refine (isTest_eat .question).reads (fun t left hcons => ?_) (reads_done e left)
  subst hcons
  rw [List.length_cons] at hlength
  refine (h left (by omega)).next fun yes left hleft _ => ?_
  refine (reads_expect .colon left).next fun _ rest hrest _ => ?_
  have hle := (hrest.trans hleft).length_le
  exact (h rest (by omega)).next fun no left _ _ => reads_done _ left

end Nested

/-- Expressions nest no deeper than they have tokens. -/
theorem agree_expressionAt {depth depth' : Nat} (hdepth : n ≤ depth) (hdepth' : n ≤ depth') :
    Agree n (expressionAt depth) (expressionAt depth') := by
  induction n generalizing depth depth' with
  | zero => exact fun ts hts => absurd hts (Nat.not_lt_zero _)
  | succ n ih =>
    cases depth with
    | zero => exact absurd hdepth (Nat.not_succ_le_zero n)
    | succ depth =>
      cases depth' with
      | zero => exact absurd hdepth' (Nat.not_succ_le_zero n)
      | succ depth' =>
        exact agree_conditional (ih (Nat.le_of_succ_le_succ hdepth)
          (Nat.le_of_succ_le_succ hdepth'))

theorem reads_expression (ts : List Token) : Reads 1 ts (expression ts) (expression ts) :=
  agree_expressionAt (Nat.le_refl _) (Nat.le_refl _) ts (Nat.lt_succ_self _)

/-- More depth than there are tokens changes nothing. -/
theorem expressionAt_eq {depth : Nat} (hdepth : ts.length < depth) :
    expressionAt depth ts = expression ts :=
  (agree_expressionAt hdepth (Nat.le_refl _) ts (Nat.lt_succ_self _)).same

end Parser
end ReactiveView
