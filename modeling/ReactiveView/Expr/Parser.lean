import ReactiveView.Expr.Token

/-!
# Reading expressions and statements

The levels of the expression grammar, loosest first, are the conditional, `or`, `and`, the prefix
`not`, comparison and membership, sum, product, the prefixes `!` and `-`, and the postfix member,
index and call. The binary levels associate to the left and the conditional to the right.

Each level is a parser built from the next one, and only the innermost needs the loosest again:
behind an opening bracket, a question mark or a colon. `Parser.expressionAt` ties that knot by depth
of nesting, which the number of tokens bounds; likewise `Parser.blockAt` for blocks of statements. A
parser that fails reports the tokens that were left, from which the place of the error is read off.
-/

namespace ReactiveView

/-- Whether a name is a reserved word. -/
def isReserved (name : String) : Bool :=
  ["and", "or", "not", "in", "fn", "if", "else", "for", "return"].contains name

/-- Whether a text is a name that can be bound. -/
def isIdentifier (name : String) : Bool :=
  match name.toList with
  | [] => false
  | c :: cs =>
    (c == '_' || Text.isAsciiLetter c) &&
      cs.all (fun c => c == '_' || Text.isAsciiLetter c || Text.isAsciiDigit c) &&
      !isReserved name

namespace Parser

/-- A failure: its cause, and the tokens from the place of the error on. -/
structure Failure where
  /-- Why reading stopped. -/
  cause : SyntaxCause
  /-- The tokens that were left. -/
  rest : List Token

end Parser

/-- A reader of the front of a list of tokens. -/
abbrev Parser (α : Type) := List Token → Except Parser.Failure (α × List Token)

namespace Parser

variable {α β : Type}

/-- Read nothing. -/
def done (a : α) : Parser α := fun ts => .ok (a, ts)

/-- Fail at the next token. -/
def fail (cause : SyntaxCause) : Parser α := fun ts => .error ⟨cause, ts⟩

/-- Read one thing, and then another that may depend on it. -/
def andThen (p : Parser α) (f : α → Parser β) : Parser β := fun ts =>
  match p ts with
  | .ok (a, ts) => f a ts
  | .error e => .error e

instance : Monad Parser where
  pure := done
  bind := andThen

/-- The next lexeme, left where it is. -/
def peek : Parser (Option Lexeme) := fun ts => .ok (ts.head?.map (·.lexeme), ts)

/-- The lexeme behind the next one. -/
def peekSecond : Parser (Option Lexeme) := fun ts => .ok (ts.tail.head?.map (·.lexeme), ts)

/-- Drop the next token; at the end there is nothing to drop. -/
def advance : Parser Unit := fun ts => .ok ((), ts.tail)

/-- The line of the next token, or a given line at the end. -/
def lineOr (endLine : Nat) : Parser Nat := fun ts =>
  .ok (match ts with | t :: _ => t.line | [] => endLine, ts)

/-- Drop the next token if it is the mark. -/
def eat (m : Mark) : Parser Bool := fun ts =>
  match ts with
  | ⟨.mark n, _, _⟩ :: rest => .ok (if n = m then (true, rest) else (false, ts))
  | _ => .ok (false, ts)

/-- Drop the next token if it is the word. -/
def eatWord (word : String) : Parser Bool := fun ts =>
  match ts with
  | ⟨.name x, _, _⟩ :: rest => .ok (if x = word then (true, rest) else (false, ts))
  | _ => .ok (false, ts)

/-- The mark has to come next. -/
def expect (m : Mark) : Parser Unit := do
  if ← eat m then done () else fail (.expectedMark m)

/-- A name that is not reserved has to come next. -/
def name : Parser String := fun ts =>
  match ts with
  | ⟨.name x, _, _⟩ :: rest =>
    if isReserved x then .error ⟨.expectedName, ts⟩ else .ok (x, rest)
  | _ => .error ⟨.expectedName, ts⟩

/-! ## Expressions -/

/-- How an operator combines its operands. -/
abbrev Combine := Expr → Expr → Expr

/-- The operator `or` at the front, and what follows it. -/
def orOperator : List Token → Option (Combine × List Token)
  | ⟨.name "or", _, _⟩ :: rest => some (.logical .or, rest)
  | ⟨.mark .orOr, _, _⟩ :: rest => some (.logical .or, rest)
  | _ => none

/-- The operator `and` at the front. -/
def andOperator : List Token → Option (Combine × List Token)
  | ⟨.name "and", _, _⟩ :: rest => some (.logical .and, rest)
  | ⟨.mark .andAnd, _, _⟩ :: rest => some (.logical .and, rest)
  | _ => none

/-- A comparison, `in` or `not in` at the front. -/
def comparisonOperator : List Token → Option (Combine × List Token)
  | ⟨.mark .eqEq, _, _⟩ :: rest => some (.binary .eq, rest)
  | ⟨.mark .notEq, _, _⟩ :: rest => some (.binary .notEq, rest)
  | ⟨.mark .lt, _, _⟩ :: rest => some (.binary .lt, rest)
  | ⟨.mark .ltEq, _, _⟩ :: rest => some (.binary .ltEq, rest)
  | ⟨.mark .gt, _, _⟩ :: rest => some (.binary .gt, rest)
  | ⟨.mark .gtEq, _, _⟩ :: rest => some (.binary .gtEq, rest)
  | ⟨.name "in", _, _⟩ :: rest => some (.binary .elem, rest)
  | ⟨.name "not", _, _⟩ :: ⟨.name "in", _, _⟩ :: rest =>
    some (fun left right => .unary .not (.binary .elem left right), rest)
  | _ => none

/-- A plus or a minus at the front. -/
def sumOperator : List Token → Option (Combine × List Token)
  | ⟨.mark .plus, _, _⟩ :: rest => some (.binary .add, rest)
  | ⟨.mark .minus, _, _⟩ :: rest => some (.binary .sub, rest)
  | _ => none

/-- A product operator at the front. -/
def productOperator : List Token → Option (Combine × List Token)
  | ⟨.mark .star, _, _⟩ :: rest => some (.binary .mul, rest)
  | ⟨.mark .slash, _, _⟩ :: rest => some (.binary .div, rest)
  | ⟨.mark .percent, _, _⟩ :: rest => some (.binary .rem, rest)
  | _ => none

/-- Further operators and operands behind a left operand; the result leans to the left. Every round
reads an operator, so the number of tokens bounds the rounds. -/
def chainTail (operator : List Token → Option (Combine × List Token)) (operand : Parser Expr) :
    (rounds : Nat) → Expr → Parser Expr
  | 0, left => done left
  | rounds + 1, left => fun ts =>
    match operator ts with
    | none => .ok (left, ts)
    | some (combine, rest) =>
      (operand.andThen fun right => chainTail operator operand rounds (combine left right)) rest

/-- Operands with operators between them. -/
def chain (operator : List Token → Option (Combine × List Token)) (operand : Parser Expr) :
    Parser Expr :=
  operand.andThen fun left => fun ts => chainTail operator operand ts.length left ts

/-- Expressions with commas between them up to the closing mark; a comma may stand before it. There
is at least one expression. Every round reads a comma. -/
def itemsTo (expr : Parser Expr) (close : Mark) : (rounds : Nat) → Parser (List Expr)
  | 0 => do
    let e ← expr
    expect close
    return [e]
  | rounds + 1 => do
    let e ← expr
    if ← eat .comma then
      if ← eat close then return [e]
      return e :: (← itemsTo expr close rounds)
    else
      expect close
      return [e]

/-- Expressions with commas between them up to the closing mark, or no expression. -/
def items (expr : Parser Expr) (close : Mark) : Parser (List Expr) := do
  if ← eat close then return []
  fun ts => itemsTo expr close ts.length ts

/-- The expression that a name stands for alone. A reserved word is refused, and the error is placed
behind it. -/
def ofName (x : String) : Parser Expr :=
  if x = "true" ∨ x = "True" then done (.literal (.bool true))
  else if x = "false" ∨ x = "False" then done (.literal (.bool false))
  else if x = "null" ∨ x = "None" then done (.literal .null)
  else if x = "this" then done .this
  else if isReserved x then fail (.unexpectedKeyword x)
  else done (.name x)

/-- A literal, a name, a list or an expression in parentheses. -/
def primary (expr : Parser Expr) : Parser Expr
  | ⟨.int i, _, _⟩ :: rest => .ok (.literal (.int i), rest)
  | ⟨.float x, _, _⟩ :: rest => .ok (.literal (.float x), rest)
  | ⟨.str s, _, _⟩ :: rest => .ok (.literal (.str s), rest)
  | ⟨.name x, _, _⟩ :: rest => ofName x rest
  | ⟨.mark .openParen, _, _⟩ :: rest =>
    (expr.andThen fun e => (expect .closeParen).andThen fun _ => done e) rest
  | ⟨.mark .openBracket, _, _⟩ :: rest =>
    ((items expr .closeBracket).andThen fun es => done (.list es)) rest
  | ⟨.mark m, o, l⟩ :: rest => .error ⟨.unexpectedMark m, ⟨.mark m, o, l⟩ :: rest⟩
  | ⟨.newline, o, l⟩ :: rest => .error ⟨.unexpectedEnd, ⟨.newline, o, l⟩ :: rest⟩
  | [] => .error ⟨.unexpectedEnd, []⟩

/-- Member accesses, indices and calls behind an expression. Every round reads a mark. -/
def accesses (expr : Parser Expr) : (rounds : Nat) → Expr → Parser Expr
  | 0, e => done e
  | rounds + 1, e => fun ts =>
    match ts with
    | ⟨.mark .dot, _, _⟩ :: ⟨.name x, _, _⟩ :: rest => accesses expr rounds (.member e x) rest
    | ⟨.mark .dot, _, _⟩ :: rest => .error ⟨.expectedMember, rest.tail⟩
    | ⟨.mark .openBracket, _, _⟩ :: rest =>
      (expr.andThen fun key => (expect .closeBracket).andThen fun _ =>
        accesses expr rounds (.index e key)) rest
    | ⟨.mark .openParen, _, _⟩ :: rest =>
      ((items expr .closeParen).andThen fun args => accesses expr rounds (.call e args)) rest
    | _ => .ok (e, ts)

/-- A primary expression with what is accessed of it. -/
def access (expr : Parser Expr) : Parser Expr :=
  (primary expr).andThen fun e => fun ts => accesses expr ts.length e ts

/-- The prefixes `!` and `-`, any number of them, and what they apply to. -/
def unary (expr : Parser Expr) : Parser Expr
  | ⟨.mark .bang, _, _⟩ :: rest => (unary expr rest).map fun (e, rest) => (.unary .not e, rest)
  | ⟨.mark .minus, _, _⟩ :: rest => (unary expr rest).map fun (e, rest) => (.unary .neg e, rest)
  | ts => access expr ts

/-- A product. -/
def product (expr : Parser Expr) : Parser Expr := chain productOperator (unary expr)

/-- A sum. -/
def sum (expr : Parser Expr) : Parser Expr := chain sumOperator (product expr)

/-- A comparison. -/
def comparison (expr : Parser Expr) : Parser Expr := chain comparisonOperator (sum expr)

/-- The prefix `not`, any number of times, and the comparison that it applies to. -/
def negation (expr : Parser Expr) : Parser Expr
  | ⟨.name x, o, l⟩ :: rest =>
    if x = "not" then (negation expr rest).map fun (e, rest) => (.unary .not e, rest)
    else comparison expr (⟨.name x, o, l⟩ :: rest)
  | ts => comparison expr ts

/-- A conjunction. -/
def conjunction (expr : Parser Expr) : Parser Expr := chain andOperator (negation expr)

/-- A disjunction. -/
def disjunction (expr : Parser Expr) : Parser Expr := chain orOperator (conjunction expr)

/-- A disjunction, or a conditional with a disjunction in front. -/
def conditional (expr : Parser Expr) : Parser Expr := do
  let condition ← disjunction expr
  if ← eat .question then
    let yes ← expr
    expect .colon
    let no ← expr
    return .cond condition yes no
  else return condition

/-- An expression with a bounded depth of nesting. -/
def expressionAt : (depth : Nat) → Parser Expr
  | 0 => fail .unexpectedEnd
  | depth + 1 => conditional (expressionAt depth)

/-- An expression. Every nested one stands behind a mark, so there are fewer than there are
tokens. -/
def expression : Parser Expr := fun ts => expressionAt (ts.length + 1) ts

/-! ## Statements -/

/-- Drop line ends and semicolons. -/
def skipEnds : List Token → List Token
  | ⟨.newline, _, _⟩ :: rest => skipEnds rest
  | ⟨.mark .semicolon, _, _⟩ :: rest => skipEnds rest
  | ts => ts

/-- Whether a statement ends before these tokens. -/
def atStatementEnd : List Token → Bool
  | [] => true
  | ⟨.newline, _, _⟩ :: _ => true
  | ⟨.mark .semicolon, _, _⟩ :: _ => true
  | ⟨.mark .closeBrace, _, _⟩ :: _ => true
  | _ => false

/-- The statement has to end here. -/
def statementEnd : Parser Unit := fun ts =>
  if atStatementEnd ts then .ok ((), ts) else .error ⟨.expectedStatementEnd, ts⟩

/-- Parameter names with commas between them up to the closing parenthesis; at least one. -/
def paramsTo : (rounds : Nat) → Parser (List String)
  | 0 => do
    let x ← name
    expect .closeParen
    return [x]
  | rounds + 1 => do
    let x ← name
    if ← eat .closeParen then return [x]
    expect .comma
    return x :: (← paramsTo rounds)

/-- Parameter names up to the closing parenthesis. -/
def params : Parser (List String) := do
  if ← eat .closeParen then return []
  fun ts => paramsTo ts.length ts

/-- The assignment operator at the front. -/
def assignOp? : Option Lexeme → Option AssignOp
  | some (.mark .eq) => some .set
  | some (.mark .plusEq) => some .add
  | some (.mark .minusEq) => some .sub
  | _ => none

/-- A branch behind its `if`. Another one may follow its `else`; every round reads that word. -/
def branch (endLine : Nat) (block : Parser (List Stmt)) :
    (rounds : Nat) → (line : Nat) → Parser Stmt
  | 0, _ => fail .unexpectedEnd
  | rounds + 1, line => do
    let condition ← expression
    let yes ← block
    if ← eatWord "else" then
      let elseLine ← lineOr endLine
      if ← eatWord "if" then
        return .branch line condition yes [← branch endLine block rounds elseLine]
      else return .branch line condition yes (← block)
    else return .branch line condition yes []

/-- A statement whose blocks are read by `block`. -/
def statement (endLine : Nat) (block : Parser (List Stmt)) : Parser Stmt := do
  let line ← lineOr endLine
  if ← eatWord "fn" then
    let f ← name
    expect .openParen
    let xs ← params
    return .function line f xs (← block)
  else if ← eatWord "if" then
    fun ts => branch endLine block (ts.length + 1) line ts
  else if ← eatWord "for" then
    let var ← name
    if ← eatWord "in" then
      let iterable ← expression
      return .loop line var iterable (← block)
    else fail .expectedIn
  else if ← eatWord "return" then
    if ← (fun ts => .ok (atStatementEnd ts, ts) : Parser Bool) then return .ret line none
    else
      let value ← expression
      statementEnd
      return .ret line (some value)
  else
    match ← peek, assignOp? (← peekSecond) with
    | some (.name x), some op =>
      if isReserved x then fail (.reservedTarget x)
      else
        advance
        advance
        let value ← expression
        statementEnd
        return .assign line x op value
    | _, _ =>
      let value ← expression
      statementEnd
      return .expr line value

/-- The statements of a block up to its closing brace. Every round reads a statement. -/
def statementsTo (stmt : Parser Stmt) : (rounds : Nat) → Parser (List Stmt)
  | 0 => fail (.expectedMark .closeBrace)
  | rounds + 1 => fun ts =>
    match skipEnds ts with
    | [] => .error ⟨.expectedMark .closeBrace, []⟩
    | ⟨.mark .closeBrace, _, _⟩ :: rest => .ok ([], rest)
    | ts => (stmt.andThen fun s => (statementsTo stmt rounds).andThen fun ss => done (s :: ss)) ts

/-- A block with a bounded depth of nesting. -/
def blockAt (endLine : Nat) : (depth : Nat) → Parser (List Stmt)
  | 0 => fail .unexpectedEnd
  | depth + 1 => do
    expect .openBrace
    fun ts => statementsTo (statement endLine (blockAt endLine depth)) (ts.length + 1) ts

/-- Statements up to the end of the text. Every round reads a statement. -/
def statementsToEnd (stmt : Parser Stmt) : (rounds : Nat) → Parser (List Stmt)
  | 0 => done []
  | rounds + 1 => fun ts =>
    match skipEnds ts with
    | [] => .ok ([], [])
    | ts =>
      (stmt.andThen fun s => (statementsToEnd stmt rounds).andThen fun ss => done (s :: ss)) ts

/-- Where a failure is reported. -/
def Failure.toError (list : TokenList) (f : Failure) : SyntaxError :=
  match f.rest with
  | t :: _ => ⟨f.cause, t.offset, t.line⟩
  | [] => ⟨f.cause, list.endOffset, list.endLine⟩

end Parser

/-- Read an expression that spans the whole text. -/
def parseExpression (source : String) : Except SyntaxError Expr := do
  let list ← Token.scan false source
  match Parser.expression list.tokens with
  | .error f => .error (f.toError list)
  | .ok (e, []) => .ok e
  | .ok (_, rest) => .error (Parser.Failure.toError list ⟨.trailingInput, rest⟩)

/-- Read the statements of a code block. -/
def parseStatements (source : String) : Except SyntaxError (List Stmt) := do
  let list ← Token.scan true source
  let n := list.tokens.length
  let stmt := Parser.statement list.endLine (Parser.blockAt list.endLine (n + 1))
  match Parser.statementsToEnd stmt (n + 1) list.tokens with
  | .error f => .error (f.toError list)
  | .ok (ss, _) => .ok ss

end ReactiveView
