import ReactiveView.Expr.Parser

/-!
# Writing expressions

An expression is written as its tokens with a blank between any two of them. An operand stands in
parentheses exactly where it is held together less tightly than its place requires: a binary
operator takes operands of its own level on the left and tighter ones on the right, a prefix takes
operands of its own level, and the condition of a conditional is a disjunction. Some things can be
written in two ways, between which a `Spelling` chooses.

Not every expression has a written form: `Expr.Writable` says which do. A name that is also the word
of a literal, or `this`, is written like that word, and reads as it (`Expr.asRead`).
-/

namespace ReactiveView

/-- How tightly an expression is held together. -/
inductive Level where
  | conditional | disjunction | conjunction | negation | comparison | sum | product | unary
  | access | primary
deriving DecidableEq

namespace Level

/-- The levels in order, the loosest first. -/
def rank : Level → Nat
  | conditional => 0
  | disjunction => 1
  | conjunction => 2
  | negation => 3
  | comparison => 4
  | sum => 5
  | product => 6
  | unary => 7
  | access => 8
  | primary => 9

/-- The next tighter level. -/
def next : Level → Level
  | conditional => disjunction
  | disjunction => conjunction
  | conjunction => negation
  | negation => comparison
  | comparison => sum
  | sum => product
  | product => unary
  | unary => access
  | access => primary
  | primary => primary

end Level

/-- The level of a binary operator. -/
def BinaryOp.level : BinaryOp → Level
  | add | sub => .sum
  | mul | div | rem => .product
  | eq | notEq | lt | ltEq | gt | gtEq | elem => .comparison

/-- The level of a logical operator. -/
def LogicalOp.level : LogicalOp → Level
  | and => .conjunction
  | or => .disjunction

/-- The choices that a written form leaves open. -/
structure Spelling where
  /-- Whether a negation is the word `not` rather than the mark `!`. -/
  wordNot : Bool
  /-- Whether the logical operators are words rather than marks. -/
  wordLogic : Bool
  /-- Whether texts stand in double quotes rather than in single ones. -/
  doubleQuotes : Bool

/-- The quote around texts. -/
def Spelling.quote (sp : Spelling) : Char := if sp.doubleQuotes then '"' else '\''

/-- The content of a text literal: a backslash stands before the quote and before a backslash. -/
def Token.escape (quote : Char) (cs : List Char) : List Char :=
  cs.flatMap fun c => if c = quote ∨ c = '\\' then ['\\', c] else [c]

/-- How a token is written. -/
def Lexeme.written (sp : Spelling) : Lexeme → List Char
  | name x => x.toList
  | int i => (displayInt i).toList
  | float x => (displayFloat x).toList
  | str s => sp.quote :: (Token.escape sp.quote s.toList ++ [sp.quote])
  | mark m => m.symbol.toList
  | newline => ['\n']

/-- The token of a literal. -/
def Literal.lexeme : Literal → Lexeme
  | null => .name "null"
  | bool b => .name (if b then "true" else "false")
  | int i => .int i
  | float x => .float x
  | str s => .str s

/-- The token of a binary operator. -/
def BinaryOp.lexeme : BinaryOp → Lexeme
  | add => .mark .plus
  | sub => .mark .minus
  | mul => .mark .star
  | div => .mark .slash
  | rem => .mark .percent
  | eq => .mark .eqEq
  | notEq => .mark .notEq
  | lt => .mark .lt
  | ltEq => .mark .ltEq
  | gt => .mark .gt
  | gtEq => .mark .gtEq
  | elem => .name "in"

/-- The token of a logical operator. -/
def LogicalOp.lexeme (sp : Spelling) : LogicalOp → Lexeme
  | and => if sp.wordLogic then .name "and" else .mark .andAnd
  | or => if sp.wordLogic then .name "or" else .mark .orOr

/-- The token of a prefix. -/
def UnaryOp.lexeme (sp : Spelling) : UnaryOp → Lexeme
  | not => if sp.wordNot then .name "not" else .mark .bang
  | neg => .mark .minus

/-- The level of a prefix. -/
def UnaryOp.level (sp : Spelling) : UnaryOp → Level
  | not => if sp.wordNot then .negation else .unary
  | neg => .unary

namespace Expr

/-- The level of an expression. -/
def level (sp : Spelling) : Expr → Level
  | literal _ | name _ | this | list _ | format _ => .primary
  | member .. | index .. | call .. => .access
  | unary op _ => op.level sp
  | binary op .. => op.level
  | logical op .. => op.level
  | cond .. => .conditional

/-- The tokens of an operand at a place that requires a level, in parentheses if it is not held
together so tightly. -/
def placed (required actual : Level) (ls : List Lexeme) : List Lexeme :=
  if actual.rank < required.rank then .mark .openParen :: (ls ++ [.mark .closeParen]) else ls

mutual

/-- The tokens of an expression. -/
def lexemes (sp : Spelling) : Expr → List Lexeme
  | literal l => [l.lexeme]
  | name x => [.name x]
  | this => [.name "this"]
  | member object field =>
    placed .access (object.level sp) (object.lexemes sp) ++ [.mark .dot, .name field]
  | index object key =>
    placed .access (object.level sp) (object.lexemes sp) ++
      .mark .openBracket :: (key.lexemes sp ++ [.mark .closeBracket])
  | call callee args =>
    placed .access (callee.level sp) (callee.lexemes sp) ++
      .mark .openParen :: (lexemesOfList sp args ++ [.mark .closeParen])
  | list items => .mark .openBracket :: (lexemesOfList sp items ++ [.mark .closeBracket])
  | unary op operand =>
    op.lexeme sp :: placed (op.level sp) (operand.level sp) (operand.lexemes sp)
  | binary op left right =>
    placed op.level (left.level sp) (left.lexemes sp) ++
      op.lexeme :: placed op.level.next (right.level sp) (right.lexemes sp)
  | logical op left right =>
    placed op.level (left.level sp) (left.lexemes sp) ++
      op.lexeme sp :: placed op.level.next (right.level sp) (right.lexemes sp)
  | cond condition yes no =>
    placed .disjunction (condition.level sp) (condition.lexemes sp) ++
      .mark .question :: (yes.lexemes sp ++ .mark .colon :: no.lexemes sp)
  | format _ => []

/-- The tokens of expressions with commas between them. -/
def lexemesOfList (sp : Spelling) : List Expr → List Lexeme
  | [] => []
  | [e] => e.lexemes sp
  | e :: es => e.lexemes sp ++ .mark .comma :: lexemesOfList sp es

end

/-- The written form of an expression. -/
def print (sp : Spelling) (e : Expr) : String :=
  " ".intercalate ((e.lexemes sp).map fun l => String.ofList (l.written sp))

/-- What a word stands for that is no name: a literal or `this`. -/
def ofWord? (x : String) : Option Expr :=
  match x with
  | "true" | "True" => some (literal (.bool true))
  | "false" | "False" => some (literal (.bool false))
  | "null" | "None" => some (literal .null)
  | "this" => some this
  | _ => none

mutual

/-- An expression as its written form is read: the words of literals and `this` are no names. -/
def asRead : Expr → Expr
  | literal l => literal l
  | name x => (ofWord? x).getD (name x)
  | this => this
  | member object field => member object.asRead field
  | index object key => index object.asRead key.asRead
  | call callee args => call callee.asRead (asReadList args)
  | list items => list (asReadList items)
  | unary op operand => unary op operand.asRead
  | binary op left right => binary op left.asRead right.asRead
  | logical op left right => logical op left.asRead right.asRead
  | cond condition yes no => cond condition.asRead yes.asRead no.asRead
  | format parts => format parts

/-- Expressions as they are read. -/
def asReadList : List Expr → List Expr
  | [] => []
  | e :: es => e.asRead :: asReadList es

end

/-- Whether a text can stand as a name. -/
def isWord (x : String) : Bool :=
  match x.toList with
  | [] => false
  | c :: cs => Token.isNameStart c && cs.all Token.isNamePart

mutual

/-- An expression that has a written form: without doubles, negative integers and format strings,
and with names that can be read. Every word can name a member. -/
def Writable : Expr → Prop
  | literal (.int i) => 0 ≤ i.toInt
  | literal (.float _) => False
  | literal _ => True
  | name x => isWord x = true ∧ isReserved x = false
  | this => True
  | member object field => object.Writable ∧ isWord field = true
  | index object key => object.Writable ∧ key.Writable
  | call callee args => callee.Writable ∧ WritableList args
  | list items => WritableList items
  | unary _ operand => operand.Writable
  | binary _ left right => left.Writable ∧ right.Writable
  | logical _ left right => left.Writable ∧ right.Writable
  | cond condition yes no => condition.Writable ∧ yes.Writable ∧ no.Writable
  | format _ => False

/-- Expressions that have a written form. -/
def WritableList : List Expr → Prop
  | [] => True
  | e :: es => e.Writable ∧ WritableList es

end

end Expr
end ReactiveView
