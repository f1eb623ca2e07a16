import ReactiveView.Number.Text
import ReactiveView.OrderedSet

/-!
# Expressions and statements

The embedded language of a template. Expressions are literals, names, member and index access,
calls, lists, arithmetic, comparison, logic, conditionals and format strings; code blocks add
assignment, function definitions, branches, loops and `return`. A `DynamicExpr` is an expression
attached to a place in a template, with what is known about it statically: the names it reads
(`Expr.freeVars`), and whether those reads are recorded for reactive updates.
-/

namespace ReactiveView

/-- A literal. -/
inductive Literal where
  /-- The absent value. -/
  | null
  /-- A truth value. -/
  | bool (b : Bool)
  /-- An integer of 64 bits. -/
  | int (i : Int64)
  /-- A double. -/
  | float (x : Float)
  /-- A text. -/
  | str (s : String)

/-- The operators of one operand. -/
inductive UnaryOp where
  /-- The negation of truth. -/
  | not
  /-- The negation of numbers. -/
  | neg
deriving DecidableEq

/-- The operators of two operands that are both evaluated. -/
inductive BinaryOp where
  /-- Sum, or concatenation. -/
  | add
  /-- Difference. -/
  | sub
  /-- Product, or repetition. -/
  | mul
  /-- Quotient. -/
  | div
  /-- Remainder. -/
  | rem
  /-- Equality. -/
  | eq
  /-- Inequality. -/
  | notEq
  /-- Strictly less. -/
  | lt
  /-- At most. -/
  | ltEq
  /-- Strictly greater. -/
  | gt
  /-- At least. -/
  | gtEq
  /-- Membership. -/
  | elem
deriving DecidableEq

/-- How an operator is written. -/
def BinaryOp.symbol : BinaryOp → String
  | add => "+"
  | sub => "-"
  | mul => "*"
  | div => "/"
  | rem => "%"
  | eq => "=="
  | notEq => "!="
  | lt => "<"
  | ltEq => "<="
  | gt => ">"
  | gtEq => ">="
  | elem => "in"

/-- All binary operators. -/
def BinaryOp.all : List BinaryOp :=
  [add, sub, mul, div, rem, eq, notEq, lt, ltEq, gt, gtEq, elem]

/-- The operators that evaluate their second operand only when the first does not decide. -/
inductive LogicalOp where
  /-- The first operand if it is false in truth, else the second. -/
  | and
  /-- The first operand if it is true in truth, else the second. -/
  | or
deriving DecidableEq

mutual

/-- An expression. -/
inductive Expr where
  /-- A literal. -/
  | literal (value : Literal)
  /-- A name of the environment. -/
  | name (x : String)
  /-- The node or scope in whose code the expression stands. -/
  | this
  /-- A member of an object. -/
  | member (object : Expr) (field : String)
  /-- An item of a list or a map, or a character of a text. -/
  | index (object : Expr) (key : Expr)
  /-- A call. -/
  | call (callee : Expr) (args : List Expr)
  /-- A list of values. -/
  | list (items : List Expr)
  /-- An operator of one operand. -/
  | unary (op : UnaryOp) (operand : Expr)
  /-- An operator of two operands. -/
  | binary (op : BinaryOp) (left right : Expr)
  /-- A logical operator. -/
  | logical (op : LogicalOp) (left right : Expr)
  /-- `condition ? yes : no`. -/
  | cond (condition yes no : Expr)
  /-- A text with substitutions. -/
  | format (parts : List FormatPart)

/-- A piece of a text with substitutions. -/
inductive FormatPart where
  /-- Text as it stands. -/
  | text (s : String)
  /-- The display text of a value. -/
  | expr (e : Expr)

end

instance : Inhabited Expr := ⟨.literal .null⟩

namespace Expr

/-- A text literal. -/
def str (s : String) : Expr := literal (.str s)

mutual

/-- The names that an expression reads, in the order in which they stand. -/
def names : Expr → List String
  | literal _ => []
  | name x => [x]
  | this => []
  | member object _ => object.names
  | index object key => object.names ++ key.names
  | call callee args => callee.names ++ namesOfList args
  | list items => namesOfList items
  | unary _ operand => operand.names
  | binary _ left right => left.names ++ right.names
  | logical _ left right => left.names ++ right.names
  | cond condition yes no => condition.names ++ yes.names ++ no.names
  | format parts => namesOfParts parts

/-- The names that a list of expressions reads. -/
def namesOfList : List Expr → List String
  | [] => []
  | e :: es => e.names ++ namesOfList es

/-- The names that the substitutions of a format string read. -/
def namesOfParts : List FormatPart → List String
  | [] => []
  | .text _ :: parts => namesOfParts parts
  | .expr e :: parts => e.names ++ namesOfParts parts

end

/-- The names that an expression reads, each once, in the order of their first occurrence. -/
def freeVars (e : Expr) : List String := (OrderedSet.ofList e.names).toList

end Expr

/-- An expression attached to a place in a template. -/
structure DynamicExpr where
  /-- The expression. -/
  expr : Expr
  /-- Whether its reads are recorded for reactive updates. -/
  reactive : Bool
  /-- The names that it reads. -/
  freeVars : List String
  /-- Its source text, for diagnostics and listings. -/
  source : String

instance : Inhabited DynamicExpr := ⟨⟨default, false, [], ""⟩⟩

/-- The dynamic expression of an expression and its source text. -/
def DynamicExpr.of (expr : Expr) (reactive : Bool) (source : String) : DynamicExpr :=
  ⟨expr, reactive, expr.freeVars, source⟩

/-- How an assignment combines the new value with the old one. -/
inductive AssignOp where
  /-- The new value replaces the old one. -/
  | set
  /-- The sum of both. -/
  | add
  /-- The old value less the new one. -/
  | sub
deriving DecidableEq

/-- How an assignment is written. -/
def AssignOp.symbol : AssignOp → String
  | set => "="
  | add => "+="
  | sub => "-="

/-- A statement of a code block; `line` counts from the first line of the block. -/
inductive Stmt where
  /-- An assignment. -/
  | assign (line : Nat) (target : String) (op : AssignOp) (value : Expr)
  /-- A function definition. -/
  | function (line : Nat) (name : String) (params : List String) (body : List Stmt)
  /-- A branch. -/
  | branch (line : Nat) (condition : Expr) (yes no : List Stmt)
  /-- A loop over the items of a value. -/
  | loop (line : Nat) (var : String) (iterable : Expr) (body : List Stmt)
  /-- The end of a function call, or of the block. -/
  | ret (line : Nat) (value : Option Expr)
  /-- An expression evaluated for its effects. -/
  | expr (line : Nat) (value : Expr)

/-- The line on which a statement begins. -/
def Stmt.line : Stmt → Nat
  | assign line .. => line
  | function line .. => line
  | branch line .. => line
  | loop line .. => line
  | ret line _ => line
  | expr line _ => line

end ReactiveView
