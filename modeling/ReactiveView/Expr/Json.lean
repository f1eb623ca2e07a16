import ReactiveView.Expr.Basic
import ReactiveView.Json.Decode

/-!
# Expressions and statements as JSON

The form in which compiled programs store code: a choice is its name alone, or an object with the
name as its only key; several arguments stand in an array, named ones in an object. The readers
refuse what is nested more deeply than a JSON text may be; a reader of nested code is told that
depth twice, as the depth that is left and as the bound of its own recursion.
-/

namespace ReactiveView

open Decoder (choice record oneOf)

namespace Json

/-- A choice with content. -/
def tagged (name : String) (content : Json) : Json := .object [(name, content)]

/-- Texts. -/
def texts (xs : List String) : Json := .array (xs.map .str)

/-- A natural number. -/
def ofNat (n : Nat) : Json := .int n

end Json

namespace Decoder

variable {α β γ : Type}

/-- An array of three. -/
def triple (a : Decoder α) (b : Decoder β) (c : Decoder γ) : Decoder (α × β × γ)
  | depth, .array [x, y, z] => do
    let depth ← enter depth
    return (← a depth x, ← b depth y, ← c depth z)
  | _, _ => none

/-- A reader of nested data: `step` reads one level, given a reader of what is nested in it. The
number of levels is bounded by the depth that is left. -/
def nested (step : Decoder α → Decoder α) : Decoder α :=
  let rec go : (levels : Nat) → Decoder α
    | 0 => fun _ _ => none
    | levels + 1 => step (go levels)
  fun depth doc => go depth depth doc

end Decoder

/-! ## Literals and operators -/

/-- A literal. -/
def Literal.toJson : Literal → Json
  | null => .str "Null"
  | bool b => .tagged "Bool" (.bool b)
  | int i => .tagged "Int" (.int i.toInt)
  | float x => .tagged "Float" (.float x)
  | str s => .tagged "Str" (.str s)

/-- Read a literal. -/
def Literal.decoder : Decoder Literal := choice fun c =>
  match c.name with
  | "Null" => c.unit .null
  | "Bool" => (c.carrying .bool).map .bool
  | "Int" => (c.carrying .int64).map .int
  | "Float" => (c.carrying .float).map .float
  | "Str" => (c.carrying .text).map .str
  | _ => none

/-- The name of an operator. -/
def UnaryOp.name : UnaryOp → String
  | not => "Not"
  | neg => "Neg"

/-- Read an operator. -/
def UnaryOp.decoder : Decoder UnaryOp := oneOf ([not, neg].map fun op => (op.name, op))

/-- The name of an operator. -/
def BinaryOp.name : BinaryOp → String
  | add => "Add"
  | sub => "Sub"
  | mul => "Mul"
  | div => "Div"
  | rem => "Rem"
  | eq => "Eq"
  | notEq => "NotEq"
  | lt => "Lt"
  | ltEq => "LtEq"
  | gt => "Gt"
  | gtEq => "GtEq"
  | elem => "In"

/-- Read an operator. -/
def BinaryOp.decoder : Decoder BinaryOp := oneOf (all.map fun op => (op.name, op))

/-- The name of an operator. -/
def LogicalOp.name : LogicalOp → String
  | and => "And"
  | or => "Or"

/-- Read an operator. -/
def LogicalOp.decoder : Decoder LogicalOp := oneOf ([and, or].map fun op => (op.name, op))

/-- The name of a way to assign. -/
def AssignOp.name : AssignOp → String
  | set => "Set"
  | add => "Add"
  | sub => "Sub"

/-- Read a way to assign. -/
def AssignOp.decoder : Decoder AssignOp := oneOf ([set, add, sub].map fun op => (op.name, op))

/-! ## Expressions -/

namespace Expr

mutual

/-- An expression. -/
def toJson : Expr → Json
  | literal l => .tagged "Literal" l.toJson
  | name x => .tagged "Ident" (.str x)
  | this => .str "This"
  | member object field => .tagged "Member" (.array [object.toJson, .str field])
  | index object key => .tagged "Index" (.array [object.toJson, key.toJson])
  | call callee args => .tagged "Call" (.array [callee.toJson, .array (listToJson args)])
  | list items => .tagged "List" (.array (listToJson items))
  | unary op operand => .tagged "Unary" (.array [.str op.name, operand.toJson])
  | binary op left right => .tagged "Binary" (.array [.str op.name, left.toJson, right.toJson])
  | logical op left right => .tagged "Logical" (.array [.str op.name, left.toJson, right.toJson])
  | cond condition yes no =>
    .tagged "Conditional" (.array [condition.toJson, yes.toJson, no.toJson])
  | format parts => .tagged "Format" (.array (partsToJson parts))

/-- Expressions. -/
def listToJson : List Expr → List Json
  | [] => []
  | e :: es => e.toJson :: listToJson es

/-- The parts of a format string. -/
def partsToJson : List FormatPart → List Json
  | [] => []
  | .text s :: parts => .tagged "Lit" (.str s) :: partsToJson parts
  | .expr e :: parts => .tagged "Expr" e.toJson :: partsToJson parts

end

/-- Read a part of a format string. -/
def partDecoder (expr : Decoder Expr) : Decoder FormatPart := choice fun c =>
  match c.name with
  | "Lit" => (c.carrying .text).map .text
  | "Expr" => (c.carrying expr).map .expr
  | _ => none

/-- Read one level of an expression. -/
def decodeLevel (expr : Decoder Expr) : Decoder Expr := choice fun c =>
  match c.name with
  | "Literal" => (c.carrying Literal.decoder).map .literal
  | "Ident" => (c.carrying .text).map .name
  | "This" => c.unit .this
  | "Member" => (c.carrying (.pair expr .text)).map fun (e, x) => .member e x
  | "Index" => (c.carrying (.pair expr expr)).map fun (e, k) => .index e k
  | "Call" => (c.carrying (.pair expr (.list expr))).map fun (f, args) => .call f args
  | "List" => (c.carrying (.list expr)).map .list
  | "Unary" => (c.carrying (.pair UnaryOp.decoder expr)).map fun (op, e) => .unary op e
  | "Binary" =>
    (c.carrying (.triple BinaryOp.decoder expr expr)).map fun (op, l, r) => .binary op l r
  | "Logical" =>
    (c.carrying (.triple LogicalOp.decoder expr expr)).map fun (op, l, r) => .logical op l r
  | "Conditional" => (c.carrying (.triple expr expr expr)).map fun (c, a, b) => .cond c a b
  | "Format" => (c.carrying (.list (partDecoder expr))).map .format
  | _ => none

/-- Read an expression. -/
def decoder : Decoder Expr := .nested decodeLevel

end Expr

namespace DynamicExpr

/-- A dynamic expression. -/
def toJson (e : DynamicExpr) : Json :=
  .object [("expr", e.expr.toJson), ("reactive", .bool e.reactive),
    ("free_vars", .texts e.freeVars), ("source", .str e.source)]

/-- Read a dynamic expression. -/
def decoder : Decoder DynamicExpr :=
  record ["expr", "reactive", "free_vars", "source"] fun f => do
    return ⟨← f.required "expr" Expr.decoder, ← f.required "reactive" .bool,
      ← f.required "free_vars" (.list .text), ← f.required "source" .text⟩

end DynamicExpr

/-! ## Statements -/

namespace Stmt

mutual

/-- A statement. -/
def toJson : Stmt → Json
  | assign line target op value =>
    .tagged "Assign" (.object [("target", .str target), ("op", .str op.name),
      ("value", value.toJson), ("line", .ofNat line)])
  | function line name params body =>
    .tagged "Function" (.object [("name", .str name), ("params", .texts params),
      ("body", .array (listToJson body)), ("line", .ofNat line)])
  | branch line condition yes no =>
    .tagged "If" (.object [("cond", condition.toJson), ("then", .array (listToJson yes)),
      ("otherwise", .array (listToJson no)), ("line", .ofNat line)])
  | loop line var iterable body =>
    .tagged "For" (.object [("var", .str var), ("iter", iterable.toJson),
      ("body", .array (listToJson body)), ("line", .ofNat line)])
  | ret line value =>
    .tagged "Return" (.object [("value", .ofOption Expr.toJson value), ("line", .ofNat line)])
  | expr line value => .tagged "Expr" (.object [("expr", value.toJson), ("line", .ofNat line)])

/-- Statements. -/
def listToJson : List Stmt → List Json
  | [] => []
  | s :: ss => s.toJson :: listToJson ss

end

/-- Read the number of a line. -/
def lineDecoder : Decoder Nat := .word UInt32.size

/-- Read one level of a statement. -/
def decodeLevel (stmt : Decoder Stmt) : Decoder Stmt := choice fun c =>
  match c.name with
  | "Assign" => c.carrying <| record ["target", "op", "value", "line"] fun f => do
    let target ← f.required "target" .text
    let op ← f.required "op" AssignOp.decoder
    let value ← f.required "value" Expr.decoder
    return .assign (← f.required "line" lineDecoder) target op value
  | "Function" => c.carrying <| record ["name", "params", "body", "line"] fun f => do
    let name ← f.required "name" .text
    let params ← f.required "params" (.list .text)
    let body ← f.required "body" (.list stmt)
    return .function (← f.required "line" lineDecoder) name params body
  | "If" => c.carrying <| record ["cond", "then", "otherwise", "line"] fun f => do
    let condition ← f.required "cond" Expr.decoder
    let yes ← f.required "then" (.list stmt)
    let no ← f.required "otherwise" (.list stmt)
    return .branch (← f.required "line" lineDecoder) condition yes no
  | "For" => c.carrying <| record ["var", "iter", "body", "line"] fun f => do
    let var ← f.required "var" .text
    let iterable ← f.required "iter" Expr.decoder
    let body ← f.required "body" (.list stmt)
    return .loop (← f.required "line" lineDecoder) var iterable body
  | "Return" => c.carrying <| record ["value", "line"] fun f => do
    let value ← f.optional "value" Expr.decoder
    return .ret (← f.required "line" lineDecoder) value
  | "Expr" => c.carrying <| record ["expr", "line"] fun f => do
    let value ← f.required "expr" Expr.decoder
    return .expr (← f.required "line" lineDecoder) value
  | _ => none

/-- Read a statement. -/
def decoder : Decoder Stmt := .nested decodeLevel

end Stmt
end ReactiveView
