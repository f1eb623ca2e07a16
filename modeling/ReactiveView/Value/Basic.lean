import ReactiveView.Expr.Basic
import ReactiveView.OrderedMap

/-!
# Values

What expressions evaluate to: null, truth values, 64-bit integers, doubles, texts, lists, maps from
text in insertion order, references to rendered nodes, functions of code blocks, and the names of
built-in functions.

`Value.same` is equality as the language has it: an integer equals a double of the same magnitude,
NaN equals nothing, and maps are compared without regard to order. A function equals only itself;
its serial number, given when its definition was executed, stands for its identity. `Value.display`
is the text in attributes and text nodes, where null is empty, and `Value.toText` the text inside a
list or a map.
-/

namespace ReactiveView

/-- The greatest length of a list or a text that a single operation may produce. -/
def maxSequence : Nat := 1048576

/-- A function defined by a code block. -/
structure Function where
  /-- Tells functions apart: no two executions of a definition give the same number. -/
  serial : Nat
  /-- The name it was defined under. -/
  name : String
  /-- Its parameters. -/
  params : List String
  /-- Its statements. -/
  body : List Stmt
  /-- The template line on which its code block begins, zero when unknown. -/
  lineOffset : Nat

/-- A value. -/
inductive Value where
  /-- The absent value. -/
  | null
  /-- A truth value. -/
  | bool (b : Bool)
  /-- An integer of 64 bits. -/
  | int (i : Int64)
  /-- A double. -/
  | float (x : Float)
  /-- A text. -/
  | str (s : String)
  /-- A list. -/
  | list (items : List Value)
  /-- A map from texts, in insertion order. -/
  | map (entries : OrderedMap String Value)
  /-- A reference to a rendered node. -/
  | node (oid : UInt64)
  /-- A function of a code block. -/
  | func (f : Function)
  /-- A built-in function or an intrinsic of the host, by name. -/
  | builtin (name : String)

instance : Inhabited Value := ⟨.null⟩

/-- The value of a literal. -/
def Literal.value : Literal → Value
  | null => .null
  | bool b => .bool b
  | int i => .int i
  | float x => .float x
  | str s => .str s

namespace Value

/-- The name of the kind of a value, in messages. -/
def typeName : Value → String
  | null => "null"
  | bool _ => "bool"
  | int _ => "int"
  | float _ => "float"
  | str _ => "str"
  | list _ => "list"
  | map _ => "map"
  | node _ => "node"
  | func _ => "function"
  | builtin _ => "function"

/-- Whether a condition with this value holds. -/
def truthy : Value → Bool
  | null => false
  | bool b => b
  | int i => i != 0
  | float x => x != 0.0
  | str s => !s.isEmpty
  | list items => !items.isEmpty
  | map entries => !entries.isEmpty
  | node _ => true
  | func _ => true
  | builtin _ => true

/-- Whether the value is null. -/
def isNull : Value → Bool
  | null => true
  | _ => false

/-- Whether the value can be called. -/
def isCallable : Value → Bool
  | func _ => true
  | builtin _ => true
  | _ => false

/-- The text of a text value. -/
def asText? : Value → Option String
  | str s => some s
  | _ => none

/-- The number of the node that a value refers to. -/
def asNode? : Value → Option UInt64
  | node oid => some oid
  | _ => none

/-! ## Equality -/

mutual

/-- Equality of values. -/
def same : Value → Value → Bool
  | null, null => true
  | bool a, bool b => a == b
  | int a, int b => a == b
  | float a, float b => a == b
  | int a, float b => a.toFloat == b
  | float a, int b => b.toFloat == a
  | str a, str b => a == b
  | list a, list b => sameItems a b
  | map ⟨a⟩, map b => a.length == b.size && sameEntries a b
  | node a, node b => a == b
  | func a, func b => a.serial == b.serial
  | builtin a, builtin b => a == b
  | _, _ => false
termination_by structural a => a

/-- Equality item by item. -/
def sameItems : List Value → List Value → Bool
  | [], [] => true
  | a :: as, b :: bs => same a b && sameItems as bs
  | _, _ => false
termination_by structural as => as

/-- Whether every entry has an equal one of the same key in the other map. -/
def sameEntries : List (String × Value) → OrderedMap String Value → Bool
  | [], _ => true
  | (key, a) :: rest, other =>
    (match other.get? key with
      | some b => same a b
      | none => false) && sameEntries rest other
termination_by structural entries => entries

end

/-! ## Text -/

mutual

/-- Write the text of a value behind `out`. -/
def write (out : String) : Value → String
  | null => out ++ "null"
  | bool true => out ++ "true"
  | bool false => out ++ "false"
  | int i => out ++ displayInt i
  | float x => out ++ displayFloat x
  | str s => out ++ s
  | list items => writeItems (out ++ "[") "" items ++ "]"
  | map ⟨entries⟩ => writeEntries (out ++ "\x7b") "" entries ++ "\x7d"
  | node oid => out ++ "<node " ++ toString oid.toNat ++ ">"
  | func f => out ++ "<fn " ++ f.name ++ ">"
  | builtin name => out ++ "<builtin " ++ name ++ ">"
termination_by structural v => v

/-- Write items with commas between them; `sep` stands before the first. -/
def writeItems (out sep : String) : List Value → String
  | [] => out
  | item :: items => writeItems (write (out ++ sep) item) ", " items
termination_by structural items => items

/-- Write entries with commas between them; `sep` stands before the first. -/
def writeEntries (out sep : String) : List (String × Value) → String
  | [] => out
  | (key, value) :: entries =>
    writeEntries (write (out ++ sep ++ key ++ ": ") value) ", " entries
termination_by structural entries => entries

end

/-- The text of a value with null spelled out. -/
def toText (v : Value) : String := write "" v

/-- The text of a value in attributes, text nodes and format strings. -/
def display : Value → String
  | null => ""
  | str s => s
  | v => v.toText

/-! ## Iteration -/

/-- The characters of a text as texts. -/
def characters (s : String) : List Value := s.toList.map fun c => str c.toString

/-- The items of a value that can be iterated: nothing for null, the keys of a map, the characters
of a text, and the numbers below an integer that is not too large. -/
def items? : Value → Option (List Value)
  | null => some []
  | list items => some items
  | map entries => some (entries.keys.map str)
  | str s => some (characters s)
  | int n =>
    if n.toInt ≤ maxSequence then
      some ((List.range n.toInt.toNat).map fun i => int (Int64.ofNat i))
    else none
  | _ => none

end Value
end ReactiveView
