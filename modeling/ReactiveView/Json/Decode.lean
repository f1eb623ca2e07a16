import ReactiveView.Json.Document

/-!
# Readers of JSON data

A `Decoder α` reads a document as an `α`. It is told how many more arrays and objects may be entered
(`depthLimit` at the outset), which bounds the nesting of everything that is read, and which makes
readers of recursive data structural.

A record is read from an object, whose unknown members are ignored and whose known ones may not be
repeated, or from an array of its fields in order. A choice is read from its name alone, or from an
object with one member, whose key is the name and whose value is the content; that object counts as
a level of nesting of its own.
-/

namespace ReactiveView

/-- A reader of documents that may still enter a number of arrays and objects. -/
abbrev Decoder (α : Type) := (depth : Nat) → Document → Option α

namespace Decoder

variable {α β : Type}

/-- The nesting at which a text is refused. -/
def depthLimit : Nat := 128

/-- Enter an array or an object: the depth that is left, if any is. -/
def enter : (depth : Nat) → Option Nat
  | 0 => none
  | 1 => none
  | depth + 1 => some depth

/-- Read a whole text. -/
def run (d : Decoder α) (text : String) : Option α := do
  d depthLimit (← Document.parse? text)

/-- Read, then convert. -/
def map (f : α → β) (d : Decoder α) : Decoder β := fun depth doc => (d depth doc).map f

/-- Read, then convert where that is possible. -/
def filterMap (f : α → Option β) (d : Decoder α) : Decoder β := fun depth doc =>
  (d depth doc).bind f

/-! ## Leaves -/

/-- A truth value. -/
def bool : Decoder Bool
  | _, .bool b => some b
  | _, _ => none

/-- A text. -/
def text : Decoder String
  | _, .text gs => Document.textOf? gs
  | _, _ => none

/-- An integer in a range. -/
def integer (low high : Int) : Decoder Int
  | _, .number n =>
    match n.value? with
    | some (.int i) => if low ≤ i ∧ i ≤ high then some i else none
    | _ => none
  | _, _ => none

/-- A natural number below `size`. -/
def word (size : Nat) : Decoder Nat := map Int.toNat (integer 0 (size - 1))

/-- An integer of 64 bits. -/
def int64 : Decoder Int64 := map Int64.ofInt (integer Int64.minValue.toInt Int64.maxValue.toInt)

/-- A number as a double. -/
def float : Decoder Float
  | _, .number n => n.value?.map fun
    | .int i => if i < 0 then (Int64.ofInt i).toFloat else (UInt64.ofNat i.toNat).toFloat
    | .float x => x
  | _, _ => none

/-- `null` for nothing. -/
def nullable (d : Decoder α) : Decoder (Option α)
  | _, .null => some none
  | depth, doc => (d depth doc).map some

/-! ## Sequences and tables -/

/-- The items of an array. -/
def list (d : Decoder α) : Decoder (List α)
  | depth, .array items => do
    let depth ← enter depth
    items.mapM (d depth)
  | _, _ => none

/-- An array of two. -/
def pair (a : Decoder α) (b : Decoder β) : Decoder (α × β)
  | depth, .array [x, y] => do
    let depth ← enter depth
    return (← a depth x, ← b depth y)
  | _, _ => none

/-- The members of an object in order, repeated keys included. -/
def table (d : Decoder α) : Decoder (List (String × α))
  | depth, .object members => do
    let depth ← enter depth
    members.mapM fun (key, doc) => do return (← Document.textOf? key, ← d depth doc)
  | _, _ => none

/-! ## Records -/

/-- The fields of a record that is being read. -/
structure Fields where
  /-- The depth that is left for the fields. -/
  depth : Nat
  /-- Whether the fields stand in an array. -/
  positional : Bool
  /-- The documents of the known fields that are present. -/
  present : List (String × Document)

/-- The members with a known name; `none` if a key is not a text or a known one is repeated. -/
def knownMembers (names : List String) :
    List (List Glyph × Document) → Option (List (String × Document))
  | [] => some []
  | (key, doc) :: rest => do
    let key ← Document.textOf? key
    let known ← knownMembers names rest
    if names.contains key then
      if known.any (·.1 == key) then none else some ((key, doc) :: known)
    else some known

/-- The fields of a record with the given names. -/
def fields (names : List String) : Decoder Fields
  | depth, .object members => do
    let depth ← enter depth
    return ⟨depth, false, ← knownMembers names members⟩
  | depth, .array items => do
    let depth ← enter depth
    if items.length ≤ names.length then some ⟨depth, true, names.zip items⟩ else none
  | _, _ => none

/-- A record with the given field names. -/
def record (names : List String) (read : Fields → Option α) : Decoder α := fun depth doc =>
  (fields names depth doc).bind read

namespace Fields

/-- The document of a field. -/
def find? (f : Fields) (name : String) : Option Document :=
  (f.present.find? (·.1 == name)).map (·.2)

/-- A field that has to be there. -/
def required (f : Fields) (name : String) (d : Decoder α) : Option α := do
  d f.depth (← f.find? name)

/-- A field with a value for its absence. -/
def withDefault (f : Fields) (name : String) (default : α) (d : Decoder α) : Option α :=
  match f.find? name with
  | none => some default
  | some doc => d f.depth doc

/-- A field that may be missing from an object, though not from an array, or be `null`. -/
def optional (f : Fields) (name : String) (d : Decoder α) : Option (Option α) :=
  match f.find? name with
  | none => if f.positional then none else some none
  | some doc => nullable d f.depth doc

end Fields

/-! ## Choices -/

/-- A choice that is being read: its name, and its content unless the name stands alone. -/
structure Choice where
  /-- The name of the variant. -/
  name : String
  /-- The depth that is left for the content. -/
  depth : Nat
  /-- The content. -/
  content : Option Document

/-- A choice. -/
def choice (read : Choice → Option α) : Decoder α
  | depth, .text gs => do read ⟨← Document.textOf? gs, depth, none⟩
  | depth, .object [(key, doc)] => do
    let depth ← enter depth
    read ⟨← Document.textOf? key, depth, some doc⟩
  | _, _ => none

namespace Choice

/-- A variant without content. -/
def unit (c : Choice) (a : α) : Option α :=
  match c.content with
  | none => some a
  | some .null => some a
  | some _ => none

/-- A variant with content. -/
def carrying (c : Choice) (d : Decoder α) : Option α := do d c.depth (← c.content)

end Choice

/-- A choice among names without content. -/
def oneOf (variants : List (String × α)) : Decoder α := choice fun c => do
  let (_, a) ← variants.find? (·.1 == c.name)
  c.unit a

/-! ## Any data -/

mutual

/-- Any document as data; the members of objects are sorted, and the last of a repeated key
wins. -/
def jsonIn : (depth : Nat) → Document → Option Json
  | _, .null => some .null
  | _, .bool b => some (.bool b)
  | _, .number n => n.value?.map fun
    | .int i => .int i
    | .float x => .float x
  | _, .text gs => (Document.textOf? gs).map .str
  | depth, .array items => do
    let depth ← enter depth
    return .array (← jsonItems depth items)
  | depth, .object members => do
    let depth ← enter depth
    return .object (Json.sortMembers (← jsonMembers depth members))
termination_by structural _ doc => doc

/-- The items of an array. -/
def jsonItems : (depth : Nat) → List Document → Option (List Json)
  | _, [] => some []
  | depth, doc :: docs => do
    return (← jsonIn depth doc) :: (← jsonItems depth docs)
termination_by structural _ docs => docs

/-- The members of an object, in the order in which they stand. -/
def jsonMembers : (depth : Nat) → List (List Glyph × Document) → Option (List (String × Json))
  | _, [] => some []
  | depth, (key, doc) :: rest => do
    return (← Document.textOf? key, ← jsonIn depth doc) :: (← jsonMembers depth rest)
termination_by structural _ members => members

end

/-- Any data. -/
def json : Decoder Json := jsonIn

/-! ## Tagged records -/

/-- Nothing but ignored members, or an empty array. -/
def nothing : Decoder Unit
  | _, .object _ => some ()
  | _, .array [] => some ()
  | _, _ => none

/-- The members without the one under `tag`, and its value; there has to be exactly one. -/
def takeMember (tag : String) :
    List (List Glyph × Document) → Option (Option Document × List (List Glyph × Document))
  | [] => some (none, [])
  | (key, doc) :: rest => do
    let (found, others) ← takeMember tag rest
    if (← Document.textOf? key) = tag then
      if found.isSome then none else some (some doc, others)
    else some (found, (key, doc) :: others)

/-- A record whose kind is named by the member `tag`, or by the first item of an array; `read` reads
what else there is of that kind. Nothing in such a record may be malformed, the members that no
reader asks for included. -/
def tagged (tag : String) (read : String → Decoder α) : Decoder α := fun depth doc => do
  let _ ← json depth doc
  match doc with
  | .object members =>
    match ← takeMember tag members with
    | (some kind, others) => read (← text depth kind) depthLimit (.object others)
    | (none, _) => none
  | .array (kind :: items) => read (← text depth kind) depthLimit (.array items)
  | _ => none

end Decoder
end ReactiveView
