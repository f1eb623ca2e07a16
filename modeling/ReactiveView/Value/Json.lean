import ReactiveView.Value.Basic
import ReactiveView.Json.Basic

/-!
# Values on the wire

A value becomes JSON data and JSON data becomes a value. A map gives an object with sorted keys,
callables and numbers that are not finite give `null`, and a node its number. In the other direction
an integer beyond 64 bits with sign becomes a double.
-/

namespace ReactiveView.Value

mutual

/-- The JSON data of a value. -/
def toJson : Value → Json
  | null => .null
  | bool b => .bool b
  | int i => .int i.toInt
  | float x => if Binary64.isFinite x then .float x else .null
  | str s => .str s
  | list items => .array (itemsToJson items)
  | map ⟨entries⟩ => .object (Json.sortMembers (entriesToJson entries))
  | node oid => .int oid.toNat
  | func _ => .null
  | builtin _ => .null
termination_by structural v => v

/-- The JSON data of items. -/
def itemsToJson : List Value → List Json
  | [] => []
  | item :: items => toJson item :: itemsToJson items
termination_by structural items => items

/-- The JSON data of entries. -/
def entriesToJson : List (String × Value) → List (String × Json)
  | [] => []
  | (key, value) :: entries => (key, toJson value) :: entriesToJson entries
termination_by structural entries => entries

end

mutual

/-- The value of JSON data. -/
def ofJson : Json → Value
  | .null => null
  | .bool b => bool b
  | .int i =>
    match int64? i with
    | some n => int n
    | none => float (UInt64.ofNat i.toNat).toFloat
  | .float x => float x
  | .str s => str s
  | .array items => list (itemsOfJson items)
  | .object members => map (OrderedMap.ofList (entriesOfJson members))
termination_by structural j => j

/-- The values of the items of an array. -/
def itemsOfJson : List Json → List Value
  | [] => []
  | item :: items => ofJson item :: itemsOfJson items
termination_by structural items => items

/-- The values of the members of an object. -/
def entriesOfJson : List (String × Json) → List (String × Value)
  | [] => []
  | (key, value) :: members => (key, ofJson value) :: entriesOfJson members
termination_by structural members => members

end

end ReactiveView.Value
