import ReactiveView.Number.Text
import ReactiveView.Text.Quoted

/-!
# JSON

`Json` is the data of a JSON text; an object keeps its members in the order in which they are
written. `Json.render` is the compact text: no blanks, floats in the form `FloatFormat.wire`, a
number that is not finite as `null`, and in strings a short escape where there is one and `\u00xx`
for the other controls.
-/

namespace ReactiveView

/-- The data of a JSON text. -/
inductive Json where
  /-- The empty value. -/
  | null
  /-- A truth value. -/
  | bool (b : Bool)
  /-- A number written as an integer. -/
  | int (i : Int)
  /-- Any other number. -/
  | float (x : Float)
  /-- A text. -/
  | str (s : String)
  /-- A sequence of values. -/
  | array (items : List Json)
  /-- Members in order. -/
  | object (members : List (String × Json))

namespace Json

instance : Inhabited Json := ⟨null⟩

/-- How one character of a text is written. -/
def escapeChar (c : Char) : List Char :=
  if c = '"' then ['\\', '"']
  else if c = '\\' then ['\\', '\\']
  else if c = '\n' then ['\\', 'n']
  else if c = '\r' then ['\\', 'r']
  else if c = '\t' then ['\\', 't']
  else if c = '\x08' then ['\\', 'b']
  else if c = '\x0c' then ['\\', 'f']
  else if c.toNat < 0x10 then ['\\', 'u', '0', '0', '0'] ++ Text.hexDigits c.toNat
  else if c.toNat < 0x20 then ['\\', 'u', '0', '0'] ++ Text.hexDigits c.toNat
  else [c]

/-- A text with its quotes. -/
def renderText (s : String) : String :=
  String.ofList ('"' :: (s.toList.flatMap escapeChar ++ ['"']))

/-- A number that is not written as an integer. -/
def renderFloat (x : Float) : String :=
  match Binary64.decode x with
  | some v => FloatFormat.wire.render v
  | none => "null"

mutual

/-- The compact text of a value. -/
def render : Json → String
  | null => "null"
  | bool true => "true"
  | bool false => "false"
  | int i => toString i
  | float x => renderFloat x
  | str s => renderText s
  | array items => "[" ++ String.intercalate "," (renderItems items) ++ "]"
  | object members => "\x7b" ++ String.intercalate "," (renderMembers members) ++ "\x7d"

/-- The texts of the items of an array. -/
def renderItems : List Json → List String
  | [] => []
  | item :: items => render item :: renderItems items

/-- The texts of the members of an object. -/
def renderMembers : List (String × Json) → List String
  | [] => []
  | (key, value) :: members => (renderText key ++ ":" ++ render value) :: renderMembers members

end

/-- Put a member into a list that is sorted by key; a present key gets the new value. -/
def insertMember {α : Type} (key : String) (value : α) : List (String × α) → List (String × α)
  | [] => [(key, value)]
  | (k, v) :: rest =>
    if key = k then (key, value) :: rest
    else if key < k then (key, value) :: (k, v) :: rest
    else (k, v) :: insertMember key value rest

/-- Members sorted by key, the last of a repeated key winning. -/
def sortMembers {α : Type} (members : List (String × α)) : List (String × α) :=
  members.foldl (fun acc m => insertMember m.1 m.2 acc) []

/-- The members of an object, and no member of anything else. -/
def members : Json → List (String × Json)
  | object ms => ms
  | _ => []

/-- The items of an array, and no item of anything else. -/
def items : Json → List Json
  | array xs => xs
  | _ => []

/-- The value of a member. -/
def get? (j : Json) (key : String) : Option Json :=
  (j.members.find? fun m => m.1 = key).map (·.2)

/-- A value, or `null` where there is none. -/
def ofOption {α : Type} (f : α → Json) : Option α → Json
  | some a => f a
  | none => null

end Json
end ReactiveView
