import ReactiveView.OrderedMap
import ReactiveView.OrderedSet
import ReactiveView.Value.Basic

/-!
# The state of elements

Everything that an element shows is gathered in an `ElementState`, which is computed from the
actions of its attributes and compared before and after an update. Edits that code makes to
attributes and styles are kept apart, in an `ElementOverlay`, and are applied over the state each
time it is computed.
-/

namespace ReactiveView

/-- What an element shows. -/
structure ElementState where
  /-- The attributes. -/
  attrs : OrderedMap String String := .empty
  /-- The classes of the `class` attribute. -/
  classes : List String := []
  /-- The classes that are switched, in the order of the attributes. -/
  switches : OrderedMap String Bool := .empty
  /-- The classes that code has added. -/
  extraClasses : List String := []
  /-- The style properties. -/
  style : OrderedMap String String := .empty
  /-- The text. -/
  text : Option String := none
  /-- Attached data. -/
  data : OrderedMap String Value := .empty
  /-- The value of a control. -/
  value : Option Value := none
  /-- The type of that value. -/
  valueType : Option String := none
  /-- Whether texts are localized by the consumer. -/
  localize : Bool := false
  /-- Whether the element asks for the focus. -/
  focus : Bool := false

namespace ElementState

/-- The classes that are switched on. -/
def enabled (s : ElementState) : List String :=
  s.switches.entries.filterMap fun (name, on) => if on then some name else none

/-- The classes in effect: those of the attribute, those switched on and those added, each once. -/
def classList (s : ElementState) : List String :=
  (OrderedSet.ofList (s.classes ++ s.enabled ++ s.extraClasses)).toList

/-- Whether two values are both absent or equal. -/
def sameValue : Option Value → Option Value → Bool
  | none, none => true
  | some a, some b => a.same b
  | _, _ => false

/-- Equality of states; the order of attributes, switches, properties and data does not matter. -/
def same (a b : ElementState) : Bool :=
  a.attrs.sameBy (· == ·) b.attrs && a.classes == b.classes &&
    a.switches.sameBy (· == ·) b.switches && a.extraClasses == b.extraClasses &&
    a.style.sameBy (· == ·) b.style && a.text == b.text && a.data.sameBy Value.same b.data &&
    sameValue a.value b.value && a.valueType == b.valueType && a.localize == b.localize &&
    a.focus == b.focus

end ElementState

/-- Edits made by code: a text for what is set, nothing for what is removed. -/
structure ElementOverlay where
  /-- The attributes. -/
  attrs : OrderedMap String (Option String) := .empty
  /-- The style properties. -/
  style : OrderedMap String (Option String) := .empty
  /-- Whether the focus was asked for. -/
  focus : Bool := false

namespace ElementOverlay

/-- Apply one edit to a table. -/
def edit (table : OrderedMap String String) (change : String × Option String) :
    OrderedMap String String :=
  match change with
  | (key, some text) => table.insert key text
  | (key, none) => table.erase key

/-- Apply the edits to a state. -/
def apply (o : ElementOverlay) (s : ElementState) : ElementState :=
  { s with
    attrs := o.attrs.entries.foldl edit s.attrs
    style := o.style.entries.foldl edit s.style
    focus := s.focus || o.focus }

end ElementOverlay
end ReactiveView
