import ReactiveView.Template.Action
import ReactiveView.Template.Basic

/-!
# What nodes are made of

Readings of a node that a template is rendered and compiled by: the actions of its attributes, the
text that an element takes as its own, and the slots that the children of a component reference are
for.
-/

namespace ReactiveView

/-- The text of a node: as it stands, or of an expression. -/
inductive TextSource where
  /-- As it stands. -/
  | literal (s : String)
  /-- The display text of an expression. -/
  | dynamic (e : DynamicExpr)

namespace Header

/-- The actions of the attributes. -/
def actions (h : Header) : List AttrAction := h.attributes.map .ofAttribute

/-- The attributes as names and values. -/
def bindings (h : Header) : List (String × AttrValue) := h.attributes.map fun a => (a.name, a.value)

/-- The attributes of a carrier, less the one that makes it global. -/
def carrierBindings (h : Header) : List (String × AttrValue) :=
  h.bindings.filter fun b => b.1 ≠ "global"

end Header

namespace Node

/-- The attribute that makes an element the content of a named slot. -/
def slotAttribute : String := "slot"

/-- The slot that a child of a component reference is the content of, if it names one. -/
def slotSection? : Node → Option String
  | element h _ => Attribute.literal? h.attributes slotAttribute
  | _ => none

/-- The text of an element that has a text as its only child. -/
def loneText? : List Node → Option TextSource
  | [text _ s] => some (.literal s)
  | [dynamicText _ e] => some (.dynamic e)
  | _ => none

end Node
end ReactiveView
