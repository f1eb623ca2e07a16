import ReactiveView.Expr.Json
import ReactiveView.OrderedMap
import ReactiveView.Template.Tag

/-!
# Payloads

A `NodePayload` is a visible node as the consumer sees it. On the wire its fields have short names,
and fields that are empty, false or absent, or name the default namespace, are left out. A reader
puts them back, so that nothing is lost (`NodePayload.toJson`, `NodePayload.decoder`).
-/

namespace ReactiveView

/-- A visible node as the consumer sees it. -/
structure NodePayload where
  /-- The number of the node. -/
  id : UInt64 := 0
  /-- The nearest visible ancestor. -/
  parent : Option UInt64 := none
  /-- The tag. -/
  tag : String := ""
  /-- The kind of node. -/
  kind : String := ""
  /-- The attributes. -/
  attrs : OrderedMap String String := .empty
  /-- The classes. -/
  classes : List String := []
  /-- The style properties. -/
  style : OrderedMap String String := .empty
  /-- The text. -/
  text : Option String := none
  /-- Whether the node was moved as it is. -/
  rebind : Bool := false
  /-- Whether the styles of the node's context are its own. -/
  restyle : Bool := false
  /-- The value of a control. -/
  value : Option Json := none
  /-- The type of that value. -/
  valueType : Option String := none
  /-- Attached data. -/
  data : OrderedMap String Json := .empty
  /-- The namespace of the markup. -/
  ns : Namespace := .html
  /-- Whether the node asks for the focus. -/
  focus : Bool := false
  /-- Whether texts of the node are localized by the consumer. -/
  localize : Bool := false

namespace NodePayload

/-- A member that is left out if there is nothing to write. -/
def member (key : String) (present : Bool) (value : Json) : List (String × Json) :=
  if present then [(key, value)] else []

/-- A member that is left out if it is absent. -/
def memberOption {α : Type} (key : String) (f : α → Json) : Option α → List (String × Json)
  | some a => [(key, f a)]
  | none => []

/-- A table as an object. -/
def table {α : Type} (f : α → Json) (m : OrderedMap String α) : Json :=
  .object (m.entries.map fun (k, v) => (k, f v))

/-- A node number. -/
def oidToJson (oid : UInt64) : Json := .int oid.toNat

/-- A payload on the wire. -/
def toJson (p : NodePayload) : Json :=
  .object <|
    [("i", oidToJson p.id)] ++ memberOption "p" oidToJson p.parent ++
    [("n", .str p.tag), ("k", .str p.kind)] ++
    member "a" (!p.attrs.isEmpty) (table .str p.attrs) ++
    member "C" (!p.classes.isEmpty) (.texts p.classes) ++
    member "s" (!p.style.isEmpty) (table .str p.style) ++
    memberOption "t" .str p.text ++
    member "#" p.rebind (.bool true) ++
    member "$" p.restyle (.bool true) ++
    memberOption "v" (fun j => j) p.value ++
    memberOption "type" .str p.valueType ++
    member "d" (!p.data.isEmpty) (table (fun j => j) p.data) ++
    member "x" (p.ns != .html) (.str p.ns.name) ++
    member "f" p.focus (.bool true) ++
    member "l" p.localize (.bool true)

/-- Read a table; a repeated key keeps its first place and its last value. -/
def tableDecoder {α : Type} (d : Decoder α) : Decoder (OrderedMap String α) :=
  (Decoder.table d).map .ofList

/-- Read a node number. -/
def oidDecoder : Decoder UInt64 := (Decoder.word UInt64.size).map UInt64.ofNat

/-- Read a namespace. -/
def namespaceDecoder : Decoder Namespace :=
  .oneOf ([Namespace.html, .svg, .mathml].map fun ns => (ns.name, ns))

/-- Read a payload. -/
def decoder : Decoder NodePayload :=
  .record ["i", "p", "n", "k", "a", "C", "s", "t", "#", "$", "v", "type", "d", "x", "f", "l"]
    fun f => do
      return {
        id := ← f.withDefault "i" 0 oidDecoder
        parent := ← f.withDefault "p" none (.nullable oidDecoder)
        tag := ← f.withDefault "n" "" .text
        kind := ← f.withDefault "k" "" .text
        attrs := ← f.withDefault "a" .empty (tableDecoder .text)
        classes := ← f.withDefault "C" [] (.list .text)
        style := ← f.withDefault "s" .empty (tableDecoder .text)
        text := ← f.withDefault "t" none (.nullable .text)
        rebind := ← f.withDefault "#" false .bool
        restyle := ← f.withDefault "$" false .bool
        value := ← f.withDefault "v" none (.nullable .json)
        valueType := ← f.withDefault "type" none (.nullable .text)
        data := ← f.withDefault "d" .empty (tableDecoder .json)
        ns := ← f.withDefault "x" .html namespaceDecoder
        focus := ← f.withDefault "f" false .bool
        localize := ← f.withDefault "l" false .bool }

end NodePayload
end ReactiveView
