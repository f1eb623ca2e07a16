import ReactiveView.Expr.Json
import ReactiveView.Program.Basic

/-!
# Programs as JSON

The form in which compiled programs are kept (`Program.toJson`) and read back (`Program.decoder`).
An `Artifact` is a program together with the version of the form and the namespace that it is kept
in.
-/

namespace ReactiveView

open Decoder (choice record oneOf)

/-! ## Attributes -/

namespace AttrValue

/-- A value. -/
def toJson : AttrValue → Json
  | empty => .str "Empty"
  | literal s => .tagged "Literal" (.str s)
  | dynamic e => .tagged "Dynamic" e.toJson

/-- Read a value. -/
def decoder : Decoder AttrValue := choice fun c =>
  match c.name with
  | "Empty" => c.unit .empty
  | "Literal" => (c.carrying .text).map .literal
  | "Dynamic" => (c.carrying DynamicExpr.decoder).map .dynamic
  | _ => none

end AttrValue

namespace AttrAction

/-- A name, stored under `key`, with a value. -/
def named (key name : String) (v : AttrValue) : Json :=
  .object [(key, .str name), ("value", v.toJson)]

/-- An action. -/
def toJson : AttrAction → Json
  | plain name v => .tagged "Plain" (named "name" name v)
  | ref name => .tagged "Ref" (.str name)
  | cref name => .tagged "Cref" (.str name)
  | scope name v => .tagged "Scope" (named "name" name v)
  | onInit hook => .tagged "OnInit" (.str hook)
  | onRender hook => .tagged "OnRender" (.str hook)
  | classSwitch name v => .tagged "ClassSwitch" (named "name" name v)
  | styleEntry property v => .tagged "StyleEntry" (named "prop" property v)
  | bindValue name => .tagged "BindValue" (.str name)
  | dynamicSet name v => .tagged "DynamicSet" (named "name" name v)
  | data name v => .tagged "Data" (named "name" name v)
  | asset attr v => .tagged "Asset" (named "attr" attr v)
  | reactive => .str "Reactive"
  | style v => .tagged "Style" v.toJson
  | classes v => .tagged "Class" v.toJson
  | type v => .tagged "Type" v.toJson
  | value v => .tagged "Value" v.toJson
  | localize v => .tagged "Localize" v.toJson
  | setFalse name => .tagged "SetFalse" (.str name)
  | consume keys => .tagged "Consume" (.ofOption .str keys)

/-- Read a name, stored under `key`, with a value. -/
def namedDecoder (key : String) (make : String → AttrValue → AttrAction) : Decoder AttrAction :=
  record [key, "value"] fun f => do
    return make (← f.required key .text) (← f.required "value" AttrValue.decoder)

/-- Read an action. -/
def decoder : Decoder AttrAction := choice fun c =>
  match c.name with
  | "Plain" => c.carrying (namedDecoder "name" .plain)
  | "Ref" => (c.carrying .text).map .ref
  | "Cref" => (c.carrying .text).map .cref
  | "Scope" => c.carrying (namedDecoder "name" .scope)
  | "OnInit" => (c.carrying .text).map .onInit
  | "OnRender" => (c.carrying .text).map .onRender
  | "ClassSwitch" => c.carrying (namedDecoder "name" .classSwitch)
  | "StyleEntry" => c.carrying (namedDecoder "prop" .styleEntry)
  | "BindValue" => (c.carrying .text).map .bindValue
  | "DynamicSet" => c.carrying (namedDecoder "name" .dynamicSet)
  | "Data" => c.carrying (namedDecoder "name" .data)
  | "Asset" => c.carrying (namedDecoder "attr" .asset)
  | "Reactive" => c.unit .reactive
  | "Style" => (c.carrying AttrValue.decoder).map .style
  | "Class" => (c.carrying AttrValue.decoder).map .classes
  | "Type" => (c.carrying AttrValue.decoder).map .type
  | "Value" => (c.carrying AttrValue.decoder).map .value
  | "Localize" => (c.carrying AttrValue.decoder).map .localize
  | "SetFalse" => (c.carrying .text).map .setFalse
  | "Consume" => (c.carrying (.nullable .text)).map .consume
  | _ => none

end AttrAction

/-- Names with values. -/
def bindingsToJson (bindings : List (String × AttrValue)) : Json :=
  .array (bindings.map fun (name, v) => .array [.str name, v.toJson])

/-- Read names with values. -/
def bindingsDecoder : Decoder (List (String × AttrValue)) := .list (.pair .text AttrValue.decoder)

/-! ## Steps -/

namespace TextSource

/-- A text. -/
def toJson : TextSource → Json
  | literal s => .tagged "Literal" (.str s)
  | dynamic e => .tagged "Dynamic" e.toJson

/-- Read a text. -/
def decoder : Decoder TextSource := choice fun c =>
  match c.name with
  | "Literal" => (c.carrying .text).map .literal
  | "Dynamic" => (c.carrying DynamicExpr.decoder).map .dynamic
  | _ => none

end TextSource

namespace ComponentName

/-- The name of a component. -/
def toJson : ComponentName → Json
  | fixed name => .tagged "Static" (.str name)
  | dynamic e => .tagged "Dynamic" e.toJson

/-- Read the name of a component. -/
def decoder : Decoder ComponentName := choice fun c =>
  match c.name with
  | "Static" => (c.carrying .text).map .fixed
  | "Dynamic" => (c.carrying DynamicExpr.decoder).map .dynamic
  | _ => none

end ComponentName

namespace BranchOp

/-- A branch. -/
def toJson (b : BranchOp) : Json :=
  .object [("predicate", .ofOption DynamicExpr.toJson b.predicate), ("body", .ofNat b.body)]

/-- Read a branch. -/
def decoder : Decoder BranchOp := record ["predicate", "body"] fun f => do
  return ⟨← f.optional "predicate" DynamicExpr.decoder, ← f.required "body" (.word UInt32.size)⟩

end BranchOp

namespace Op

/-- The number of a procedure, or nothing. -/
def procToJson (id : Option ProcId) : Json := .ofOption .ofNat id

mutual

/-- A step. -/
def toJson : Op → Json
  | .element tag attrs content =>
    .tagged "Element" (.object [("tag", .str tag), ("attrs", .array (attrs.map AttrAction.toJson)),
      ("content", contentToJson content)])
  | .text source => .tagged "Text" source.toJson
  | .component name attrs defaultSlot namedSlots =>
    .tagged "Component" (.object [("name", name.toJson),
      ("attrs", .array (attrs.map AttrAction.toJson)), ("default_slot", procToJson defaultSlot),
      ("named_slots", .array (namedSlots.map fun (n, id) => .array [.str n, .ofNat id]))])
  | .condition branches reactive =>
    .tagged "Condition" (.object [("branches", .array (branches.map BranchOp.toJson)),
      ("reactive", .bool reactive)])
  | .loop var iterable identity body empty =>
    .tagged "Loop" (.object [("var", .str var), ("iterable", iterable.toJson),
      ("identity", .ofOption DynamicExpr.toJson identity), ("body", .ofNat body),
      ("empty", procToJson empty)])
  | .set name value body =>
    .tagged "Set" (.object [("name", .str name), ("value", value.toJson), ("body", .ofNat body)])
  | .slot name fallback =>
    .tagged "Slot" (.object [("name", .ofOption .str name), ("fallback", procToJson fallback)])
  | .code body lineOffset =>
    .tagged "Code" (.object [("body", .array (Stmt.listToJson body)),
      ("line_offset", .ofNat lineOffset)])
  | .carrier kind everywhere index attrs source =>
    .tagged "Carrier" (.object [("kind", .str kind.name), ("global", .bool everywhere),
      ("index", .ofNat index), ("attrs", bindingsToJson attrs),
      ("text", .ofOption TextSource.toJson source)])
  | .scope bindings ops =>
    .tagged "Scope" (.object [("bindings", bindingsToJson bindings),
      ("ops", .array (listToJson ops))])
  | .signal key action =>
    .tagged "Signal" (.object [("to", .str key), ("action", .str action)])
  | .fragment ops => .tagged "Fragment" (.array (listToJson ops))

/-- What goes inside an element. -/
def contentToJson : ElementContent → Json
  | .text source => .tagged "Text" source.toJson
  | .children ops => .tagged "Children" (.array (listToJson ops))

/-- Steps. -/
def listToJson : List Op → List Json
  | [] => []
  | op :: ops => op.toJson :: listToJson ops

end

/-- Read what goes inside an element. -/
def contentDecoder (op : Decoder Op) : Decoder ElementContent := choice fun c =>
  match c.name with
  | "Text" => (c.carrying TextSource.decoder).map .text
  | "Children" => (c.carrying (.list op)).map .children
  | _ => none

/-- Read the number of a procedure. -/
def procDecoder : Decoder ProcId := .word UInt32.size

/-- Read one level of a step. -/
def decodeLevel (op : Decoder Op) : Decoder Op := choice fun c =>
  match c.name with
  | "Element" => c.carrying <| record ["tag", "attrs", "content"] fun f => do
    return .element (← f.required "tag" .text) (← f.required "attrs" (.list AttrAction.decoder))
      (← f.required "content" (contentDecoder op))
  | "Text" => (c.carrying TextSource.decoder).map .text
  | "Component" =>
    c.carrying <| record ["name", "attrs", "default_slot", "named_slots"] fun f => do
      return .component (← f.required "name" ComponentName.decoder)
        (← f.required "attrs" (.list AttrAction.decoder)) (← f.optional "default_slot" procDecoder)
        (← f.required "named_slots" (.list (.pair .text procDecoder)))
  | "Condition" => c.carrying <| record ["branches", "reactive"] fun f => do
    return .condition (← f.required "branches" (.list BranchOp.decoder))
      (← f.required "reactive" .bool)
  | "Loop" => c.carrying <| record ["var", "iterable", "identity", "body", "empty"] fun f => do
    return .loop (← f.required "var" .text) (← f.required "iterable" DynamicExpr.decoder)
      (← f.optional "identity" DynamicExpr.decoder) (← f.required "body" procDecoder)
      (← f.optional "empty" procDecoder)
  | "Set" => c.carrying <| record ["name", "value", "body"] fun f => do
    return .set (← f.required "name" .text) (← f.required "value" DynamicExpr.decoder)
      (← f.required "body" procDecoder)
  | "Slot" => c.carrying <| record ["name", "fallback"] fun f => do
    return .slot (← f.optional "name" .text) (← f.optional "fallback" procDecoder)
  | "Code" => c.carrying <| record ["body", "line_offset"] fun f => do
    return .code (← f.required "body" (.list Stmt.decoder))
      (← f.required "line_offset" Stmt.lineDecoder)
  | "Carrier" => c.carrying <| record ["kind", "global", "index", "attrs", "text"] fun f => do
    return .carrier (← f.required "kind" (oneOf (CarrierKind.all.map fun k => (k.name, k))))
      (← f.required "global" .bool) (← f.required "index" (.word UInt32.size))
      (← f.required "attrs" bindingsDecoder) (← f.optional "text" TextSource.decoder)
  | "Scope" => c.carrying <| record ["bindings", "ops"] fun f => do
    return .scope (← f.required "bindings" bindingsDecoder) (← f.required "ops" (.list op))
  | "Signal" => c.carrying <| record ["to", "action"] fun f => do
    return .signal (← f.required "to" .text) (← f.required "action" .text)
  | "Fragment" => (c.carrying (.list op)).map .fragment
  | _ => none

/-- Read a step. -/
def decoder : Decoder Op := .nested decodeLevel

end Op

namespace Program

/-- A program. -/
def toJson (p : Program) : Json :=
  .object [("name", .str p.name), ("hash", .str p.hash),
    ("procedures", .array (p.procedures.map fun proc =>
      .object [("kind", .str proc.kind.name), ("ops", .array (Op.listToJson proc.ops))]))]

/-- Read a procedure. -/
def procedureDecoder : Decoder Procedure := record ["kind", "ops"] fun f => do
  return ⟨← f.required "kind" (oneOf (ProcKind.all.map fun k => (k.name, k))),
    ← f.required "ops" (.list Op.decoder)⟩

/-- Read a program. -/
def decoder : Decoder Program := record ["name", "hash", "procedures"] fun f => do
  return ⟨← f.required "name" .text, ← f.required "hash" .text,
    ← f.required "procedures" (.list procedureDecoder)⟩

/-- Read a program from its text. -/
def read? (text : String) : Option Program := Decoder.run decoder text

end Program

/-- A program as it is kept. -/
structure Artifact where
  /-- The version of the form. -/
  version : Nat
  /-- The namespace that the program is kept in. -/
  keptIn : String
  /-- The program. -/
  program : Program

namespace Artifact

/-- The version of the form that is written and read. -/
def currentVersion : Nat := 1

/-- An artifact. -/
def toJson (a : Artifact) : Json :=
  .object [("version", .ofNat a.version), ("namespace", .str a.keptIn),
    ("program", a.program.toJson)]

/-- Read an artifact. -/
def decoder : Decoder Artifact := record ["version", "namespace", "program"] fun f => do
  return ⟨← f.required "version" (.word UInt32.size), ← f.required "namespace" .text,
    ← f.required "program" Program.decoder⟩

end Artifact
end ReactiveView
