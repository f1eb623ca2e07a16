import ReactiveView.Wire.Payload

/-!
# Messages

What the renderer tells the consumer (`Message`) and what the consumer tells the renderer
(`Inbound`). On the wire a message is an object whose member `m` says what kind it is. A batch of
changes becomes at most two messages, deletions first (`ShotBatch.messages`).
-/

namespace ReactiveView

open Decoder (record)

/-- A value that only the consumer knows. -/
inductive RequestKind where
  /-- The measures of a node. -/
  | metrics
  /-- The value of a control. -/
  | value
  /-- Whether the value of a control is valid. -/
  | validity
deriving DecidableEq, Repr

/-- What the renderer tells the consumer. -/
inductive Message where
  /-- Nodes that changed, then nodes that are new. -/
  | update (nodes : List NodePayload)
  /-- Nodes that are gone. -/
  | delete (ids : List UInt64)
  /-- A request for the measures of a node. -/
  | metrics (oid : UInt64)
  /-- A request for the value of a node, as the given type. -/
  | value (oid : UInt64) (valueType : Option String)
  /-- A request for the validity of a node. -/
  | validity (oid : UInt64)
  /-- A problem, and the template line that it was met on. -/
  | error (message : String) (line : Option Nat)
  /-- The consumer is to start anew. -/
  | restart
  /-- A message for the log. -/
  | log (message : String)
  /-- A method of the consumer is to be called. -/
  | call (method : String) (args : List Json)

namespace Message

/-- A message of a kind with further members. -/
def ofKind (kind : String) (members : List (String × Json)) : Json :=
  .object (("m", .str kind) :: members)

/-- The number of the node that a message is about. -/
def about (oid : UInt64) : String × Json := ("oid", NodePayload.oidToJson oid)

/-- A message on the wire. -/
def toJson : Message → Json
  | update nodes => ofKind "u" [("l", .array (nodes.map NodePayload.toJson))]
  | delete ids => ofKind "d" [("l", .array (ids.map NodePayload.oidToJson))]
  | metrics oid => ofKind "m" [about oid]
  | value oid valueType => ofKind "v" (about oid :: NodePayload.memberOption "t" .str valueType)
  | validity oid => ofKind "valid" [about oid]
  | error message line =>
    ofKind "e" (("message", .str message) :: NodePayload.memberOption "line" .ofNat line)
  | restart => ofKind "rst" []
  | log message => ofKind "log" [("message", .str message)]
  | call method args => ofKind "call" [("method", .str method), ("args", .array args)]

/-- Read a message. -/
def decoder : Decoder Message := .tagged "m" fun kind =>
  match kind with
  | "u" => record ["l"] fun f => do
    return .update (← f.required "l" (.list NodePayload.decoder))
  | "d" => record ["l"] fun f => do
    return .delete (← f.required "l" (.list NodePayload.oidDecoder))
  | "m" => record ["oid"] fun f => do
    return .metrics (← f.required "oid" NodePayload.oidDecoder)
  | "v" => record ["oid", "t"] fun f => do
    return .value (← f.required "oid" NodePayload.oidDecoder)
      (← f.withDefault "t" none (.nullable .text))
  | "valid" => record ["oid"] fun f => do
    return .validity (← f.required "oid" NodePayload.oidDecoder)
  | "e" => record ["message", "line"] fun f => do
    return .error (← f.required "message" .text)
      (← f.withDefault "line" none (.nullable (.word UInt32.size)))
  | "rst" => Decoder.nothing.map fun _ => .restart
  | "log" => record ["message"] fun f => do
    return .log (← f.required "message" .text)
  | "call" => record ["method", "args"] fun f => do
    return .call (← f.required "method" .text) (← f.withDefault "args" [] (.list .json))
  | _ => fun _ _ => none

end Message

/-- What the consumer tells the renderer. -/
inductive Inbound where
  /-- A method of the context that owns a node is to be called. -/
  | click (oid : UInt64) (method : String) (args : List Json)
  /-- A control has a new value. -/
  | bind (oid : UInt64) (value : Json)
  /-- The answer to a request. -/
  | answer (kind : RequestKind) (oid : UInt64) (value : Json)
  /-- The whole tree is to be reported again. -/
  | refresh

namespace Inbound

/-- The name of an answer. -/
def answerName : RequestKind → String
  | .metrics => "metrics"
  | .value => "value"
  | .validity => "validity"

/-- A message on the wire. -/
def toJson : Inbound → Json
  | click oid method args =>
    Message.ofKind "click" [Message.about oid, ("method", .str method), ("args", .array args)]
  | bind oid value => Message.ofKind "bind" [Message.about oid, ("value", value)]
  | answer kind oid value =>
    Message.ofKind (answerName kind) [Message.about oid, ("value", value)]
  | refresh => Message.ofKind "refresh" []

/-- Read a node number with a value. -/
def withValue (make : UInt64 → Json → Inbound) : Decoder Inbound :=
  record ["oid", "value"] fun f => do
    return make (← f.required "oid" NodePayload.oidDecoder) (← f.required "value" .json)

/-- Read a message. -/
def decoder : Decoder Inbound := .tagged "m" fun kind =>
  match kind with
  | "click" => record ["oid", "method", "args"] fun f => do
    return .click (← f.required "oid" NodePayload.oidDecoder) (← f.required "method" .text)
      (← f.withDefault "args" [] (.list .json))
  | "bind" => withValue .bind
  | "metrics" => withValue (.answer .metrics)
  | "value" => withValue (.answer .value)
  | "validity" => withValue (.answer .validity)
  | "refresh" => Decoder.nothing.map fun _ => .refresh
  | _ => fun _ _ => none

end Inbound

/-- The changes of a shot, with payloads. -/
structure ShotBatch where
  /-- The new nodes. -/
  created : List NodePayload := []
  /-- The nodes that changed. -/
  updated : List NodePayload := []
  /-- The nodes that are gone. -/
  deleted : List UInt64 := []

namespace ShotBatch

/-- Whether there is no change. -/
def isEmpty (b : ShotBatch) : Bool := b.created.isEmpty && b.updated.isEmpty && b.deleted.isEmpty

/-- The messages of a batch: deletions, then one update of the changed and the new nodes. Empty
messages are left out. -/
def messages (b : ShotBatch) : List Message :=
  (if b.deleted.isEmpty then [] else [.delete b.deleted]) ++
    (if b.updated.isEmpty && b.created.isEmpty then [] else [.update (b.updated ++ b.created)])

end ShotBatch
end ReactiveView
