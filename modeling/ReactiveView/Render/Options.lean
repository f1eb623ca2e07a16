import ReactiveView.Json.Decode

/-!
# Engine options

The limits within which the engine works, as they are configured.
-/

namespace ReactiveView

/-- How the engine works. -/
structure EngineOptions where
  /-- How many rounds of updates one operation may cause. -/
  maxUpdateDepth : Nat := 32
  /-- How long an answer of the consumer is waited for, in milliseconds. -/
  requestTimeout : Nat := 1000
  /-- Whether a reference to a missing component is a problem. -/
  reportMissingComponents : Bool := true
deriving DecidableEq, Repr

namespace EngineOptions

/-- Options as data. -/
def toJson (o : EngineOptions) : Json :=
  .object [("max_update_depth", .int o.maxUpdateDepth),
    ("request_timeout_ms", .int o.requestTimeout),
    ("report_missing_components", .bool o.reportMissingComponents)]

/-- Read options; those that are left out have their usual values. -/
def decoder : Decoder EngineOptions :=
  .record ["max_update_depth", "request_timeout_ms", "report_missing_components"] fun f => do
    let usual : EngineOptions := {}
    return {
      maxUpdateDepth := ← f.withDefault "max_update_depth" usual.maxUpdateDepth (.word UInt32.size)
      requestTimeout :=
        ← f.withDefault "request_timeout_ms" usual.requestTimeout (.word UInt64.size)
      reportMissingComponents :=
        ← f.withDefault "report_missing_components" usual.reportMissingComponents .bool }

end EngineOptions
end ReactiveView
