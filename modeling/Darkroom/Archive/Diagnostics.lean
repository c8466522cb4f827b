import Darkroom.Archive.Action
import Darkroom.History.Diagnostics

/-!
# Replays in JSON

Issues and diagnostics. A duration is a number of seconds.
-/

namespace Darkroom

open Json

instance : Coded Duration where
  toJson d := double d.seconds
  ofJson? v := (ofJson? v : Option Float).bind Duration.ofSeconds?

instance : Coded SkipReason where
  toJson
    | .unknownAction => str "UnknownAction"
    | .notReproducible category => tagged "NotReproducible" (toJson category)
    | .failed error => tagged "Failed" (toJson error)
  ofJson? v :=
    match variant? v with
    | some ("UnknownAction", none) => some .unknownAction
    | some ("UnknownAction", some .null) => some .unknownAction
    | some ("NotReproducible", some v) => (ofJson? v).map .notReproducible
    | some ("Failed", some v) => (ofJson? v).map .failed
    | _ => none

instance : Coded ReplayIssue where
  toJson i := record
    [("index", int i.index), ("identifier", toJson i.identifier), ("version", toJson i.version),
     ("reason", toJson i.reason)]
  ofJson? v :=
    match fields? ["index", "identifier", "version", "reason"] v with
    | some [index, identifier, version, reason] => do
      let index : UInt64 ← required index
      let identifier ← required identifier
      let version ← required version
      let reason ← required reason
      pure ⟨index.toNat, identifier, version, reason⟩
    | _ => none

instance : Coded StepStatus where
  toJson
    | .applied => str "applied"
    | .skipped => str "skipped"
    | .failed => str "failed"
  ofJson? := namedJson [("applied", .applied), ("skipped", .skipped), ("failed", .failed)]

instance : Coded StepMetrics where
  toJson m := record [("changed_pixels", int m.changedPixels), ("pixel_count", int m.pixelCount)]
  ofJson? v :=
    match fields? ["changed_pixels", "pixel_count"] v with
    | some [changed, count] => do
      let changed : UInt64 ← required changed
      let count : UInt64 ← required count
      pure ⟨changed.toNat, count.toNat⟩
    | _ => none

instance : Coded StepDiagnostics where
  toJson s := record
    [("identifier", toJson s.identifier), ("version", toJson s.version),
     ("status", toJson s.status), ("duration", toJson s.duration), ("metrics", toJson s.metrics)]
  ofJson? v :=
    match fields? ["identifier", "version", "status", "duration", "metrics"] v with
    | some [identifier, version, status, duration, metrics] => do
      let identifier ← required identifier
      let version ← required version
      let status ← required status
      let duration ← required duration
      let metrics ← required metrics
      pure ⟨identifier, version, status, duration, metrics⟩
    | _ => none

instance : Coded ReplayDiagnostics where
  toJson d := record
    [("dimensions", toJson d.dimensions), ("sixteen_bit", toJson d.depth.isSixteen),
     ("steps", toJson d.steps), ("total_duration", toJson d.totalDuration),
     ("result_hash", toJson d.resultHash)]
  ofJson? v :=
    match fields? ["dimensions", "sixteen_bit", "steps", "total_duration", "result_hash"] v with
    | some [dimensions, sixteenBit, steps, totalDuration, resultHash] => do
      let dimensions ← required dimensions
      let sixteenBit ← required sixteenBit
      let steps ← required steps
      let totalDuration ← required totalDuration
      let resultHash ← required resultHash
      pure ⟨dimensions, .ofSixteen sixteenBit, steps, totalDuration, resultHash⟩
    | _ => none

end Darkroom
