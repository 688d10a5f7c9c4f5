import SemanticNet.Settings
import SemanticNet.Toml.Reader
import SemanticNet.Toml.Writer

/-!
# Settings as text

Settings are written as a flat TOML document with a line for each of them that is set. Reading
starts from the default settings and refuses keys that are not known and values that do not suit
their key.
-/

namespace SemanticNet.Settings

open Toml (Scalar Line)

def asText? : Scalar → Option String
  | .text s => some s
  | _ => none

def asBool? : Scalar → Option Bool
  | .bool b => some b
  | _ => none

/-- An integer that is not negative and at most `top`. -/
def asNat? (top : Nat) : Scalar → Option Nat
  | .integer (.ofNat n) => if n ≤ top then some n else none
  | _ => none

def asHalf? (v : Scalar) : Option UInt16 := (asNat? 65535 v).map .ofNat

/-- The settings changed by one line. -/
def read? (s : Settings) : Line → Option Settings
  | ("max_segments", v) => (asHalf? v).map fun n => { s with maxSegments := n }
  | ("segment_capacity", v) => (asHalf? v).map fun n => { s with segmentCapacity := n }
  | ("monitor_shards", v) => (asNat? (UInt64.size - 1) v).map fun n => { s with monitorShards := n }
  | ("repo_path", v) => (asText? v).map fun t => { s with repository := some t }
  | ("clear", v) => (asBool? v).map fun b => { s with clear := b }
  | ("save_on_shutdown", v) => (asBool? v).map fun b => { s with saveOnShutdown := b }
  | ("log_level", v) => (asText? v).map fun t => { s with logLevel := some t }
  | ("metrics", v) => (asBool? v).map fun b => { s with metrics := b }
  | _ => none

/-- The settings of a document. -/
def ofToml? (text : String) : Option Settings := do (← Toml.read? text).foldlM read? {}

/-- The lines for the settings that are set. -/
def lines (s : Settings) : List Line :=
  [("max_segments", .integer s.maxSegments.toNat),
    ("segment_capacity", .integer s.segmentCapacity.toNat),
    ("monitor_shards", .integer s.monitorShards)] ++
  s.repository.toList.map (fun t => ("repo_path", .text t)) ++
  [("clear", .bool s.clear), ("save_on_shutdown", .bool s.saveOnShutdown)] ++
  s.logLevel.toList.map (fun t => ("log_level", .text t)) ++
  [("metrics", .bool s.metrics)]

/-- The document of some settings, unless a number is too large for it. -/
def toToml? (s : Settings) : Option String := Toml.write? s.lines

end SemanticNet.Settings
