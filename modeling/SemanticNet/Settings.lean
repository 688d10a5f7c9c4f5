import SemanticNet.Failure

/-!
# Settings

What a memory is started with. `validate` refuses settings that give no working memory; a store can
be made from any settings.
-/

namespace SemanticNet

structure Settings where
  /-- The number of segments that may be engaged. -/
  maxSegments : UInt16 := 65535
  /-- The number of slots of a segment. -/
  segmentCapacity : UInt16 := 65535
  /-- The number of parts of the monitor table. -/
  monitorShards : Nat := 64
  /-- The directory of the dump. -/
  repository : Option String := none
  /-- Whether to start empty although there is a dump. -/
  clear : Bool := false
  /-- Whether to write a dump at the end. -/
  saveOnShutdown : Bool := false
  /-- The filter for the log, if there is to be one. -/
  logLevel : Option String := none
  /-- Whether to count what happens. -/
  metrics : Bool := false
deriving DecidableEq, Inhabited, Repr

namespace Settings

/-- Small segments, and counting on. -/
def small : Settings :=
  { maxSegments := 256, segmentCapacity := 4096, monitorShards := 16, metrics := true }

/-- The first reason why no memory can be started with these settings. -/
def fault? (s : Settings) : Option ArgumentFault :=
  if s.maxSegments = 0 then some .noSegments
  else if s.segmentCapacity = 0 then some .noCapacity
  else if s.monitorShards = 0 then some .noMonitorShards
  else if s.saveOnShutdown && s.repository.isNone then some .saveWithoutRepository
  else none

def validate (s : Settings) : Except Failure Unit :=
  match s.fault? with
  | some f => .error (.invalidParams f)
  | none => .ok ()

end Settings

end SemanticNet
