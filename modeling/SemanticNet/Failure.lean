import SemanticNet.Address

/-!
# Failures

Why an operation was refused. Each failure is a cause; `Failure.message` gives its wording.
-/

namespace SemanticNet

/-- What is wrong with the arguments of a call. -/
inductive ArgumentFault where
  | emptyAddress
  | emptyEndpoint
  | nothingFixed
  | triplePosition
  | quintuplePosition
  | emptyAttribute
  | noSegments
  | noCapacity
  | noMonitorShards
  | saveWithoutRepository
  | logFilter
  | loggingInstalled
deriving DecidableEq, Repr

/-- Why a type does not allow the call. -/
inductive TypeFault where
  | nodeExpected
  | linkExpected
  | connectorExpected
  | malformedConnector
  | notNarrower
  | notConnector
  | notLink
deriving DecidableEq, Repr

/-- Why a transaction refuses the call. -/
inductive StateFault where
  | finished
  | committed
deriving DecidableEq, Repr

/-- What is damaged in stored data. -/
inductive Damage where
  | notIncident
  | ringTooLong
  | liveOnFreeChain
  | cursorBeyondCapacity
  | freeOffsetRange
  | elementOffsetRange
  | offsetTwice
  | segmentSequence
  | truncated
  | checksum
  | signature
  | version
  | zeroCapacity
  | unknownType
  | connectorMarker
  | connectorMismatch
  | contentOwner
  | trailing
  | noProgress
deriving DecidableEq, Repr

/-- Why an operation was refused. -/
inductive Failure where
  | invalidParams (fault : ArgumentFault)
  | invalidType (fault : TypeFault)
  | notLive (a : Address)
  | fullMemory (segments : Nat)
  | invalidState (fault : StateFault)
  | noReadRights
  | noWriteRights
  | unknownKeynode
  | invalidIdentifier (name : String)
  | identifierTaken (name : String)
  | keynode (name : String) (cause : Failure)
  | noRepository
  | unreadable
  | unwritable
  | corrupt (damage : Damage)
deriving DecidableEq, Repr

def ArgumentFault.message : ArgumentFault → String
  | emptyAddress => "empty address"
  | emptyEndpoint => "connector endpoints must not be empty"
  | nothingFixed => "iterator pattern needs a fixed position"
  | triplePosition => "iterator3 position out of range"
  | quintuplePosition => "iterator5 position out of range"
  | emptyAttribute => "attribute positions must not be empty"
  | noSegments => "max_segments must be positive"
  | noCapacity => "segment_capacity must be positive"
  | noMonitorShards => "monitor_shards must be positive"
  | saveWithoutRepository => "save_on_shutdown requires repo_path"
  | logFilter => "invalid log level"
  | loggingInstalled => "logging already initialized"

def TypeFault.message : TypeFault → String
  | nodeExpected => "node type expected"
  | linkExpected => "link type expected"
  | connectorExpected => "connector type expected"
  | malformedConnector => "malformed connector type"
  | notNarrower => "type can not be narrowed to the requested subtype"
  | notConnector => "element is not a connector"
  | notLink => "element is not a link"

def StateFault.message : StateFault → String
  | finished => "transaction is finished"
  | committed => "transaction already committed"

def Damage.message : Damage → String
  | notIncident => "connector is not incident to ring owner"
  | ringTooLong => "incident ring longer than its count"
  | liveOnFreeChain => "live slot on the free chain"
  | cursorBeyondCapacity => "segment cursor exceeds capacity"
  | freeOffsetRange => "free slot offset out of range"
  | elementOffsetRange => "element offset out of range"
  | offsetTwice => "slot offset restored twice"
  | segmentSequence => "segment number out of sequence"
  | truncated => "dump truncated"
  | checksum => "dump checksum mismatch"
  | signature => "bad dump magic"
  | version => "unsupported dump version"
  | zeroCapacity => "zero segment capacity"
  | unknownType => "live record with unknown type"
  | connectorMarker => "bad connector marker"
  | connectorMismatch => "connector record does not match type"
  | contentOwner => "content attached to a non-link"
  | trailing => "trailing bytes after content section"
  | noProgress => "erasure makes no progress"

/-- The wording of a failure. What the file system reports is not part of it. -/
def Failure.message : Failure → String
  | invalidParams fault => s!"invalid params: {fault.message}"
  | invalidType fault => s!"invalid type: {fault.message}"
  | notLive a => s!"address {a} does not denote a live element"
  | fullMemory segments => s!"full memory: all {segments} segments are engaged"
  | invalidState fault => s!"invalid state: {fault.message}"
  | noReadRights => "no read rights"
  | noWriteRights => "no write rights"
  | unknownKeynode => "not found: keynode"
  | invalidIdentifier name => "invalid system identifier `" ++ name ++ "`"
  | identifierTaken name => "system identifier `" ++ name ++ "` is already used"
  | keynode name cause => "failed to resolve keynode `" ++ name ++ "`: " ++ cause.message
  | noRepository => "repository path is not set or is not a directory"
  | unreadable => "failed to read"
  | unwritable => "failed to write"
  | corrupt damage => s!"corruption: {damage.message}"

end SemanticNet
