import SemanticNet.Arena.Ring
import SemanticNet.Contents
import SemanticNet.Metrics
import SemanticNet.Settings

/-!
# The store

A store is an arena of elements, the contents of the links among them, the number of elements of
each kind, and, when counting is on, the metrics. This module has the parts and the questions about
one element.
-/

namespace SemanticNet

/-- The numbers of live elements of each kind, modulo `2 ^ 64`. -/
structure Census where
  nodes : UInt64 := 0
  links : UInt64 := 0
  connectors : UInt64 := 0
deriving DecidableEq, Inhabited, Repr

namespace Census

def of (c : Census) : Kind → UInt64
  | .node => c.nodes
  | .link => c.links
  | .connector => c.connectors

def set (c : Census) (n : UInt64) : Kind → Census
  | .node => { c with nodes := n }
  | .link => { c with links := n }
  | .connector => { c with connectors := n }

def add (c : Census) (k : Kind) : Census := c.set (c.of k + 1) k

def remove (c : Census) (k : Kind) : Census := c.set (c.of k - 1) k

/-- All elements together. -/
def total (c : Census) : UInt64 := c.nodes + c.links + c.connectors

end Census

structure Store where
  arena : Arena
  contents : Contents byteHash := {}
  census : Census := {}
  metrics : Option Metrics := none
deriving Inhabited

namespace Store

/-- A store without elements. -/
def ofSettings (s : Settings) : Store :=
  { arena := .ofLimits s.maxSegments s.segmentCapacity
    metrics := if s.metrics then some {} else none }

/-- A step on the arena alone. -/
def onArena (x : Step Arena α) : Step Store α :=
  Step.within (·.arena) (fun t s => { s with arena := t }) default x

/-- Counts an event that happened `n` times, when counting is on. -/
def count (s : Store) (e : Event) (n : Nat) : Store :=
  { s with metrics := s.metrics.map (·.count n e) }

def changeContents (f : Contents byteHash → Contents byteHash) (s : Store) : Store :=
  { s with contents := f s.contents }

/-- Notes that an element of kind `k` came to life. -/
def noteCreated (s : Store) (k : Kind) : Store :=
  { s.count (.created k) 1 with census := s.census.add k }

/-- Notes that an element of kind `k` is gone. -/
def noteErased (s : Store) (k : Kind) : Store :=
  { s.count (.erased k) 1 with census := s.census.remove k }

/-! ## Questions about one element -/

def isLive (s : Store) (a : Address) : Bool := s.arena.isLive a

def typeOf (s : Store) (a : Address) : Except Failure ElementType :=
  return (← s.arena.fetch a).type

def accessOf (s : Store) (a : Address) : Except Failure Access :=
  return (← s.arena.fetch a).access

/-- The source and the target of a connector. -/
def endsOf (s : Store) (a : Address) : Except Failure (Address × Address) := do
  match (← s.arena.fetch a).ends? with
  | some ends => return ends
  | none => throw (.invalidType .notConnector)

/-- The number of members that a ring of `a` has by the count of its owner. -/
def ringSize (s : Store) (a : Address) (d : Direction) : Except Failure UInt32 :=
  return ((← s.arena.fetch a).ring d).count

/-- Refuses an element that is not a link. -/
def requireLink (s : Store) (a : Address) : Except Failure Unit := do
  unless (← s.typeOf a).isLink do throw (.invalidType .notLink)

/-- The content of a link, if it has any. -/
def contentOf (s : Store) (a : Address) : Except Failure (Option Bytes) := do
  s.requireLink a
  return s.contents.get? a

end Store

end SemanticNet
