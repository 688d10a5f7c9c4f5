import SemanticNet.Assoc
import SemanticNet.Contents
import SemanticNet.Access
import SemanticNet.ElementType.Basic

/-!
# Staged changes

What one transaction has recorded: the addresses it created and removed, each once and in the order
in which they were first recorded, and the changes that wait for the commit, at most one of each
sort for an address. Removing an address drops what was staged for it.

Whether an address is on a roll is asked of a set that is kept beside the list.
-/

namespace SemanticNet

/-- A change of an element that waits for the commit. What is absent stays as it is. -/
structure Revision where
  type : Option ElementType := none
  access : Option Access := none
deriving DecidableEq, Inhabited, Repr

/-- Addresses in the order in which they were entered, and the set of them. -/
structure Roll where
  order : List Address := []
  known : Std.ExtTreeSet Address := ∅
deriving DecidableEq, Inhabited, Repr

/-- Enters an address at the end, unless the set has it, and says whether it was new. -/
def Roll.enter (r : Roll) (a : Address) : Bool × Roll :=
  if a ∈ r.known then (false, r) else (true, ⟨r.order ++ [a], r.known.insert a⟩)

structure Staging where
  creations : Roll := {}
  removals : Roll := {}
  revisions : List (Address × Revision) := []
  contents : List (Address × Bytes) := []
deriving DecidableEq, Inhabited, Repr

namespace Staging

/-- The addresses that were created, in the order in which they were first recorded. -/
def created (b : Staging) : List Address := b.creations.order

/-- The addresses that were removed, in the order in which they were first recorded. -/
def removed (b : Staging) : List Address := b.removals.order

/-- Records a creation, and says whether it is the first of that address. -/
def recordCreated (b : Staging) (a : Address) : Bool × Staging :=
  let (isNew, creations) := b.creations.enter a
  (isNew, { b with creations })

/-- Records a removal, and says whether it is the first of that address. -/
def recordRemoved (b : Staging) (a : Address) : Bool × Staging :=
  let (isNew, removals) := b.removals.enter a
  (isNew, { b with
    removals
    revisions := Assoc.drop a b.revisions
    contents := Assoc.drop a b.contents })

def recordRevision (b : Staging) (a : Address) (r : Revision) : Staging :=
  { b with revisions := Assoc.put a r b.revisions }

def recordContent (b : Staging) (a : Address) (bytes : Bytes) : Staging :=
  { b with contents := Assoc.put a bytes b.contents }

def revision? (b : Staging) (a : Address) : Option Revision := b.revisions.lookup a

def content? (b : Staging) (a : Address) : Option Bytes := b.contents.lookup a

def wasRemoved (b : Staging) (a : Address) : Bool := a ∈ b.removals.known

theorem revision?_recordRevision (b : Staging) (a c : Address) (r : Revision) :
    (b.recordRevision a r).revision? c = if c = a then some r else b.revision? c :=
  Assoc.lookup_put a c r b.revisions

theorem content?_recordContent (b : Staging) (a c : Address) (bytes : Bytes) :
    (b.recordContent a bytes).content? c = if c = a then some bytes else b.content? c :=
  Assoc.lookup_put a c bytes b.contents

/-- Nothing is staged any more for an address that was removed. -/
theorem revision?_recordRemoved (b : Staging) (a c : Address) :
    (b.recordRemoved a).2.revision? c = if c = a then none else b.revision? c :=
  Assoc.lookup_drop a c b.revisions

theorem content?_recordRemoved (b : Staging) (a c : Address) :
    (b.recordRemoved a).2.content? c = if c = a then none else b.content? c :=
  Assoc.lookup_drop a c b.contents

/-- Every address for which a change waits, in ascending order and each once. -/
def addresses (b : Staging) : List Address :=
  (Std.ExtTreeSet.ofList (b.revisions.map Prod.fst ++ b.contents.map Prod.fst) compare).toList

/-- Whether nothing has been recorded. -/
def isEmpty (b : Staging) : Bool :=
  b.created.isEmpty && b.removed.isEmpty && b.revisions.isEmpty && b.contents.isEmpty

end Staging

end SemanticNet
