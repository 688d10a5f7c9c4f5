import SemanticNet.Session
import SemanticNet.Transaction

/-!
# Drafts

The work of a session inside a transaction. Elements are made and erased at once, and recorded.
Changes of type, levels and content are staged until the commit; the session itself sees them
before.
-/

namespace SemanticNet.Draft

open Work

/-! ## Questions -/

/-- The change that is staged for an element. -/
def revisionOf (w : Work) (a : Address) : Revision := (w.1.staged.revision? a).getD {}

/-- The type of an element with the staged bits. -/
def typeOf (c : Session) (w : Work) (a : Address) : Except Failure ElementType :=
  return (revisionOf w a).type.getD (← c.typeOf w.2 a)

/-- The levels of an element, or the staged ones. -/
def accessOf (c : Session) (w : Work) (a : Address) : Except Failure Access :=
  return (revisionOf w a).access.getD (← c.accessOf w.2 a)

/-- The content of a link, or the staged one. -/
def contentOf (c : Session) (w : Work) (a : Address) : Except Failure (Option Bytes) :=
  return (w.1.staged.content? a).or (← c.contentOf w.2 a)

/-! ## What happens at once -/

/-- Makes an element and records it. -/
def creating (x : Step Store Address) : Step Work Address := do
  onTransaction (Step.ask Transaction.ensureOpen)
  let a ← onStore x
  let _ ← onTransaction (Transaction.record (·.recordCreated a))
  return a

def addNode (c : Session) (type : ElementType) : Step Work Address := creating (c.addNode type)

def addLink (c : Session) (type : ElementType) : Step Work Address := creating (c.addLink type)

def connect (c : Session) (type : ElementType) (source target : Address) : Step Work Address :=
  creating (c.connect type source target)

def erase (c : Session) (a : Address) : Step Work (List Address) := do
  onTransaction (Step.ask Transaction.ensureOpen)
  let erased ← onStore (c.erase a)
  onTransaction (Transaction.stage fun b => erased.foldl (fun b a => (b.recordRemoved a).2) b)
  return erased

/-! ## What waits for the commit -/

/-- Narrows the type that an element has with the staged bits. -/
def narrow (c : Session) (a : Address) (type : ElementType) : Step Work Unit := do
  onStore (Step.ask (c.requireWrite · a))
  match (← Step.ask (typeOf c · a)).narrow? type with
  | none => throw (.invalidType .notNarrower)
  | some merged =>
    let r := revisionOf (← get) a
    onTransaction (Transaction.stage (·.recordRevision a { r with type := some merged }))

def setAccess (c : Session) (a : Address) (access : Access) : Step Work Unit := do
  onStore (Step.ask (c.requireWrite · a))
  let r := revisionOf (← get) a
  onTransaction (Transaction.stage (·.recordRevision a { r with access := some access }))

def setContent (c : Session) (a : Address) (bytes : Bytes) : Step Work Unit := do
  onStore (Step.ask (c.requireWrite · a))
  onStore (Step.ask (·.requireLink a))
  onTransaction (Transaction.stage (·.recordContent a bytes))

end SemanticNet.Draft
