import SemanticNet.Staging
import SemanticNet.Store.Edit

/-!
# Transactions

A transaction stages changes and applies them all at once, or none of them: `plan` looks for the
first change that the store would refuse before any is applied. A `Ledger` gives out the numbers of
transactions and counts those that are open; a `Desk` is a ledger with the store its transactions
work on. Numbers run up to `2 ^ 64 - 1`, which is taken to be more than are ever begun, so they are
plain numbers, as is the count of the open ones.
-/

namespace SemanticNet

/-- The life of a transaction, as it stands between calls. The last two phases are final. -/
inductive Phase where
  | created
  | active
  | committed
  | rolledBack
deriving DecidableEq, Inhabited, Repr

def Phase.isFinal : Phase → Bool
  | committed | rolledBack => true
  | created | active => false

structure Transaction where
  id : Nat
  phase : Phase := .created
  staged : Staging := {}
deriving DecidableEq, Inhabited, Repr

namespace Transaction

def isOpen (x : Transaction) : Bool := !x.phase.isFinal

def ensureOpen (x : Transaction) : Except Failure Unit :=
  if x.isOpen then .ok () else .error (.invalidState .finished)

/-- Records something. A fresh transaction becomes active. -/
def record (f : Staging → α × Staging) : Step Transaction α := do
  Step.ask ensureOpen
  let x ← get
  let (r, staged) := f x.staged
  set { x with phase := .active, staged }
  return r

/-- Records something that has no answer. -/
def stage (f : Staging → Staging) : Step Transaction Unit := record fun b => ((), f b)

end Transaction

/-- One change to apply to a store. -/
inductive Change where
  | setType (a : Address) (type : ElementType)
  | setAccess (a : Address) (access : Access)
  | setContent (a : Address) (bytes : Bytes)
deriving DecidableEq, Repr

namespace Store

/-- The changes that a revision comes to. -/
def planRevision (s : Store) (a : Address) (r : Revision) : Except Failure (List Change) := do
  let retypes ← match r.type with
    | some type => pure [Change.setType a (← s.narrowed a type)]
    | none => do
      let _ ← s.typeOf a
      pure []
  return retypes ++ r.access.toList.map (.setAccess a)

def planRevisions (s : Store) : List (Address × Revision) → Except Failure (List Change)
  | [] => return []
  | (a, r) :: rest => return (← s.planRevision a r) ++ (← s.planRevisions rest)

def planContents (s : Store) : List (Address × Bytes) → Except Failure (List Change)
  | [] => return []
  | (a, bytes) :: rest => do
    s.requireLink a
    return .setContent a bytes :: (← s.planContents rest)

/-- All staged changes, or why the store refuses the first one that it refuses. Revisions come
before contents. -/
def plan (s : Store) (b : Staging) : Except Failure (List Change) :=
  return (← s.planRevisions b.revisions) ++ (← s.planContents b.contents)

def apply : Change → Step Store Unit
  | .setType a type => onArena (Arena.alter a ({ · with type }))
  | .setAccess a access => setAccess a access
  | .setContent a bytes => setContent a bytes

def applyAll : List Change → Step Store Unit
  | [] => return ()
  | c :: rest => do
    apply c
    applyAll rest

end Store

/-- What a transaction works with: itself and the store. -/
abbrev Work := Transaction × Store

namespace Work

def onStore (x : Step Store α) : Step Work α :=
  Step.within (·.2) (fun s w => (w.1, s)) default x

def onTransaction (x : Step Transaction α) : Step Work α :=
  Step.within (·.1) (fun t w => (t, w.2)) default x

end Work

namespace Transaction

/-- Applies every staged change. When the store refuses one, none is applied and the transaction
stays open. -/
def commit : Step Work Unit := do
  Work.onTransaction (Step.ask ensureOpen)
  try
    let changes ← Step.ask fun (x, s) => s.plan x.staged
    Work.onStore (Store.applyAll changes)
  catch f =>
    Work.onTransaction (Step.change ({ · with phase := .active }))
    throw f
  Work.onTransaction (Step.change ({ · with phase := .committed, staged := {} }))

/-- Drops every staged change. Doing so twice is allowed, after a commit it is not. -/
def rollback : Step Transaction Unit := do
  match (← get).phase with
  | .rolledBack => return ()
  | .committed => throw (.invalidState .committed)
  | _ => Step.change ({ · with phase := .rolledBack, staged := {} })

end Transaction

/-- How many transactions were begun, and how many of them are open. -/
structure Ledger where
  issued : Nat := 0
  active : Nat := 0
deriving DecidableEq, Inhabited, Repr

/-- Strikes a transaction off the open ones if it was open before and is not any more. -/
def Ledger.settle (l : Ledger) (before after : Transaction) : Ledger :=
  if before.isOpen && !after.isOpen then { l with active := l.active - 1 } else l

/-- A store with the ledger of the transactions that work on it. -/
structure Desk where
  ledger : Ledger := {}
  store : Store
deriving Inhabited

namespace Desk

/-- Begins a transaction with the next number. Numbers start at 1. -/
def begin (d : Desk) : Transaction × Desk :=
  let id := d.ledger.issued + 1
  ({ id }, { d with ledger := ⟨id, d.ledger.active + 1⟩ })

/-- Runs a step of one transaction. -/
def run (d : Desk) (x : Transaction) (step : Step Work α) :
    Except Failure α × Transaction × Desk :=
  let ledger := d.ledger
  let (r, x', store) := step (x, d.store)
  (r, x', ⟨ledger.settle x x', store⟩)

/-- Runs a step that concerns the store alone. -/
def onStore (x : Step Store α) : Step Desk α :=
  Step.within (·.store) (fun s d => { d with store := s }) default x

/-- Lets go of a transaction. One that is open is rolled back. -/
def discard (d : Desk) (x : Transaction) : Desk :=
  (d.run x (Work.onTransaction Transaction.rollback)).2.2

end Desk

end SemanticNet
