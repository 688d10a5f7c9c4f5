import SemanticNet.Store.Create
import SemanticNet.Store.Edit
import SemanticNet.Store.Erase
import SemanticNet.Text.Utf8
import SemanticNet.Walk.Quintuples

/-!
# Sessions

A session is a caller with access levels. New elements get the levels of the session that makes
them. Whatever looks at an element needs the right to read it, whatever changes it the right to
write it. A new connector needs the right to write both of its ends.
-/

namespace SemanticNet

structure Session where
  levels : Access
deriving DecidableEq, Inhabited, Repr

namespace Session

def mayRead (c : Session) (s : Store) (a : Address) : Bool :=
  (s.arena.find? a).any fun e => c.levels.mayRead e.access

def requireRead (c : Session) (s : Store) (a : Address) : Except Failure Unit := do
  unless c.levels.mayRead (← s.accessOf a) do throw .noReadRights

def requireWrite (c : Session) (s : Store) (a : Address) : Except Failure Unit := do
  unless c.levels.mayWrite (← s.accessOf a) do throw .noWriteRights

/-! ## Questions -/

def typeOf (c : Session) (s : Store) (a : Address) : Except Failure ElementType := do
  c.requireRead s a
  s.typeOf a

def accessOf (c : Session) (s : Store) (a : Address) : Except Failure Access := do
  c.requireRead s a
  s.accessOf a

def endsOf (c : Session) (s : Store) (a : Address) : Except Failure (Address × Address) := do
  c.requireRead s a
  s.endsOf a

def sourceOf (c : Session) (s : Store) (a : Address) : Except Failure Address :=
  return (← c.endsOf s a).1

def targetOf (c : Session) (s : Store) (a : Address) : Except Failure Address :=
  return (← c.endsOf s a).2

def ringSize (c : Session) (s : Store) (a : Address) (d : Direction) : Except Failure UInt32 := do
  c.requireRead s a
  s.ringSize a d

def contentOf (c : Session) (s : Store) (a : Address) : Except Failure (Option Bytes) := do
  c.requireRead s a
  s.contentOf a

/-- The content of a link as text. -/
def textOf (c : Session) (s : Store) (a : Address) : Except Failure (Option String) :=
  return (← c.contentOf s a).map Utf8.decodeLossy

/-- The readable links whose content is `bytes`. -/
def find (c : Session) (s : Store) (bytes : Bytes) : List Address :=
  (s.contents.find bytes).filter (c.mayRead s ·)

/-- The readable links whose content contains `needle`. -/
def findContaining (c : Session) (s : Store) (needle : Bytes) : List Address :=
  (s.contents.findContaining needle).filter (c.mayRead s ·)

/-- The contents that contain `needle`, those of links that the session may not read among them:
unlike the two searches for links, this one asks for no right. -/
def contentsContaining (_ : Session) (s : Store) (needle : Bytes) : List Bytes :=
  s.contents.contentsContaining needle

/-! ## Changes -/

def addNode (c : Session) (type : ElementType) : Step Store Address := Store.addNode type c.levels

def addLink (c : Session) (type : ElementType) : Step Store Address := Store.addLink type c.levels

def connect (c : Session) (type : ElementType) (source target : Address) : Step Store Address := do
  if source.isEmpty || target.isEmpty then throw (.invalidParams .emptyEndpoint)
  Step.ask (c.requireWrite · source)
  Step.ask (c.requireWrite · target)
  Store.connect type source target c.levels

def erase (c : Session) (a : Address) : Step Store (List Address) := do
  Step.ask (c.requireWrite · a)
  Store.erase a

def narrow (c : Session) (a : Address) (type : ElementType) : Step Store Unit := do
  Step.ask (c.requireWrite · a)
  Store.narrow a type

def setAccess (c : Session) (a : Address) (access : Access) : Step Store Unit := do
  Step.ask (c.requireWrite · a)
  Store.setAccess a access

def setContent (c : Session) (a : Address) (bytes : Bytes) : Step Store Unit := do
  Step.ask (c.requireWrite · a)
  Store.setContent a bytes

/-! ## Walks -/

def triples (c : Session) (pattern : Pattern) (limit : Option Nat) : Step Store (List Triple) :=
  Store.triples pattern c.levels limit

def quintuples (c : Session) (pattern : MarkedPattern) (limit : Option Nat) :
    Step Store (List Quintuple) :=
  Store.quintuples pattern c.levels limit

end Session

end SemanticNet
