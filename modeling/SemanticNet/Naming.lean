import SemanticNet.Session
import SemanticNet.ElementType.Catalogue

/-!
# System identifiers

An element is named by a constant common arc to a link that holds the name. A constant permanent
positive membership from the relation node `nrel_system_identifier` marks that arc. The relation
node names itself in the same way.
-/

namespace SemanticNet

/-- The five elements that make up one name. -/
structure Naming where
  element : Address
  arc : Address
  link : Address
  mark : Address
  relation : Address
deriving DecidableEq, Inhabited, Repr

namespace Naming

def ofQuintuple (q : Quintuple) : Naming :=
  ⟨q.main.source, q.main.connector, q.main.target, q.mark, q.origin⟩

/-- The name of the relation node. -/
def relationName : String := "nrel_system_identifier"

/-- Names are made of ASCII letters and digits, underscores and full stops. -/
def isNameChar (c : Char) : Bool := c.isAlphanum || c == '_' || c == '.'

def isValid (name : String) : Bool := !name.isEmpty && name.toList.all isNameChar

def check (name : String) : Except Failure Unit :=
  if isValid name then .ok () else .error (.invalidIdentifier name)

/-! ## Making a name -/

/-- Erases what was made for a name that came to nothing. -/
def discard (c : Session) (a : Address) : Step Store Unit := do
  if (← get).isLive a then
    try
      let _ ← c.erase a
    catch _ => pure ()

/-- Makes a link that holds the name and connects it with the element. When something fails on the
way, what was made before is erased. -/
def label (c : Session) (relation a : Address) (name : String) : Step Store Naming := do
  let link ← c.addLink .const
  try
    c.setContent link (Utf8.encode name)
    let arc ← c.connect .constCommonArc a link
    let mark ← c.connect .constPermPosArc relation arc
    pure ⟨a, arc, link, mark, relation⟩
  catch f =>
    discard c link
    throw f

/-! ## The relation node -/

/-- The relation nodes that name themselves through one of `links`. -/
def selfNamed (c : Session) : List Address → Step Store (List Address)
  | [] => return []
  | link :: rest => do
    let found ← c.quintuples
      { main := ⟨.any .constNorole, .any .constCommonArc, .fixed link⟩
        mark := .any .constPermPosArc
        origin := .any .constNorole } none
    let here := (found.filter fun q => q.main.source == q.origin).map (·.origin)
    return here ++ (← selfNamed c rest)

/-- Makes a relation node that names itself. When something fails on the way, what was made before
is erased. -/
def createRelation (c : Session) : Step Store Address := do
  let node ← c.addNode .constNorole
  try
    let n ← label c node node relationName
    pure n.element
  catch f =>
    discard c node
    throw f

/-- The relation node, made if there is none. There must not be two. -/
def resolveRelation (c : Session) : Step Store Address := do
  match ← selfNamed c (c.find (← get) (Utf8.encode relationName)) with
  | [] => createRelation c
  | node :: others =>
    if others.all (· == node) then return node else throw (.identifierTaken relationName)

/-! ## Names of other elements -/

/-- The first name that one of `links` holds. -/
def findAmong? (c : Session) (relation : Address) : List Address → Step Store (Option Naming)
  | [] => return none
  | link :: rest => do
    let found ← c.quintuples
      { main := ⟨.any .unknown, .any .constCommonArc, .fixed link⟩
        mark := .any .constPermPosArc
        origin := .fixed relation } (some 1)
    match found with
    | q :: _ => return some (ofQuintuple q)
    | [] => findAmong? c relation rest

/-- The elements of a name that is in use. -/
def find? (c : Session) (relation : Address) (name : String) : Step Store (Option Naming) := do
  Step.ask fun _ => check name
  findAmong? c relation (c.find (← get) (Utf8.encode name))

/-- The element that has a name. -/
def elementNamed? (c : Session) (relation : Address) (name : String) :
    Step Store (Option Address) :=
  return (← find? c relation name).map (·.element)

/-- The name of an element. -/
def nameOf? (c : Session) (relation a : Address) : Step Store (Option String) := do
  let found ← c.quintuples
    { main := ⟨.fixed a, .any .constCommonArc, .any .constLink⟩
      mark := .any .constPermPosArc
      origin := .fixed relation } (some 1)
  match found with
  | [] => return none
  | q :: _ => Step.ask (c.textOf · q.main.target)

/-- Gives a name to an element. The name must not be in use. -/
def assign (c : Session) (relation a : Address) (name : String) : Step Store Naming := do
  if (← find? c relation name).isSome then throw (.identifierTaken name)
  Step.ask (c.requireWrite · a)
  Step.ask (c.requireWrite · relation)
  label c relation a name

/-- The element that has a name or, if there is none, a new one of the given type. -/
def resolve (c : Session) (relation : Address) (name : String) (type : ElementType) :
    Step Store Address := do
  match ← elementNamed? c relation name with
  | some a => return a
  | none =>
    let a ← if type.isLink then c.addLink type else c.addNode type
    try
      let _ ← assign c relation a name
      pure a
    catch f =>
      let _ ← c.erase a
      throw f

end Naming

end SemanticNet
