import SemanticNet.Naming
import SemanticNet.Assoc

/-!
# Keynodes

Elements that a program knows by name. They are resolved together when it starts; the first one that
can not be resolved ends the attempt.
-/

namespace SemanticNet

/-- The name of a keynode, and the type it gets if it has to be made. -/
structure KeynodeSpec where
  name : String
  type : ElementType := .constNode
deriving DecidableEq, Inhabited, Repr

/-- Resolved keynodes by name. -/
structure Keynodes where
  entries : List (String × Address) := []
deriving DecidableEq, Inhabited, Repr

namespace Keynodes

def find? (k : Keynodes) (name : String) : Option Address := k.entries.lookup name

def require (k : Keynodes) (name : String) : Except Failure Address :=
  match k.find? name with
  | some a => .ok a
  | none => .error .unknownKeynode

def size (k : Keynodes) : Nat := k.entries.length

/-- Resolves one keynode. A failure is told with the name it concerns. -/
def resolveOne (c : Session) (relation : Address) (spec : KeynodeSpec) : Step Store Address :=
  tryCatch (Naming.resolve c relation spec.name spec.type) fun f => throw (.keynode spec.name f)

/-- Resolves keynodes on top of those in `k`. -/
def resolveOnto (c : Session) (relation : Address) (k : Keynodes) :
    List KeynodeSpec → Step Store Keynodes
  | [] => return k
  | spec :: rest => do
    let a ← resolveOne c relation spec
    resolveOnto c relation ⟨Assoc.put spec.name a k.entries⟩ rest

/-- Resolves keynodes, making those that are missing. -/
def resolve (c : Session) (relation : Address) (specs : List KeynodeSpec) : Step Store Keynodes :=
  resolveOnto c relation {} specs

end Keynodes

end SemanticNet
