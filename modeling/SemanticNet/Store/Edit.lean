import SemanticNet.Store.Basic
import SemanticNet.ElementType.Narrowing

/-!
# Changes of one element

The type, the access levels and the content of an element may change; its kind and its ends may not.
-/

namespace SemanticNet.Store

/-- The type that `a` has after it was narrowed by `type`. -/
def narrowed (s : Store) (a : Address) (type : ElementType) : Except Failure ElementType := do
  match (← s.typeOf a).narrow? type with
  | some merged => return merged
  | none => throw (.invalidType .notNarrower)

/-- Narrows the type of an element. -/
def narrow (a : Address) (type : ElementType) : Step Store Unit := do
  let merged ← Step.ask (·.narrowed a type)
  onArena (Arena.alter a ({ · with type := merged }))

/-- Replaces the access levels of an element. -/
def setAccess (a : Address) (access : Access) : Step Store Unit :=
  onArena (Arena.alter a ({ · with access }))

/-- Replaces the content of a link. -/
def setContent (a : Address) (bytes : Bytes) : Step Store Unit := do
  Step.ask (·.requireLink a)
  Step.change (changeContents (·.set a bytes))

end SemanticNet.Store
