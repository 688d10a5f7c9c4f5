import SemanticNet.Repository
import SemanticNet.Draft
import SemanticNet.Keynodes

/-!
# Memories

A memory is a desk with the settings it was started with and the relation node of its names. It is
started from the dump in its repository, if there is one, and may leave a dump there when it ends.
-/

namespace SemanticNet

structure Memory extends Desk where
  settings : Settings
  relation : Address
deriving Inhabited

namespace Memory

/-- The store to start from: that of the dump, unless the settings ask for an empty one. -/
def openStore (files : FileTree) (settings : Settings) : Except Failure Store :=
  match settings.repository with
  | some folder =>
    if !settings.clear && Id.run (Repository.hasDump files.disk folder) then
      return (← Id.run (Repository.load files.disk folder settings)).1
    else
      return .ofSettings settings
  | none => return .ofSettings settings

/-- Starts a memory. Its relation node is resolved, or made, with the lowest levels. -/
def start (files : FileTree) (settings : Settings) : Except Failure Memory := do
  settings.validate
  let store ← openStore files settings
  let (relation, store) := (Naming.resolveRelation ⟨.lowest⟩).on store
  return { store, settings, relation := ← relation }

/-- Writes a dump into the repository. -/
def save (m : Memory) : Step FileTree Dump.Summary :=
  match m.settings.repository with
  | some folder => Repository.save m.store folder
  | none => throw .noRepository

/-- Ends a memory, with a dump if its settings ask for one. -/
def stop (m : Memory) : Step FileTree Unit := do
  if m.settings.saveOnShutdown then
    let _ ← m.save

end Memory

end SemanticNet
