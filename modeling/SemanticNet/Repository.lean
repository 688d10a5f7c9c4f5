import SemanticNet.Dump.Basic
import SemanticNet.FileTree

/-!
# Repositories

A repository is a folder that holds a dump. A new dump is written beside the old one and then moved
over it, so there is a whole dump at all times.
-/

namespace SemanticNet.Repository

/-- The name of the dump in its folder. -/
def dumpName : String := "segments.scdb"

/-- The name under which a dump is written first. -/
def draftName : String := "segments.scdb.tmp"

variable {m : Type → Type} [Monad m]

/-- Whether a folder holds a dump. -/
def hasDump (disk : Disk m) (folder : String) : m Bool := disk.isFile (.inside folder dumpName)

/-- The store of the dump in a folder. -/
def load (disk : Disk m) (folder : String) (settings : Settings) :
    m (Except Failure (Store × Dump.Summary)) := do
  unless ← disk.isFolder (.of folder) do return .error .noRepository
  match ← disk.read? (.inside folder dumpName) with
  | none => return .error .unreadable
  | some bytes => return Dump.decode Crc32.check settings bytes

/-- Fails when nothing came of a change of the tree. -/
def writing (change : FileTree → Option FileTree) : Step FileTree Unit := fun t =>
  match change t with
  | some t => (.ok (), t)
  | none => (.error .unwritable, t)

/-- The path of a folder, which is made if nothing is there. -/
def openFolder (folder : String) : Step FileTree Path := fun t =>
  match (t.locateText? folder).bind fun p => (t.find? p).map fun e => (p, e) with
  | some (p, .folder) => (.ok p, t)
  | some (_, .file _) => (.error .noRepository, t)
  | none =>
    match t.makeFolders? (FileTree.namesOf folder) with
    | some (t, p) => (.ok p, t)
    | none => (.error .unwritable, t)

/-- Writes the dump of a store into a folder. -/
def save (s : Store) (folder : String) : Step FileTree Dump.Summary := do
  let p ← openFolder folder
  let bytes := Dump.encode Crc32.check s
  writing (·.write? (p ++ [draftName]) bytes)
  writing (·.move? (p ++ [draftName]) (p ++ [dumpName]))
  return Dump.summarize s bytes

end SemanticNet.Repository
