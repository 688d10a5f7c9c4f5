import SemanticNet.Failure
import SemanticNet.FileTree
import SemanticNet.Settings.Text
import SemanticNet.Text.Utf8

/-!
# Settings in files

Settings are kept in a file of UTF-8 text.
-/

namespace SemanticNet.Settings

/-- Why settings could not be read from a file or written to one. -/
inductive FileFault where
  | unreadable
  | malformed
  | noFolder
  | unrepresentable
  | unwritable
deriving DecidableEq, Repr

/-- The settings in a file. -/
def load {m : Type → Type} [Monad m] (disk : Disk m) (path : String) :
    m (Except FileFault Settings) := do
  match (← disk.read? (.of path)).bind Utf8.decode? with
  | none => return .error .unreadable
  | some text =>
    match ofToml? text with
    | none => return .error .malformed
    | some s => return .ok s

/-- The names of the folder that a file is in. Names that do not lead anywhere are passed over at
the end of the text and before the name of the file. -/
def folderNames (path : String) : List String :=
  let stays (name : String) : Bool := name = "" || name = "."
  (((FileTree.namesOf path).reverse.dropWhile stays).tail.dropWhile stays).reverse

/-- Writes settings to a file. The folder that it is in is made if it is missing. -/
def persist (s : Settings) (path : String) : ExceptT FileFault (StateM FileTree) Unit := do
  let some (t, _) := (← get).makeFolders? (folderNames path) | throw .noFolder
  set t
  let some text := s.toToml? | throw .unrepresentable
  let some t := do t.write? (← t.locate? (.of path)) (Utf8.encode text) | throw .unwritable
  set t

end SemanticNet.Settings
