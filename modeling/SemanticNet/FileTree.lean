import SemanticNet.Assoc
import SemanticNet.Contents

/-!
# File trees

A file tree holds files and folders by path. Programs name them by texts, from the root folder or
from the folder that they work in; a `Disk` is whatever answers questions about what a text names,
and a file tree is one. Links between files and who may read or write them are left out.
-/

namespace SemanticNet

/-- The names on the way from the root folder. -/
abbrev Path := List String

/-- What a text names, or a member of the folder that a text names. -/
inductive Place where
  | of (text : String)
  | inside (folder name : String)
deriving DecidableEq, Inhabited, Repr

/-- A place as one text. -/
def Place.text : Place → String
  | of text => text
  | inside folder name =>
    if folder.isEmpty || folder.endsWith "/" then folder ++ name else folder ++ "/" ++ name

/-- What can be asked about the places of a disk. -/
structure Disk (m : Type → Type) where
  isFile : Place → m Bool
  isFolder : Place → m Bool
  read? : Place → m (Option Bytes)

inductive Entry where
  | file (bytes : Bytes)
  | folder
deriving DecidableEq, Repr

/-- Files and folders by path, and the folder that programs work in, which is always there. What is
below that folder is kept by the names from there on, and everything else by its path. -/
structure FileTree where
  entries : List (Path × Entry) := []
  others : List (Path × Entry) := []
  here : Path := ["work"]
deriving Inhabited, Repr

namespace FileTree

def find? (t : FileTree) (p : Path) : Option Entry :=
  if p <+: t.here then some .folder
  else if t.here <+: p then t.entries.lookup (p.drop t.here.length)
  else t.others.lookup p

def isFileAt (t : FileTree) (p : Path) : Bool := (t.find? p).any (· ≠ .folder)

def isFolderAt (t : FileTree) (p : Path) : Bool := t.find? p = some .folder

def readAt? (t : FileTree) (p : Path) : Option Bytes :=
  match t.find? p with
  | some (.file bytes) => some bytes
  | _ => none

/-! ## Places -/

/-- How many bytes a name may have. -/
def nameLimit : Nat := 255

/-- How many bytes a text may have that names a place. -/
def textLimit : Nat := 4095

/-- Whether something can have this name. -/
def isName (name : String) : Bool := name.utf8ByteSize ≤ nameLimit && !name.contains '\x00'

/-- From the folder `here` to what a name denotes there. An empty name and a full stop stay, two
full stops go up, or stay at the root. -/
def walk? (t : FileTree) (here : Path) (name : String) : Option Path :=
  if !t.isFolderAt here || !isName name then none
  else if name = "" || name = "." then some here
  else if name = ".." then some here.dropLast
  else some (here ++ [name])

/-- The names of a text between its slashes. -/
def namesOf (text : String) : List String := text.splitOn "/"

/-- The folder where the names of a text start, and the names from there on: the root if the text
starts with a slash. -/
def start (t : FileTree) : List String → Path × List String
  | "" :: name :: names => ([], name :: names)
  | names => (t.here, names)

/-- Where names lead. Whatever is there, all above it is a folder. -/
def follow? (t : FileTree) (names : List String) : Option Path :=
  (t.start names).2.foldlM t.walk? (t.start names).1

/-- Whether a text is too long to name a place. -/
def isTooLong (text : String) : Bool := textLimit < text.utf8ByteSize

/-- The path of a text. The empty text names nothing. -/
def locateText? (t : FileTree) (text : String) : Option Path :=
  if text.isEmpty || isTooLong text then none else t.follow? (namesOf text)

/-- The path of a place. A member of the folder that the empty text stands for is one of the folder
that programs work in. -/
def locate? (t : FileTree) : Place → Option Path
  | .of text => t.locateText? text
  | .inside folder name => do
    if isTooLong (Place.inside folder name).text then none
    t.walk? (← t.follow? (namesOf folder)) name

/-- A file tree as a disk. -/
def disk (t : FileTree) : Disk Id where
  isFile place := (t.locate? place).any t.isFileAt
  isFolder place := (t.locate? place).any t.isFolderAt
  read? place := (t.locate? place).bind t.readAt?

/-! ## Changes -/

/-- Changes what is kept for a path. -/
def edit (t : FileTree) (p : Path)
    (f : Path → List (Path × Entry) → List (Path × Entry)) : FileTree :=
  if t.here <+: p then { t with entries := f (p.drop t.here.length) t.entries }
  else { t with others := f p t.others }

def put (t : FileTree) (p : Path) (e : Entry) : FileTree := t.edit p (Assoc.put · e)

def drop (t : FileTree) (p : Path) : FileTree := t.edit p Assoc.drop

/-- Goes to what a name denotes, and makes a folder there if nothing is there. -/
def enter? : FileTree × Path → String → Option (FileTree × Path)
  | (t, here), name => do
    let there ← t.walk? here name
    match t.find? there with
    | some .folder => return (t, there)
    | some (.file _) => none
    | none => return (t.put there .folder, there)

/-- Makes every folder on the way that is missing, unless a file is in the way. -/
def makeFolders? (t : FileTree) (names : List String) : Option (FileTree × Path) :=
  if isTooLong ("/".intercalate names) then none
  else (t.start names).2.foldlM enter? (t, (t.start names).1)

/-- Writes a file into a folder that is there. -/
def write? (t : FileTree) (p : Path) (bytes : Bytes) : Option FileTree :=
  if t.isFolderAt p.dropLast && !t.isFolderAt p then some (t.put p (.file bytes)) else none

/-- Moves a file to another path in a folder that is there, over a file that may be at that path. -/
def move? (t : FileTree) (source target : Path) : Option FileTree := do
  let bytes ← t.readAt? source
  let t ← t.write? target bytes
  return if source = target then t else t.drop source

end FileTree

end SemanticNet
