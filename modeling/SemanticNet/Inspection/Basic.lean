import SemanticNet.Inspection.Report
import SemanticNet.Inspection.Request
import SemanticNet.Repository
import SemanticNet.Settings.File

/-!
# Inspections

An inspection loads the dump of a repository and reports on it. The repository is the one that the
request names or else the one of the settings. The settings come from the file that the request
names, or else from the user's own file, if there is one.
-/

namespace SemanticNet.Inspection

/-- Why an inspection could not be made. -/
inductive Complaint where
  | misuse
  | settings (path : String) (fault : Settings.FileFault)
  | noRepository
  | noDump (repository : String)
  | store (f : Failure)
deriving DecidableEq, Repr

def Complaint.message : Complaint → String
  | misuse => "usage: [--config FILE] [--format text|json] stats|verify|segments [REPO]"
  | settings path .unreadable => s!"failed to read config {path}"
  | settings path .malformed => s!"failed to parse config {path}"
  | settings path .noFolder => s!"failed to create config directory for {path}"
  | settings _ .unrepresentable => "failed to serialize config"
  | settings path .unwritable => s!"failed to write config {path}"
  | noRepository => "no repository given and repo_path is not configured"
  | noDump repository => s!"no dump found in {repository}"
  | store f => f.message

/-- What an inspection leaves to its caller: the exit code, the output, and what went wrong. -/
structure Outcome where
  code : UInt32 := 0
  output : String := ""
  complaint : Option Complaint := none
deriving Repr

/-- The text for the error channel. -/
def Outcome.errors (o : Outcome) : String :=
  match o.complaint with
  | some c => s!"error: {c.message}\n"
  | none => ""

/-- A misuse has a code of its own. -/
def Outcome.refused (c : Complaint) : Outcome :=
  { code := if c = .misuse then 2 else 1, complaint := some c }

def versionText : String := "sc-inspect 0.4.0\n"

/-- Shows a report. The code tells whether it is a good one. -/
def Outcome.shown (layout : Layout) (r : Report) : Outcome :=
  { code := if r.isGood then 0 else 2
    output := match layout with
      | .text => r.text
      | .json => r.json.pretty ++ "\n" }

variable {m : Type → Type} [Monad m]

/-- The settings to work with. -/
def settingsFor (disk : Disk m) (userFile : Option String) (r : Request) :
    ExceptT Complaint m Settings := do
  let load (path : String) : ExceptT Complaint m Settings := do
    match ← ExceptT.lift (Settings.load disk path) with
    | .ok s => return s
    | .error fault => throw (.settings path fault)
  match r.settings, userFile with
  | some path, _ => load path
  | none, some path => if ← disk.isFile (.of path) then load path else return {}
  | none, none => return {}

/-- The report on what a request is about. -/
def reportFor (disk : Disk m) (userFile : Option String) (r : Request) :
    ExceptT Complaint m Report := do
  let settings ← settingsFor disk userFile r
  let some repository := r.repository.or settings.repository | throw .noRepository
  unless ← ExceptT.lift (Repository.hasDump disk repository) do throw (.noDump repository)
  match ← ExceptT.lift (Repository.load disk repository settings) with
  | .error f => throw (.store f)
  | .ok (s, dump) =>
    return match r.topic with
      | .statistics => .statistics repository dump s.statistics
      | .consistency => .consistency repository s.audit
      | .segments => .segments repository s.usage

/-- Makes the inspection that a command line asks for. -/
def run (disk : Disk m) (environment userFile : Option String) (args : List String) :
    m Outcome := do
  match Reading.of environment args with
  | .misuse => return .refused .misuse
  | .help => return { output := Complaint.misuse.message ++ "\n" }
  | .version => return { output := versionText }
  | .request r =>
    match ← (reportFor disk userFile r).run with
    | .error c => return .refused c
    | .ok report => return .shown r.layout report

end SemanticNet.Inspection
