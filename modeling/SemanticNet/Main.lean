import SemanticNet.Inspection.Basic

/-!
# The command line

Answers the questions of an inspection from the file system, prints its outcome and exits with its
code.
-/

namespace SemanticNet.CommandLine

/-- What can be read of an open file: nothing if it is a folder. -/
def readAll? (h : IO.FS.Handle) : IO (Option Bytes) := do
  try
    return some (← h.readBinToEnd).data.toList
  catch _ => return none

/-- What a place holds: `none` if it can not be opened, and `some none` if it is a folder. -/
def open? (place : Place) : IO (Option (Option Bytes)) := do
  try
    return some (← readAll? (← IO.FS.Handle.mk place.text .read))
  catch _ => return none

/-- The file system as a disk. -/
def disk : Disk IO where
  isFile place := return (← open? place).any (·.isSome)
  isFolder place := return (← open? place).any (·.isNone)
  read? place := return (← open? place).join

/-- The folder for the settings of programs. -/
def settingsFolder? : IO (Option String) := do
  let home := (← IO.getEnv "HOME").filter (!·.isEmpty)
  let own := (← IO.getEnv "XDG_CONFIG_HOME").filter (·.startsWith "/")
  return own.or (home.map (· ++ "/.config"))

end SemanticNet.CommandLine

def main (args : List String) : IO UInt32 := do
  let environment ← IO.getEnv "SC_MEMORY_CONFIG"
  let userFile := (← SemanticNet.CommandLine.settingsFolder?).map (· ++ "/sc-memory/config.toml")
  let outcome ← SemanticNet.Inspection.run SemanticNet.CommandLine.disk environment userFile args
  IO.print outcome.output
  IO.eprint outcome.errors
  return outcome.code
