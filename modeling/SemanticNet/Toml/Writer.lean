import SemanticNet.Toml.Basic

/-!
# Writing flat TOML documents

A text is quoted in the first way that shows it as it is: on one line with escapes allowed, on one
line without, on several lines likewise. A text that no way shows as it is gets escapes.
-/

namespace SemanticNet.Toml

/-- The length of the longest run of a character, where a run of length `n` came before. -/
def longestRun (c : Char) : Nat → List Char → Nat
  | n, [] => n
  | n, d :: rest => if d = c then longestRun c (n + 1) rest else max n (longestRun c 0 rest)

/-- The way in which a text is quoted. -/
def quotingFor (cs : List Char) : Quoting :=
  let clean := !cs.any fun c => isControl c && c != '\n'
  let plain := clean && !cs.contains '\\'
  let broken := cs.contains '\n'
  let doubles := longestRun '"' 0 cs
  let singles := longestRun '\'' 0 cs
  if plain && !broken && doubles = 0 then .basic
  else if clean && !broken && singles = 0 then .literal
  else if plain && doubles ≤ 2 then .multiBasic
  else if clean && singles ≤ 2 then .multiLiteral
  else if broken then .multiBasic
  else .basic

def upperHexDigit (n : Nat) : Char := (Nat.digitChar n).toUpper

/-- A character other than a quote, with an escape if it needs one. -/
def escape (multi : Bool) (c : Char) : List Char :=
  match c with
  | '\x08' => ['\\', 'b']
  | '\t' => ['\\', 't']
  | '\n' => if multi then ['\n'] else ['\\', 'n']
  | '\x0c' => ['\\', 'f']
  | '\r' => ['\\', 'r']
  | '\\' => ['\\', '\\']
  | c =>
    if isControl c then
      ['\\', 'u', '0', '0', upperHexDigit (c.toNat / 16), upperHexDigit (c.toNat % 16)]
    else [c]

/-- A text with escapes, after a run of `run` quotes. On several lines two quotes in a row stay as
they are. -/
def escapeFrom (multi : Bool) : Nat → List Char → List Char
  | _, [] => []
  | run, c :: rest =>
    if c = '"' then
      if run < (if multi then 2 else 0) then '"' :: escapeFrom multi (run + 1) rest
      else '\\' :: '"' :: escapeFrom multi 0 rest
    else escape multi c ++ escapeFrom multi 0 rest

/-- A text in quotes. A text of several lines starts on a line of its own. -/
def quoted (s : String) : String :=
  let cs := s.toList
  let q := quotingFor cs
  let opening := if q.isMulti && cs.contains '\n' then ['\n'] else []
  let inner := if q.hasEscapes then escapeFrom q.isMulti 0 cs else cs
  String.ofList (q.delimiter ++ opening ++ inner ++ q.delimiter)

/-- A value, unless it is an integer out of range. -/
def scalarText? : Scalar → Option String
  | .integer n => if inRange n then some (toString n) else none
  | .bool b => some (if b then "true" else "false")
  | .text s => some (quoted s)

/-- A document. Its keys have to be bare ones. -/
def write? (lines : List Line) : Option String :=
  (lines.mapM fun (key, value) => (scalarText? value).map fun v => key ++ " = " ++ v ++ "\n").map
    String.join

end SemanticNet.Toml
