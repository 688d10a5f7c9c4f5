import SemanticNet.Text.Blank

/-!
# Atoms of regular expressions

The smallest parts of a regular expression, and which of them may be used in a mode. Expressions are
meant for matching whole characters without tables of their properties. With characters beyond ASCII
in view, there is thus no telling digits, words or upper case apart; with bytes in view, nothing may
match a byte beyond ASCII.
-/

namespace SemanticNet.Regex

/-- How an expression is read from some point on: whether case is ignored, whether it is about
characters or about bytes, and whether blanks and comments in it are passed over. -/
structure Mode where
  ignoreCase : Bool := false
  unicode : Bool := true
  spaced : Bool := false
deriving DecidableEq, Inhabited, Repr

/-- Passes over blanks and comments. A comment goes from a number sign to the end of the line. -/
def skipFrom : Bool → List Char → List Char
  | _, [] => []
  | true, c :: rest => skipFrom (c != '\n') rest
  | false, c :: rest =>
    if Text.isBlank c then skipFrom false rest
    else if c = '#' then skipFrom true rest
    else c :: rest

/-- Passes over blanks and comments where the mode says so. -/
def Mode.skip (m : Mode) (cs : List Char) : List Char := if m.spaced then skipFrom false cs else cs

/-- What an expression is made of at the lowest level. -/
inductive Atom where
  /-- A character. -/
  | char (c : Char)
  /-- A character by a code of two digits, which is a byte when bytes are in view. -/
  | code (c : Char)
  /-- Any character of a line. -/
  | dot
  /-- The beginning or the end of a line or of the text. -/
  | edge
  /-- The beginning, the end or the inside of a word. -/
  | wordEdge
  /-- A digit, a blank or a character of a word, or anything but that. -/
  | sort (negated : Bool)
deriving DecidableEq, Repr

def isAscii (c : Char) : Bool := c.toNat < 0x80

/-- Whether an atom may stand outside of sets. -/
def Mode.admits (m : Mode) : Atom → Bool
  | .char _ => !(m.unicode && m.ignoreCase)
  | .code c => if m.unicode then !m.ignoreCase else isAscii c
  | .dot => m.unicode
  | .edge => true
  | .wordEdge => !m.unicode
  | .sort negated => !m.unicode && !negated

/-- Whether an atom may stand in a set. -/
def Mode.admitsInSet (m : Mode) : Atom → Bool
  | .char c | .code c => if m.unicode then !m.ignoreCase else isAscii c
  | .sort negated => !m.unicode && !negated
  | .dot | .edge | .wordEdge => false

/-! ## Escapes -/

def hexValue? (c : Char) : Option Nat :=
  if c.isDigit then some (c.toNat - '0'.toNat)
  else if 'a' ≤ c && c ≤ 'f' then some (c.toNat - 'a'.toNat + 10)
  else if 'A' ≤ c && c ≤ 'F' then some (c.toNat - 'A'.toNat + 10)
  else none

/-- The character whose code is written in as many digits as given, after the digits of `n`. -/
def readCode? (m : Mode) : Nat → Nat → List Char → Option (Char × List Char)
  | 0, n, cs => if n.isValidChar then some (.ofNat n, cs) else none
  | digits + 1, n, cs =>
    match m.skip cs with
    | [] => none
    | c :: rest => do readCode? m digits (16 * n + (← hexValue? c)) rest

/-- The control characters that have a letter. -/
def controls : List (Char × Char) :=
  [('a', '\x07'), ('f', '\x0c'), ('t', '\t'), ('n', '\n'), ('r', '\r'), ('v', '\x0b')]

/-- What comes after a backslash. Any mark of ASCII then means itself, while letters and digits that
have no meaning are refused. -/
def readEscape? (m : Mode) : List Char → Option (Atom × List Char)
  | [] => none
  | 'x' :: rest => do
    let (c, rest) ← readCode? m 2 0 rest
    return (.code c, rest)
  | 'u' :: rest => do
    let (c, rest) ← readCode? m 4 0 rest
    return (.char c, rest)
  | 'U' :: rest => do
    let (c, rest) ← readCode? m 8 0 rest
    return (.char c, rest)
  | c :: rest =>
    if "dsw".contains c then some (.sort false, rest)
    else if "DSW".contains c then some (.sort true, rest)
    else if "Az".contains c then some (.edge, rest)
    else if "bB<>".contains c then some (.wordEdge, rest)
    else
      match controls.lookup c with
      | some control => some (.char control, rest)
      | none => if isAscii c && !c.isAlphanum then some (.char c, rest) else none

/-- The next atom outside of sets. -/
def readAtom? (m : Mode) : List Char → Option (Atom × List Char)
  | [] => none
  | '\\' :: rest => readEscape? m rest
  | '.' :: rest => some (.dot, rest)
  | '^' :: rest | '$' :: rest => some (.edge, rest)
  | c :: rest => some (.char c, rest)

/-- The next atom in a set, where only the backslash is special. -/
def readMember? (m : Mode) : List Char → Option (Atom × List Char)
  | [] => none
  | '\\' :: rest => readEscape? m rest
  | c :: rest => some (.char c, rest)

/-! ## Depth -/

/-- The parts of something that have been read: how many, and how deep the deepest one nests. -/
structure Tally where
  count : Nat := 0
  depth : Nat := 0
deriving DecidableEq, Inhabited, Repr

/-- One more part of the given depth. -/
def Tally.add (t : Tally) (depth : Nat) : Tally := ⟨t.count + 1, max t.depth depth⟩

/-- The depth of the whole. Two or more parts are one level deeper than the deepest of them. -/
def Tally.total (t : Tally) : Nat := if t.count ≤ 1 then t.depth else t.depth + 1

end SemanticNet.Regex
