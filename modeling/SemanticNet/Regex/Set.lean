import SemanticNet.Regex.Atom

/-!
# Sets of characters

A set stands in brackets and lists characters, ranges, named classes and other sets. Two lists may
be combined by an operator: `&&` for what is in both, `--` for what is in the first only, and `~~`
for what is in one only.
-/

namespace SemanticNet.Regex

/-- The names of the classes of ASCII characters. -/
def classNames : List String :=
  ["alnum", "alpha", "ascii", "blank", "cntrl", "digit", "graph", "lower", "print", "punct",
    "space", "upper", "word", "xdigit"]

/-- A named class after its first bracket: whether it is negated, and what follows it. A bracket
that opens no such class opens a set. -/
def readClass? : List Char → Option (Bool × List Char)
  | ':' :: rest =>
    let (negated, rest) := match rest with
      | '^' :: rest => (true, rest)
      | rest => (false, rest)
    match rest.dropWhile (· ≠ ':') with
    | ':' :: ']' :: after =>
      if classNames.contains (String.ofList (rest.takeWhile (· ≠ ':'))) then some (negated, after)
      else none
    | _ => none
  | _ => none

/-- Whether a named class may be used. -/
def Mode.admitsClass (m : Mode) (negated : Bool) : Bool :=
  if m.unicode then !m.ignoreCase else !negated

/-- The character by which it is decided whether a hyphen makes a range. Behind a number sign it is
the first visible one of the comment. -/
def Mode.afterHyphen? (m : Mode) (cs : List Char) : Option Char :=
  if m.spaced then
    match cs.dropWhile Text.isBlank with
    | '#' :: rest => (rest.dropWhile Text.isBlank).head?.or cs.head?
    | visible => visible.head?.or cs.head?
  else
    cs.head?

/-- The code of an atom that may be an end of a range. -/
def Atom.code? : Atom → Option Nat
  | .char c | .code c => some c.toNat
  | _ => none

/-- What follows a character or a range in a set. -/
def readRange? (m : Mode) (cs : List Char) : Option (List Char) := do
  let (low, rest) ← readMember? m cs
  unless m.admitsInSet low do none
  let rest := m.skip rest
  match rest with
  | '-' :: after =>
    let next := m.afterHyphen? after
    if next = some ']' || next = some '-' then
      return rest
    else
      let (high, rest) ← readMember? m (m.skip after)
      unless m.admitsInSet high do none
      if (← low.code?) ≤ (← high.code?) then some rest else none
  | _ => return rest

/-- The depth of a list with what is combined with it on the left. -/
def combine (left : Option Nat) (items : Tally) : Nat :=
  match left with
  | none => items.total
  | some depth => max depth items.total + 1

/-- What follows the first bracket of a set. A caret there negates the set, which with bytes in view
would let bytes beyond ASCII in. -/
def openSet? (m : Mode) (cs : List Char) : Option (List Char) :=
  match m.skip cs with
  | '^' :: rest => if m.unicode then some rest else none
  | cs => some cs

/-- The depth of a set that has been opened, and what follows it. At its beginning, hyphens and then
a closing bracket are members. -/
def readSet? (m : Mode) :
    Nat → Bool → Option Nat → Tally → List Char → Option (Nat × List Char)
  | 0, _, _, _, _ => none
  | fuel + 1, atStart, left, items, cs =>
    match m.skip cs with
    | [] => none
    | c :: rest =>
      if atStart && (c = '-' || c = ']' && items.count = 0) then
        if m.admitsInSet (.char c) then readSet? m fuel (c = '-') left (items.add 0) rest else none
      else
        match c, rest with
        | ']', _ => some (combine left items + 1, rest)
        | '[', _ =>
          match readClass? rest with
          | some (negated, rest) =>
            if m.admitsClass negated then readSet? m fuel false left (items.add 0) rest else none
          | none => do
            let (depth, rest) ← readSet? m fuel true none {} (← openSet? m rest)
            readSet? m fuel false left (items.add depth) rest
        | '&', '&' :: rest | '-', '-' :: rest | '~', '~' :: rest =>
          readSet? m fuel false (some (combine left items)) {} rest
        | _, _ => do readSet? m fuel false left (items.add 0) (← readRange? m (c :: rest))

end SemanticNet.Regex
