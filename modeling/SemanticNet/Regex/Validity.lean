import SemanticNet.Regex.Set
import SemanticNet.Text.Alphanumeric

/-!
# Valid regular expressions

Whether a text is a regular expression that can be used to match. An expression is read once from
its front, with the mode that holds at each place, and what is learned about it is how deep it
nests. Expressions are written between braces, so that a brace opened in one is never closed in it.
-/

namespace SemanticNet.Regex

/-- How deep an expression may nest. -/
def depthLimit : Nat := 250

/-! ## Groups -/

/-- The mode with one flag set or cleared. Some flags do not matter for validity. -/
def Mode.withFlag? (m : Mode) (flag : Char) (value : Bool) : Option Mode :=
  match flag with
  | 'i' => some { m with ignoreCase := value }
  | 'u' => some { m with unicode := value }
  | 'x' => some { m with spaced := value }
  | 'm' | 's' | 'U' | 'R' => some m
  | _ => none

/-- What a parenthesis opens: a change of the mode for what follows, or a group with a mode of its
own. The names of groups are collected, as no two may be alike. -/
inductive Opening where
  | change (m : Mode) (rest : List Char)
  | group (m : Mode) (names : List (List Char)) (rest : List Char)
deriving Repr

/-- Reads flags. Those after a hyphen are cleared. Each may occur once, the hyphen too, which must
not be the last. -/
def readFlags? (names : List (List Char)) :
    List Char → Bool → Mode → List Char → Option Opening
  | _, _, _, [] => none
  | seen, value, m, c :: rest =>
    if c = ')' then if seen.isEmpty || seen.head? = some '-' then none else some (.change m rest)
    else if c = ':' then if seen.head? = some '-' then none else some (.group m names rest)
    else if seen.contains c then none
    else if c = '-' then readFlags? names (c :: seen) false m rest
    else do readFlags? names (c :: seen) value (← m.withFlag? c value) rest

/-- Whether characters are a name of a group. -/
def isName : List Char → Bool
  | [] => false
  | c :: rest =>
    (c == '_' || Text.isAlphabetic c) &&
      rest.all fun c => "_.[]".contains c || Text.isAlphanumeric c

/-- Reads the name of a group up to its closing angle bracket. -/
def readName? (m : Mode) (names : List (List Char)) (cs : List Char) : Option Opening :=
  let name := cs.takeWhile (· ≠ '>')
  match cs.dropWhile (· ≠ '>') with
  | _ :: rest =>
    if isName name && !names.contains name then some (.group m (name :: names) rest) else none
  | [] => none

/-- What follows an opening parenthesis. -/
def readOpening? (m : Mode) (names : List (List Char)) (cs : List Char) : Option Opening :=
  match m.skip cs with
  | '?' :: 'P' :: '<' :: rest | '?' :: '<' :: rest => readName? m names rest
  | '?' :: rest => readFlags? names [] true m rest
  | cs => some (.group m names cs)

/-! ## Expressions -/

/-- A part of a sequence: its depth, and whether it may be repeated. -/
structure Part where
  depth : Nat
  repeatable : Bool
deriving DecidableEq, Repr

/-- The depth of alternatives, the last of which is a sequence of parts. -/
def close (branches : Tally) (parts : List Part) : Tally :=
  branches.add (parts.foldl (fun t p => t.add p.depth) ({} : Tally)).total

/-- The depth of an expression up to its end or to a parenthesis that it has not opened, the names
of its groups with those before it, and what follows it. `branches` and `parts` are what has been
read of it, the last part first. -/
def readBody? : Nat → Mode → List (List Char) → Tally → List Part → List Char →
    Option (Nat × List (List Char) × List Char)
  | 0, _, _, _, _, _ => none
  | fuel + 1, m, names, branches, parts, cs =>
    match m.skip cs with
    | [] => some ((close branches parts).total, names, [])
    | ')' :: rest => some ((close branches parts).total, names, ')' :: rest)
    | '|' :: rest => readBody? fuel m names (close branches parts) [] rest
    | '(' :: rest => do
      match ← readOpening? m names rest with
      | .change m rest => readBody? fuel m names branches (⟨0, false⟩ :: parts) rest
      | .group inner names rest =>
        let (depth, names, rest) ← readBody? fuel inner names {} [] rest
        match rest with
        | [] => none
        | _ :: rest => readBody? fuel m names branches (⟨depth + 1, true⟩ :: parts) rest
    | '[' :: rest => do
      let (depth, rest) ← readSet? m fuel true none {} (← openSet? m rest)
      readBody? fuel m names branches (⟨depth, true⟩ :: parts) rest
    | '{' :: _ => none
    | c :: rest =>
      if "?*+".contains c then
        match parts with
        | ⟨depth, true⟩ :: parts =>
          let rest := match rest with
            | '?' :: rest => rest
            | rest => rest
          readBody? fuel m names branches (⟨depth + 1, true⟩ :: parts) rest
        | _ => none
      else do
        let (a, rest) ← readAtom? m (c :: rest)
        if m.admits a then readBody? fuel m names branches (⟨0, true⟩ :: parts) rest else none

/-- Whether a text is a regular expression. Reading takes a character at each step. -/
def isValid (cs : List Char) : Bool :=
  match readBody? (cs.length + 1) {} [] {} [] cs with
  | some (depth, _, []) => depth ≤ depthLimit
  | _ => false

end SemanticNet.Regex
