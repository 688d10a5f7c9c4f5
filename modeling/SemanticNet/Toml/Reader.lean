import SemanticNet.Toml.Basic

/-!
# Reading flat TOML documents

`read?` takes a whole document or nothing. Each reader takes its part from the front of a list of
characters and returns what follows.
-/

namespace SemanticNet.Toml

/-! ## Blanks and lines -/

def isBlank (c : Char) : Bool := c == ' ' || c == '\t'

def skipBlanks (cs : List Char) : List Char := cs.dropWhile isBlank

/-- What follows a line break. -/
def lineBreak? : List Char → Option (List Char)
  | '\n' :: rest => some rest
  | '\r' :: '\n' :: rest => some rest
  | _ => none

/-- What follows the end of a line: blanks and a comment may come before the line break, and the
document may end instead of it. -/
def lineEnd? (cs : List Char) : Option (List Char) :=
  let rest := match skipBlanks cs with
    | '#' :: rest => rest.dropWhile (!isControl ·)
    | rest => rest
  if rest.isEmpty then some [] else lineBreak? rest

/-- What follows blanks and line breaks. -/
def skipLines : List Char → List Char
  | '\r' :: '\n' :: rest => skipLines rest
  | c :: rest => if isBlank c || c = '\n' then skipLines rest else c :: rest
  | [] => []

/-! ## Numbers -/

/-- The value of a digit in a base up to sixteen. -/
def digit? (base : Nat) (c : Char) : Option Nat :=
  let n :=
    if c.isDigit then c.toNat - '0'.toNat
    else if 'a' ≤ c && c ≤ 'f' then c.toNat - 'a'.toNat + 10
    else if 'A' ≤ c && c ≤ 'F' then c.toNat - 'A'.toNat + 10
    else base
  if n < base then some n else none

/-- The value of digits after those of value `n`. An underscore may stand between two digits. -/
def digitsFrom? (base : Nat) (afterDigit : Bool) (n : Nat) : List Char → Option Nat
  | [] => if afterDigit then some n else none
  | c :: rest =>
    if c = '_' then if afterDigit then digitsFrom? base false n rest else none
    else do digitsFrom? base true (n * base + (← digit? base c)) rest

/-- A decimal number, which has no needless zero in front. -/
def decimal? : List Char → Option Nat
  | '0' :: _ :: _ => none
  | cs => digitsFrom? 10 false 0 cs

/-- An integer: decimal with or without a sign, or in another base without one. -/
def integer? (cs : List Char) : Option Int := do
  let n : Int ← match cs with
    | '0' :: 'x' :: rest => (digitsFrom? 16 false 0 rest).map Int.ofNat
    | '0' :: 'o' :: rest => (digitsFrom? 8 false 0 rest).map Int.ofNat
    | '0' :: 'b' :: rest => (digitsFrom? 2 false 0 rest).map Int.ofNat
    | '-' :: rest => (decimal? rest).map fun n => -Int.ofNat n
    | '+' :: rest => (decimal? rest).map Int.ofNat
    | _ => (decimal? cs).map Int.ofNat
  if inRange n then some n else none

/-! ## Quoted texts -/

/-- A part of a quoted text: some of its characters, or its end with the quotes that still belong to
the text. -/
inductive Piece where
  | inner (cs : List Char)
  | last (cs : List Char)
deriving Repr

/-- The character whose number has `n` hexadecimal digits. -/
def code? (n : Nat) (cs : List Char) : Option (Piece × List Char) := do
  if cs.length < n then none
  let value ← (cs.take n).foldlM (fun value c => return value * 16 + (← digit? 16 c)) 0
  if value.isValidChar then some (.inner [.ofNat value], cs.drop n) else none

/-- What stands after a backslash. In a text of several lines that may be a line break, which goes
together with all blanks and line breaks after it. -/
def escaped? (multi : Bool) : List Char → Option (Piece × List Char)
  | 'b' :: rest => some (.inner ['\x08'], rest)
  | 't' :: rest => some (.inner ['\t'], rest)
  | 'n' :: rest => some (.inner ['\n'], rest)
  | 'f' :: rest => some (.inner ['\x0c'], rest)
  | 'r' :: rest => some (.inner ['\r'], rest)
  | '"' :: rest => some (.inner ['"'], rest)
  | '\\' :: rest => some (.inner ['\\'], rest)
  | 'u' :: rest => code? 4 rest
  | 'U' :: rest => code? 8 rest
  | cs =>
    if multi then (lineBreak? (skipBlanks cs)).map fun rest => (.inner [], skipLines rest)
    else none

/-- The end of a text, before which up to two quotes may belong to it if it has several lines. -/
def closing (q : Quoting) (rest : List Char) : Piece × List Char :=
  let quotes := if q.isMulti then (rest.take 2).takeWhile (· == q.quote) else []
  (.last quotes, rest.drop quotes.length)

/-- The next piece of a quoted text. -/
def piece? (q : Quoting) (cs : List Char) : Option (Piece × List Char) :=
  if q.delimiter.isPrefixOf cs then some (closing q (cs.drop q.delimiter.length))
  else
    match cs with
    | [] => none
    | c :: rest =>
      if c = '\\' && q.hasEscapes then escaped? q.isMulti rest
      else if !isControl c then some (.inner [c], rest)
      else if q.isMulti then (lineBreak? cs).map fun rest => (.inner ['\n'], rest)
      else none

/-- A quoted text from its first piece on. Each piece takes a character at least, so `fuel` need not
exceed their number. -/
def piecesFrom? (q : Quoting) : Nat → List Char → Option (List Char × List Char)
  | 0, _ => none
  | fuel + 1, cs => do
    match ← piece? q cs with
    | (.last text, rest) => return (text, rest)
    | (.inner text, rest) =>
      let (more, rest) ← piecesFrom? q fuel rest
      return (text ++ more, rest)

/-- The rest of a quoted text after its first delimiter. -/
def pieces? (q : Quoting) (cs : List Char) : Option (String × List Char) :=
  let cs := if q.isMulti then (lineBreak? cs).getD cs else cs
  (piecesFrom? q (cs.length + 1) cs).map fun (text, rest) => (String.ofList text, rest)

/-! ## Documents -/

def isBareKey (c : Char) : Bool := c.isAlphanum || c == '_' || c == '-'

/-- A key, bare or in quotes on one line. -/
def key? : List Char → Option (String × List Char)
  | '"' :: rest => pieces? .basic rest
  | '\'' :: rest => pieces? .literal rest
  | cs =>
    let key := cs.takeWhile isBareKey
    if key.isEmpty then none else some (String.ofList key, cs.dropWhile isBareKey)

/-- A value that is not quoted. It ends where blanks, a comment or the end of the line may begin. -/
def word? (cs : List Char) : Option (Scalar × List Char) :=
  let inWord (c : Char) : Bool := !(isBlank c || c == '#' || c == '\n' || c == '\r')
  let rest := cs.dropWhile inWord
  match cs.takeWhile inWord with
  | ['t', 'r', 'u', 'e'] => some (.bool true, rest)
  | ['f', 'a', 'l', 's', 'e'] => some (.bool false, rest)
  | word => (integer? word).map fun n => (.integer n, rest)

def scalar? (cs : List Char) : Option (Scalar × List Char) :=
  let quoted (q : Quoting) (rest : List Char) : Option (Scalar × List Char) :=
    (pieces? q rest).map fun (s, rest) => (.text s, rest)
  match cs with
  | '"' :: '"' :: '"' :: rest => quoted .multiBasic rest
  | '"' :: rest => quoted .basic rest
  | '\'' :: '\'' :: '\'' :: rest => quoted .multiLiteral rest
  | '\'' :: rest => quoted .literal rest
  | _ => word? cs

/-- A key, an equals sign and a value. -/
def line? (cs : List Char) : Option (Line × List Char) := do
  let (key, rest) ← key? (skipBlanks cs)
  match skipBlanks rest with
  | '=' :: rest =>
    let (value, rest) ← scalar? (skipBlanks rest)
    return ((key, value), ← lineEnd? rest)
  | _ => none

/-- The lines of a document. Each takes a character at least, so `fuel` need not exceed their
number. -/
def linesFrom? : Nat → List Char → Option (List Line)
  | _, [] => some []
  | 0, _ => none
  | fuel + 1, cs =>
    match lineEnd? cs with
    | some rest => linesFrom? fuel rest
    | none => do
      let (line, rest) ← line? cs
      return line :: (← linesFrom? fuel rest)

/-- The lines of a document, in which no key may occur twice. A mark of the byte order may come
first. -/
def read? (text : String) : Option (List Line) := do
  let cs := match text.toList with
    | '\uFEFF' :: rest => rest
    | cs => cs
  let lines ← linesFrom? cs.length cs
  if (lines.map Prod.fst).Nodup then some lines else none

end SemanticNet.Toml
