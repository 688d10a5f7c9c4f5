/-!
# JSON

Values of the JSON format and how they are laid out: one member to a line, two blanks of indentation
for each level, and an empty array or object as two brackets.
-/

namespace SemanticNet

/-- A JSON value. A number with `places` digits after its point is no integer, whatever they are. -/
inductive Json where
  | null
  | bool (b : Bool)
  | integer (n : Int)
  | decimal (mantissa : Int) (places : Nat)
  | text (s : String)
  | array (items : List Json)
  | object (fields : List (String × Json))
deriving Inhabited, Repr

namespace Json

/-- The characters that stand for one character of a text. Control characters without a short form
are written by their number. -/
def escape (c : Char) : List Char :=
  match c with
  | '"' => ['\\', '"']
  | '\\' => ['\\', '\\']
  | '\n' => ['\\', 'n']
  | '\r' => ['\\', 'r']
  | '\t' => ['\\', 't']
  | '\x08' => ['\\', 'b']
  | '\x0c' => ['\\', 'f']
  | c =>
    if c.toNat < 0x20 then
      ['\\', 'u', '0', '0', Nat.digitChar (c.toNat / 16), Nat.digitChar (c.toNat % 16)]
    else [c]

def quoted (s : String) : String := "\"" ++ String.ofList (s.toList.flatMap escape) ++ "\""

/-- A number with a point before its last `places` digits. -/
def decimalText (mantissa : Int) (places : Nat) : String :=
  let digits := Nat.toDigits 10 mantissa.natAbs
  let digits := List.replicate (places + 1 - digits.length) '0' ++ digits
  let whole := digits.take (digits.length - places)
  let rest := digits.drop (digits.length - places)
  (if mantissa < 0 then "-" else "") ++ String.ofList (whole ++ '.' :: rest)

/-- The start of a line at a level. -/
def newLine (level : Nat) : String := "\n" ++ String.ofList (List.replicate (2 * level) ' ')

/-- Members in brackets, each on a line of its own. -/
def bracketed (opening closing : String) (level : Nat) (members : List String) : String :=
  if members.isEmpty then opening ++ closing
  else
    opening ++ ",".intercalate (members.map (newLine (level + 1) ++ ·)) ++ newLine level ++ closing

mutual

/-- The layout of a value whose opening bracket is on a line of the given level. -/
def layout (level : Nat) : Json → String
  | null => "null"
  | bool b => if b then "true" else "false"
  | integer n => toString n
  | decimal mantissa places => decimalText mantissa places
  | text s => quoted s
  | array items => bracketed "[" "]" level (layoutItems (level + 1) items)
  | object fields => bracketed "\x7b" "\x7d" level (layoutFields (level + 1) fields)

def layoutItems (level : Nat) : List Json → List String
  | [] => []
  | v :: rest => layout level v :: layoutItems level rest

def layoutFields (level : Nat) : List (String × Json) → List String
  | [] => []
  | (k, v) :: rest => (quoted k ++ ": " ++ layout level v) :: layoutFields level rest

end

/-- The text of a value. -/
def pretty (v : Json) : String := v.layout 0

end Json

end SemanticNet
