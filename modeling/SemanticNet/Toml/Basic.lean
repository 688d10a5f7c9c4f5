/-!
# Flat TOML documents

A flat document is a list of keys with a value each: an integer, a truth value or a text. A text may
be quoted in four ways. Arrays, tables, fractions and dates do not occur in flat documents.
-/

namespace SemanticNet.Toml

inductive Scalar where
  | integer (n : Int)
  | bool (b : Bool)
  | text (s : String)
deriving DecidableEq, Repr

/-- A key with its value. -/
abbrev Line := String × Scalar

/-- The four ways to quote a text: with escapes or as it is, on one line or on several. -/
inductive Quoting where
  | basic
  | literal
  | multiBasic
  | multiLiteral
deriving DecidableEq, Repr

namespace Quoting

def quote : Quoting → Char
  | basic | multiBasic => '"'
  | literal | multiLiteral => '\''

/-- Whether a backslash begins an escape. -/
def hasEscapes : Quoting → Bool
  | basic | multiBasic => true
  | literal | multiLiteral => false

/-- Whether the text may have several lines. Then three quotes stand at each end. -/
def isMulti : Quoting → Bool
  | multiBasic | multiLiteral => true
  | basic | literal => false

def delimiter (q : Quoting) : List Char := List.replicate (if q.isMulti then 3 else 1) q.quote

end Quoting

/-- The values that an integer of a document may have. -/
def inRange (n : Int) : Bool := Int64.minValue.toInt ≤ n && n ≤ Int64.maxValue.toInt

/-- A control character has no place in a document; tabs are none. -/
def isControl (c : Char) : Bool := (c.toNat < 0x20 && c != '\t') || c.toNat == 0x7F

end SemanticNet.Toml
