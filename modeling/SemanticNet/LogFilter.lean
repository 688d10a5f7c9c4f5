import SemanticNet.Regex.Validity
import SemanticNet.Step
import SemanticNet.Text.Utf8

/-!
# Log filters

A filter is a list of directives between commas. A directive names a target, a span in brackets with
a field of the span in braces, and after an equals sign a level; any of these may be missing, but
not all. A field may have a value, which is a number or a regular expression. A log is installed
once.
-/

namespace SemanticNet

namespace LogFilter

/-! ## Values of fields -/

/-- Nothing, or the letter e with a power of ten. -/
def isExponent : List Char → Bool
  | [] => true
  | e :: rest =>
    let digits := match rest with
      | '+' :: rest | '-' :: rest => rest
      | rest => rest
    (e = 'e' || e = 'E') && !digits.isEmpty && digits.all Char.isDigit

/-- The numbers that have a name. They are read without regard to case. -/
def numberNames : List String := ["inf", "infinity", "nan"]

/-- A name or digits behind a sign that may be missing. One of the parts around the point may be
empty. -/
def isNumber (cs : List Char) : Bool :=
  let cs := match cs with
    | '+' :: rest | '-' :: rest => rest
    | cs => cs
  let whole := cs.takeWhile Char.isDigit
  let (fraction, rest) := match cs.dropWhile Char.isDigit with
    | '.' :: rest => (rest.takeWhile Char.isDigit, rest.dropWhile Char.isDigit)
    | rest => ([], rest)
  numberNames.contains (String.ofList (cs.map Char.toLower)) ||
    !(whole ++ fraction).isEmpty && isExponent rest

/-- Whether a field is well formed. Its value goes from the first equals sign to the second one, and
what follows that does not count. -/
def isField (cs : List Char) : Bool :=
  match cs.dropWhile (· ≠ '=') with
  | [] => true
  | _ :: rest =>
    let value := rest.takeWhile (· ≠ '=')
    isNumber value || Regex.isValid value

/-! ## Levels -/

/-- The names of the levels. They are read without regard to case. -/
def levelNames : List String := ["off", "error", "warn", "info", "debug", "trace"]

/-- A number of a level, from 0 to 5. -/
def isLevelNumber (cs : List Char) : Bool :=
  let digits := match cs with
    | '+' :: rest => rest
    | _ => cs
  !digits.isEmpty && digits.all Char.isDigit &&
    digits.foldl (fun n c => n * 10 + (c.toNat - '0'.toNat)) 0 ≤ 5

/-- Nothing, a name or a number. -/
def isLevel (cs : List Char) : Bool :=
  cs.isEmpty || levelNames.contains (String.ofList (cs.map Char.toLower)) || isLevelNumber cs

/-! ## Directives -/

/-- The part of a directive that is being read. Fields and levels are known by where they begin. -/
inductive Part where
  | start
  | target
  | span
  | field (first : Nat)
  | afterFields
  | afterSpan
  | level (first : Nat)
deriving DecidableEq, Repr

/-- Whether a directive may begin with this character, if not with a bracket. -/
def canBegin (c : Char) : Bool := Text.isAlphanumeric c || c == '-' || c == ':' || c == '_'

/-- The characters of a text from byte `first` up to byte `last`, if no character is cut there. -/
def slice? (text : Bytes) (first last : Nat) : Option (List Char) :=
  (Utf8.decode? ((text.take last).drop first)).map String.toList

/-- Whether the field between two positions of a text is there and well formed. -/
def isFieldAt (text : Bytes) (first last : Nat) : Bool :=
  (slice? text first last).any fun cs => !cs.isEmpty && isField cs

/-- The part that is being read after the character at position `i` of a directive in `text`. -/
def next? (text : Bytes) (i : Nat) : Part → Char → Option Part
  | .start, c => if c = '[' then some .span else if canBegin c then some .target else none
  | .target, c =>
    if c = '=' then some (.level (i + 1)) else if c = '[' then some .span else some .target
  | .span, c =>
    if c = ']' then some .afterSpan else if c = '\x7b' then some (.field (i + 1)) else some .span
  | .field first, c =>
    if c = '\x7d' then if isFieldAt text first i then some .afterFields else none
    else some (.field first)
  | .afterFields, c => if c = ']' then some .afterSpan else none
  | .afterSpan, c => if c = '=' then some (.level (i + 1)) else none
  | .level first, _ => some (.level first)

/-- The part that is being read when a directive ends, if it is well formed up to there. Positions
are counted in bytes. -/
def scan? (text : Bytes) (i : Nat) (part : Part) : List Char → Option Part
  | [] => some part
  | c :: rest => do scan? text (i + c.utf8Size) (← next? text i part c) rest

/-- Whether a directive is well formed. Blanks around it are passed over, but fields and levels are
looked up in the directive as it stands, at the positions that they have without the blanks in
front. -/
def isDirective (directive : String) : Bool :=
  let text := Utf8.encode directive
  match scan? text 0 .start (Text.trim directive.toList) with
  | some .target | some .afterSpan => true
  | some (.level first) => (slice? text first text.length).any isLevel
  | _ => false

/-- Whether a filter is well formed. Empty directives are passed over. -/
def isValid (filter : String) : Bool :=
  (filter.splitOn ",").all fun d => d.isEmpty || isDirective d

end LogFilter

/-- Whether a log has been installed. -/
structure Logging where
  installed : Bool := false
deriving DecidableEq, Inhabited, Repr

/-- Installs a log with a filter. The filter is checked first, so a bad one is told as such also
when there is a log already. -/
def Logging.install (filter : String) : Step Logging Unit := do
  unless LogFilter.isValid filter do throw (.invalidParams .logFilter)
  if (← get).installed then throw (.invalidParams .loggingInstalled)
  Step.change fun _ => { installed := true }

end SemanticNet
