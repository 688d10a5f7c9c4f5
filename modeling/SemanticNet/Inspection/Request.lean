/-!
# What an inspection is asked for

The arguments of the command line: a topic, the folder of a repository, and two options that may
stand before the topic or after it. What stands after the topic wins, but twice on one side is an
error.
-/

namespace SemanticNet.Inspection

/-- What to look at. -/
inductive Topic where
  | statistics
  | consistency
  | segments
deriving DecidableEq, Repr

def Topic.ofName? : String → Option Topic
  | "stats" => some .statistics
  | "verify" => some .consistency
  | "segments" => some .segments
  | _ => none

/-- How to show it. -/
inductive Layout where
  | text
  | json
deriving DecidableEq, Repr

def Layout.ofName? : String → Option Layout
  | "text" => some .text
  | "json" => some .json
  | _ => none

/-- The options given on one side of the topic. -/
structure Options where
  settings : Option String := none
  layout : Option Layout := none
deriving DecidableEq, Repr

structure Request where
  topic : Topic
  repository : Option String
  settings : Option String
  layout : Layout
deriving DecidableEq, Repr

/-- What the arguments come to. -/
inductive Reading where
  | request (r : Request)
  | version
  | help
  | misuse
deriving DecidableEq, Repr

/-- An argument by its form. -/
inductive Argument where
  | word (text : String)
  | long (name : String) (value : Option String)
  | short (name : Char)
  | divider
deriving DecidableEq, Repr

/-- A hyphen alone is a word. A long option may bring its value after an equals sign. -/
def Argument.of (text : String) : Argument :=
  match text.toList with
  | ['-', '-'] => .divider
  | '-' :: '-' :: cs =>
    let name := String.ofList (cs.takeWhile (· ≠ '='))
    match cs.dropWhile (· ≠ '=') with
    | _ :: value => .long name (some (String.ofList value))
    | [] => .long name none
  | '-' :: c :: _ => .short c
  | _ => .word text

namespace Options

def isOption (name : String) : Bool := name == "config" || name == "format"

/-- Adds an option, unless it is there or its value is not suitable. -/
def add? (o : Options) (name value : String) : Option Options :=
  match name with
  | "config" =>
    if o.settings.isSome || value.isEmpty then none else some { o with settings := some value }
  | "format" => do
    if o.layout.isSome then none
    return { o with layout := some (← Layout.ofName? value) }
  | _ => none

/-- Takes the value of an option, which may be the next argument if that is a word, and returns what
is left of the arguments. -/
def take? (o : Options) (name : String) (value : Option String) (rest : List String) :
    Option (Options × List String) :=
  match value, rest with
  | some value, _ => (o.add? name value).map fun o => (o, rest)
  | none, next :: rest =>
    match Argument.of next with
    | .word value => (o.add? name value).map fun o => (o, rest)
    | _ => none
  | none, [] => none

theorem length_of_take? {o o' : Options} {name : String} {value : Option String}
    {rest rest' : List String} (h : o.take? name value rest = some (o', rest')) :
    rest'.length ≤ rest.length := by
  unfold take? at h
  split at h
  · obtain ⟨_, _, h⟩ := Option.map_eq_some_iff.1 h
    simp_all
  · split at h
    · obtain ⟨_, _, h⟩ := Option.map_eq_some_iff.1 h
      simp_all
    · cases h
  · cases h

end Options

/-- What the options before and after the topic come to. The environment stands in for a file of
settings on a side that names none, and it must not be empty there. -/
def conclude (topic : Topic) (repository environment : Option String) (before after : Options) :
    Reading :=
  if environment = some "" && (before.settings.isNone || after.settings.isNone) then .misuse
  else .request
    { topic, repository
      settings := (after.settings.or before.settings).or environment
      layout := (after.layout.or before.layout).getD .text }

/-- Reads the arguments after the topic. After a divider every argument is a word. -/
def readAfter (conclusion : Option String → Options → Reading) (repository : Option String)
    (divided : Bool) (o : Options) (args : List String) : Reading :=
  match args with
  | [] => conclusion repository o
  | arg :: rest =>
    match if divided then .word arg else Argument.of arg with
    | .word text =>
      if repository.isSome || text.isEmpty then .misuse
      else readAfter conclusion (some text) divided o rest
    | .divider => readAfter conclusion repository true o rest
    | .long "help" none => .help
    | .long name value =>
      if Options.isOption name then
        match _h : o.take? name value rest with
        | some (o', rest') => readAfter conclusion repository divided o' rest'
        | none => .misuse
      else .misuse
    | .short c => if c = 'h' then .help else .misuse
termination_by args.length
decreasing_by
  all_goals
    try have := Options.length_of_take? _h
    simp only [List.length_cons]
    omega

/-- Reads the arguments up to the topic and then those after it. -/
def readBefore (environment : Option String) (o : Options) (args : List String) : Reading :=
  match args with
  | [] => .misuse
  | arg :: rest =>
    match Argument.of arg with
    | .word text =>
      match Topic.ofName? text with
      | some topic =>
        readAfter (fun repository after => conclude topic repository environment o after) none false
          {} rest
      | none => .misuse
    | .divider => .misuse
    | .long "help" none => .help
    | .long "version" none => .version
    | .long name value =>
      if Options.isOption name then
        match _h : o.take? name value rest with
        | some (o', rest') => readBefore environment o' rest'
        | none => .misuse
      else .misuse
    | .short c => if c = 'h' then .help else if c = 'V' then .version else .misuse
termination_by args.length
decreasing_by
  have := Options.length_of_take? _h
  simp only [List.length_cons]
  omega

/-- What a command line comes to. The environment may name a file of settings. -/
def Reading.of (environment : Option String) (args : List String) : Reading :=
  readBefore environment {} args

end SemanticNet.Inspection
