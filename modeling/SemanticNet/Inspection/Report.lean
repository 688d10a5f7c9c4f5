import SemanticNet.Json.Report

/-!
# Reports of an inspection

What was found in a repository, as text for people or as JSON for programs.
-/

namespace SemanticNet.Inspection

inductive Report where
  | statistics (repository : String) (dump : Dump.Summary) (s : Statistics)
  | consistency (repository : String) (r : Audit)
  | segments (repository : String) (usage : List SegmentUsage)
deriving Repr

namespace Report

/-- Whether nothing is wrong with what was looked at. -/
def isGood : Report → Bool
  | consistency _ r => r.isConsistent
  | statistics .. | segments .. => true

/-! ## Text -/

/-- Dots behind a text up to a width. -/
def dotted (width : Nat) (text : String) : String :=
  text ++ String.ofList (List.replicate (width - text.length) '.')

/-- Blanks in front of a text up to a width. -/
def flushRight (width : Nat) (text : String) : String :=
  String.ofList (List.replicate (width - text.length) ' ') ++ text

def fieldLine (name : String) (value : Nat) : String := s!"  {dotted 30 name} {value}"

def segmentLine (cells : List String) : String :=
  "  " ++ " ".intercalate (List.zipWith flushRight [6, 8, 8, 8] cells)

def statusLines (r : Audit) : List String :=
  if r.isConsistent then ["status: PASS"]
  else
    s!"status: FAIL ({r.findings.length} issue(s))" ::
      (r.findings.zipIdx 1).map fun (f, n) => s!"  {n}. {f.message}"

def lines : Report → List String
  | statistics repository dump s => [
      s!"repository: {repository}",
      fieldLine "nodes" s.census.nodes.toNat,
      fieldLine "links" s.census.links.toNat,
      fieldLine "connectors" s.census.connectors.toNat,
      fieldLine "elements" s.census.total.toNat,
      fieldLine "segments" s.segments,
      fieldLine "empty slots" s.vacant,
      fieldLine "link contents" dump.contents,
      fieldLine "dump bytes" dump.bytes]
  | consistency repository r => [
      s!"repository: {repository}",
      fieldLine "elements checked" r.elements,
      fieldLine "connectors" r.connectors,
      fieldLine "outgoing entries" r.outgoing,
      fieldLine "incoming entries" r.incoming] ++ statusLines r
  | segments repository usage =>
    s!"repository: {repository}" :: segmentLine ["seg", "capacity", "engaged", "live"] ::
      usage.map fun u =>
        segmentLine [toString u.number, toString u.capacity, toString u.lastEngaged,
          toString u.live]

/-- The report as text. -/
def text (r : Report) : String := String.join (r.lines.map (· ++ "\n"))

/-! ## JSON -/

/-- The report as JSON. -/
def json : Report → Json
  | statistics repository dump s => .object [
      ("repo", .text repository), ("dump", dump.toJson), ("stat", .object s.fields)]
  | consistency repository r => .object
      (("repo", .text repository) :: ("consistent", .bool r.isConsistent) :: r.fields)
  | segments repository usage => .object [
      ("repo", .text repository), ("segments", .array (usage.map (·.toJson)))]

end Report

end SemanticNet.Inspection
