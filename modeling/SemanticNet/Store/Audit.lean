import SemanticNet.Store.Basic

/-!
# The audit of a store

Walks every ring of every element and compares its links with each other, with its count and with
the ends of the connectors. Each thing that is wrong is a `Finding`.
-/

namespace SemanticNet

/-- Something wrong in a store. -/
inductive Finding where
  | unknownType (owner : Address)
  | deadEnd (owner ends : Address)
  | emptyButCounted (owner : Address) (d : Direction) (count : UInt32)
  | stranger (owner member : Address) (d : Direction)
  | deadMember (owner member : Address) (d : Direction)
  | lopsided (owner member next : Address) (d : Direction)
  | unclosed (owner : Address) (d : Direction) (count : UInt32)
  | miscounted (owner : Address) (d : Direction) (found : Nat) (count : UInt32)
  | unbalanced (held required : Nat)
deriving DecidableEq, Repr

def Finding.message : Finding → String
  | unknownType owner => s!"{owner}: live slot with unknown type"
  | deadEnd owner ends => s!"{owner}: endpoint {ends} is not live"
  | emptyButCounted owner d count => s!"{owner}: empty {d} ring with count {count}"
  | stranger owner member d => s!"{owner}: {member} in {d} ring does not reference the owner"
  | deadMember owner member d => s!"{owner}: {d} ring reaches dead slot {member}"
  | lopsided owner member next d => s!"{owner}: {d} ring link {member} -> {next} is not symmetric"
  | unclosed owner d count => s!"{owner}: {d} ring does not close within {count} steps"
  | miscounted owner d found count => s!"{owner}: {d} ring has {found} entries but count {count}"
  | unbalanced held required =>
    s!"rings hold {held} entries but live connectors require {required}"

/-- The result of an audit: what was looked at, and what is wrong. -/
structure Audit where
  elements : Nat := 0
  connectors : Nat := 0
  outgoing : Nat := 0
  incoming : Nat := 0
  findings : List Finding := []
deriving DecidableEq, Inhabited, Repr

def Audit.isConsistent (r : Audit) : Bool := r.findings.isEmpty

namespace Arena

/-- Follows a ring of `owner` from the member `c`, the one after `steps` others. At most `fuel`
members are looked at. -/
def auditFrom (t : Arena) (owner : Address) (d : Direction) (r : RingHead) (c : Address)
    (steps : Nat) : Nat → List Finding
  | 0 => [.unclosed owner d r.count]
  | fuel + 1 =>
    match (t.find? c).map (·.link? owner d) with
    | none => [.deadMember owner c d]
    | some none => [.stranger owner c d]
    | some (some l) =>
      let back := do (← (← t.find? l.next).link? owner d).prev
      if back ≠ some c then [.lopsided owner c l.next d]
      else if l.next = r.first then
        if steps + 1 = r.count.toNat then []
        else [.miscounted owner d (steps + 1) r.count]
      else t.auditFrom owner d r l.next (steps + 1) fuel

/-- What is wrong with one ring. -/
def auditRing (t : Arena) (owner : Address) (d : Direction) (r : RingHead) : List Finding :=
  if r.first.isEmpty then
    if r.count = 0 then [] else [.emptyButCounted owner d r.count]
  else
    t.auditFrom owner d r r.first 0 (r.count.toNat + 1)

/-- What is wrong with one element and its rings. -/
def auditElement (t : Arena) (owner : Address) (e : Element) : List Finding :=
  (if e.type.isUnknown then [.unknownType owner] else []) ++
    (match e.connection with
      | none => []
      | some c => ([c.source, c.target].filter (!t.isLive ·)).map (.deadEnd owner)) ++
    Direction.both.flatMap fun d => t.auditRing owner d (e.ring d)

/-- The audit of all elements. Every ring that a connector has to sit in must count it, so the
counts of all rings have to add up to the places of all connectors. -/
def audit (t : Arena) : Audit :=
  let es := t.elements
  let total := fun (f : Element → Nat) => es.foldl (fun n p => n + f p.2) 0
  let outgoing := total (·.outgoing.count.toNat)
  let incoming := total (·.incoming.count.toNat)
  let required := total (·.places.length)
  { elements := es.length
    connectors := es.countP (·.2.connection.isSome)
    outgoing
    incoming
    findings := es.flatMap (fun (a, e) => t.auditElement a e) ++
      if outgoing + incoming = required then [] else [.unbalanced (outgoing + incoming) required] }

end Arena

/-- The audit of a store. -/
def Store.audit (s : Store) : Audit := s.arena.audit

end SemanticNet
