import SemanticNet.ElementType.Basic

/-!
# Narrowing a type

The type of an element may be narrowed: bits are added, and every group of bits that was already
settled stays as it is. `narrowsTo` is the question, `narrow?` the merge of the current bits with
the requested ones.
-/

namespace SemanticNet.ElementType

/-- Whether `t` leaves the group `mask` open, or settles it as `s` does. -/
def agreesOn (t s mask : ElementType) : Bool :=
  (t &&& mask).isUnknown || t &&& mask == s &&& mask

/-- Whether `s` has no bit outside `allowed`. -/
def within (s allowed : ElementType) : Bool := (s &&& ~~~allowed).isUnknown

/-- Whether an element of type `t` may become one of type `s`. The kind, the constancy and the
refinements that `t` settles must be the same in `s`, and `s` may carry only bits that belong to the
kind of `t`. -/
def narrowsTo (t s : ElementType) : Bool :=
  t.agreesOn s kindBits && t.agreesOn s constancyBits &&
    if t.isNode then
      s.within (node ||| constancyBits ||| nodeBits) && t.agreesOn s nodeBits
    else if t.isMembershipArc then
      s.within (membershipArc ||| constancyBits ||| positivityBits ||| permanencyBits |||
          actualityBits) &&
        t.agreesOn s permanencyBits && t.agreesOn s positivityBits && t.agreesOn s actualityBits
    else if t.isConnector then
      s.within (t.kind ||| constancyBits)
    else
      true

/-- The type `t` with the bits of `s` added, unless that would unsettle a group of `t` or turn a
node into a link. A caller may thus pass only the bits to add. -/
def narrow? (t s : ElementType) : Option ElementType :=
  let merged := s ||| t
  if merged.isLink == t.isLink && t.narrowsTo merged then some merged else none

end SemanticNet.ElementType
