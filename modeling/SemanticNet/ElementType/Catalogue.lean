import SemanticNet.ElementType.Basic

/-!
# Named types

The vocabulary of types: the refinements of nodes and of memberships, and the combinations in
common use. `catalogue` lists every name with its bits.
-/

namespace SemanticNet.ElementType

/-! ## Refinements of a membership -/

def posArc : ElementType := ⟨0x80⟩

def negArc : ElementType := ⟨0x100⟩

def fuzArc : ElementType := ⟨0x200⟩

def tempArc : ElementType := ⟨0x400⟩

def actualArc : ElementType := ⟨0x4000⟩

def inactualArc : ElementType := ⟨0x8000⟩

/-- A permanent membership is also an actual one. -/
def permArc : ElementType := ⟨0x4800⟩

/-! ## Refinements of a node -/

def tuple : ElementType := ⟨0x80⟩

def struct : ElementType := ⟨0x100⟩

def role : ElementType := ⟨0x200⟩

def norole : ElementType := ⟨0x400⟩

def classNode : ElementType := ⟨0x800⟩

def superclass : ElementType := ⟨0x1000⟩

def material : ElementType := ⟨0x2000⟩

/-! ## Combinations that the memory itself makes -/

def constNode : ElementType := node ||| const

/-- A constant relation that is not a role. -/
def constNorole : ElementType := node ||| const ||| norole

def constLink : ElementType := link ||| const

def constCommonArc : ElementType := commonArc ||| const

/-- A constant permanent positive membership. -/
def constPermPosArc : ElementType := membershipArc ||| const ||| posArc ||| permArc

/-- Every type that has a name, with its name. -/
def catalogue : List (String × ElementType) := [
  ("UNKNOWN", unknown),
  ("NODE", node),
  ("LINK", link),
  ("COMMON_EDGE", commonEdge),
  ("COMMON_ARC", commonArc),
  ("MEMBERSHIP_ARC", membershipArc),
  ("CONST", const),
  ("VAR", var),
  ("POS_ARC", posArc),
  ("NEG_ARC", negArc),
  ("FUZ_ARC", fuzArc),
  ("TEMP_ARC", tempArc),
  ("ACTUAL_ARC", actualArc),
  ("INACTUAL_ARC", inactualArc),
  ("PERM_ARC", permArc),
  ("TUPLE", tuple),
  ("STRUCTURE", struct),
  ("ROLE", role),
  ("NOROLE", norole),
  ("CLASS", classNode),
  ("SUPERCLASS", superclass),
  ("MATERIAL", material),
  ("ELEMENT_MASK", kindBits),
  ("CONNECTOR_MASK", connectorBits),
  ("ARC_MASK", arcBits),
  ("CONSTANCY_MASK", constancyBits),
  ("POSITIVITY_MASK", positivityBits),
  ("PERMANENCY_MASK", permanencyBits),
  ("ACTUALITY_MASK", actualityBits),
  ("NODE_MASK", nodeBits),
  ("NODE_CONST", constNode),
  ("NODE_VAR", node ||| var),
  ("NODE_CONST_TUPLE", node ||| const ||| tuple),
  ("NODE_CONST_STRUCTURE", node ||| const ||| struct),
  ("NODE_CONST_ROLE", node ||| const ||| role),
  ("NODE_CONST_NOROLE", constNorole),
  ("NODE_CONST_CLASS", node ||| const ||| classNode),
  ("NODE_CONST_SUPERCLASS", node ||| const ||| superclass),
  ("NODE_CONST_MATERIAL", node ||| const ||| material),
  ("NODE_VAR_TUPLE", node ||| var ||| tuple),
  ("NODE_VAR_STRUCTURE", node ||| var ||| struct),
  ("NODE_VAR_ROLE", node ||| var ||| role),
  ("NODE_VAR_NOROLE", node ||| var ||| norole),
  ("NODE_VAR_CLASS", node ||| var ||| classNode),
  ("NODE_VAR_SUPERCLASS", node ||| var ||| superclass),
  ("NODE_VAR_MATERIAL", node ||| var ||| material),
  ("LINK_CONST", constLink),
  ("LINK_VAR", link ||| var),
  ("CONST_COMMON_EDGE", commonEdge ||| const),
  ("VAR_COMMON_EDGE", commonEdge ||| var),
  ("CONST_COMMON_ARC", constCommonArc),
  ("VAR_COMMON_ARC", commonArc ||| var),
  ("CONST_POS_ARC", membershipArc ||| const ||| posArc),
  ("CONST_NEG_ARC", membershipArc ||| const ||| negArc),
  ("CONST_FUZ_ARC", membershipArc ||| const ||| fuzArc),
  ("CONST_PERM_POS_ARC", constPermPosArc),
  ("CONST_PERM_NEG_ARC", membershipArc ||| const ||| negArc ||| permArc),
  ("CONST_TEMP_POS_ARC", membershipArc ||| const ||| posArc ||| tempArc),
  ("CONST_TEMP_NEG_ARC", membershipArc ||| const ||| negArc ||| tempArc),
  ("CONST_ACTUAL_TEMP_POS_ARC", membershipArc ||| const ||| posArc ||| tempArc ||| actualArc),
  ("CONST_ACTUAL_TEMP_NEG_ARC", membershipArc ||| const ||| negArc ||| tempArc ||| actualArc),
  ("CONST_INACTUAL_TEMP_POS_ARC", membershipArc ||| const ||| posArc ||| tempArc ||| inactualArc),
  ("CONST_INACTUAL_TEMP_NEG_ARC", membershipArc ||| const ||| negArc ||| tempArc ||| inactualArc),
  ("VAR_POS_ARC", membershipArc ||| var ||| posArc),
  ("VAR_PERM_POS_ARC", membershipArc ||| var ||| posArc ||| permArc),
  ("VAR_TEMP_POS_ARC", membershipArc ||| var ||| posArc ||| tempArc)]

end SemanticNet.ElementType
