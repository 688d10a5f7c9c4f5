import SemanticNet.Contents
import SemanticNet.Failure

/-!
# Numbers as bytes

Numbers are stored with the lowest byte first, in a fixed number of bytes. A `Reader` takes things
from the front of a string of bytes and fails when it is too short.
-/

namespace SemanticNet

/-- The lowest `width` bytes of a number, the lowest one first. -/
def littleEndian : Nat → Nat → Bytes
  | 0, _ => []
  | width + 1, n => .ofNat n :: littleEndian width (n / 256)

/-- The number whose bytes are given, the lowest one first. -/
def ofLittleEndian : Bytes → Nat
  | [] => 0
  | b :: rest => b.toNat + 256 * ofLittleEndian rest

@[simp] theorem length_littleEndian (width n : Nat) : (littleEndian width n).length = width := by
  induction width generalizing n with
  | zero => rfl
  | succ width ih => simp [littleEndian, ih]

/-- The first `n` bytes and the rest, if there are as many. -/
def splitExactly : Nat → Bytes → Option (Bytes × Bytes)
  | 0, bytes => some ([], bytes)
  | _ + 1, [] => none
  | n + 1, b :: rest => (splitExactly n rest).map fun (front, back) => (b :: front, back)

theorem splitExactly_append (front back : Bytes) :
    splitExactly front.length (front ++ back) = some (front, back) := by
  induction front with
  | nil => rfl
  | cons b front ih => simp [splitExactly, ih]

/-- Takes something from the front of a string of bytes. -/
abbrev Reader (α : Type) := StateT Bytes (Except Failure) α

namespace Reader

/-- The next `n` bytes. -/
def take (n : Nat) : Reader Bytes := fun bytes =>
  match splitExactly n bytes with
  | some split => .ok split
  | none => .error (.corrupt .truncated)

/-- The number in the next `width` bytes. -/
def number (width : Nat) : Reader Nat := return ofLittleEndian (← take width)

def byte : Reader UInt8 := return .ofNat (← number 1)

def half : Reader UInt16 := return .ofNat (← number 2)

def word : Reader UInt32 := return .ofNat (← number 4)

def address : Reader Address := return .ofPacked (← number 4)

/-- As many of one thing as given. -/
def many (r : Reader α) : Nat → Reader (List α)
  | 0 => return []
  | n + 1 => return (← r) :: (← many r n)

/-- Nothing may be left. -/
def done : Reader Unit := fun bytes =>
  if bytes.isEmpty then .ok ((), []) else .error (.corrupt .trailing)

end Reader

end SemanticNet
