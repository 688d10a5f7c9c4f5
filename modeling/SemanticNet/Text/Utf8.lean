import SemanticNet.Contents

/-!
# UTF-8

Text as bytes and back. `scan` reads bytes one at a time and yields a character or, for a piece that
belongs to no character, nothing. Such a piece is as long as the beginning of some character can be.
-/

namespace SemanticNet.Utf8

/-- A character of which the beginning has been read: its bits so far, how many bytes are missing,
and the range in which the next one has to lie. -/
structure Open where
  bits : Nat
  missing : Nat
  low : Nat
  high : Nat
deriving Inhabited, Repr

/-- What the first byte of a character says: a whole character, the beginning of one, or nothing. -/
inductive Lead where
  | whole (c : Char)
  | begun (o : Open)
  | stray
deriving Repr

/-- The ranges after the first byte leave out spellings that are too long, the surrogates, and what
lies beyond the last character. -/
def lead (b : Nat) : Lead :=
  if b < 0x80 then .whole (.ofNat b)
  else if 0xC2 ≤ b && b ≤ 0xDF then .begun ⟨b - 0xC0, 1, 0x80, 0xBF⟩
  else if b = 0xE0 then .begun ⟨0, 2, 0xA0, 0xBF⟩
  else if b = 0xED then .begun ⟨0xD, 2, 0x80, 0x9F⟩
  else if 0xE1 ≤ b && b ≤ 0xEF then .begun ⟨b - 0xE0, 2, 0x80, 0xBF⟩
  else if b = 0xF0 then .begun ⟨0, 3, 0x90, 0xBF⟩
  else if 0xF1 ≤ b && b ≤ 0xF3 then .begun ⟨b - 0xF0, 3, 0x80, 0xBF⟩
  else if b = 0xF4 then .begun ⟨4, 3, 0x80, 0x8F⟩
  else .stray

/-- The characters in a string of bytes, `none` for each piece that belongs to no character. -/
def scanFrom : Option Open → Bytes → List (Option Char)
  | none, [] => []
  | some _, [] => [none]
  | none, b :: rest =>
    match lead b.toNat with
    | .whole c => some c :: scanFrom none rest
    | .begun o => scanFrom (some o) rest
    | .stray => none :: scanFrom none rest
  | some o, b :: rest =>
    let n := b.toNat
    if o.low ≤ n && n ≤ o.high then
      let bits := o.bits * 64 + (n - 0x80)
      if o.missing = 1 then some (.ofNat bits) :: scanFrom none rest
      else scanFrom (some ⟨bits, o.missing - 1, 0x80, 0xBF⟩) rest
    else
      none ::
        match lead n with
        | .whole c => some c :: scanFrom none rest
        | .begun o => scanFrom (some o) rest
        | .stray => none :: scanFrom none rest

def scan (bytes : Bytes) : List (Option Char) := scanFrom none bytes

/-- The text of a string of bytes that is UTF-8 throughout. -/
def decode? (bytes : Bytes) : Option String := ((scan bytes).mapM id).map String.ofList

/-- The text of any string of bytes, with U+FFFD for each piece that belongs to no character. -/
def decodeLossy (bytes : Bytes) : String :=
  String.ofList ((scan bytes).map (·.getD '\uFFFD'))

/-- The bytes of a text. -/
def encode (text : String) : Bytes := text.toUTF8.data.toList

theorem encode_injective : Function.Injective encode := by
  intro text text' h
  exact String.toByteArray_inj.1 (ByteArray.ext (Array.toList_inj.1 h))

theorem encode_eq_flatMap (text : String) :
    encode text = text.toList.flatMap String.utf8EncodeChar := by
  rw [encode, String.toUTF8, ← String.utf8Encode_toList, List.utf8Encode,
    List.toList_data_toByteArray]

/-! ## ASCII text -/

theorem utf8EncodeChar_of_ascii {c : Char} (hc : c.toNat < 0x80) :
    String.utf8EncodeChar c = [UInt8.ofNat c.toNat] :=
  if_pos (Nat.le_of_lt_succ hc)

theorem lead_of_ascii {c : Char} (hc : c.toNat < 0x80) :
    lead (UInt8.ofNat c.toNat).toNat = .whole c := by
  have hbyte : (UInt8.ofNat c.toNat).toNat = c.toNat :=
    UInt8.toNat_ofNat_of_lt' (Nat.lt_trans hc (by decide))
  rw [hbyte, lead, if_pos hc, Char.ofNat_toNat]

theorem scan_of_ascii {cs : List Char} (hcs : ∀ c ∈ cs, c.toNat < 0x80) :
    scan (cs.flatMap String.utf8EncodeChar) = cs.map some := by
  induction cs with
  | nil => rfl
  | cons c cs ih =>
    obtain ⟨hc, hcs⟩ := List.forall_mem_cons.1 hcs
    rw [scan] at ih
    rw [scan, List.flatMap_cons, utf8EncodeChar_of_ascii hc, List.singleton_append, scanFrom,
      lead_of_ascii hc]
    exact congrArg (some c :: ·) (ih hcs)

/-- ASCII text is read as it was written. -/
theorem decodeLossy_encode {text : String} (h : ∀ c ∈ text.toList, c.toNat < 0x80) :
    decodeLossy (encode text) = text := by
  have hchars : (text.toList.map some).map (·.getD '\uFFFD') = text.toList := by
    rw [List.map_map]
    exact List.map_id _
  rw [decodeLossy, encode_eq_flatMap, scan_of_ascii h, hchars, String.ofList_toList]

end SemanticNet.Utf8
