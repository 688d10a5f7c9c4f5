import Mathlib.Data.UInt
import SemanticNet.Dump.Basic
import SemanticNet.Store.Create
import SemanticNet.Store.Edit
import SemanticNet.Proofs.Reading

/-!
# Where a dump ends

A reader is steady when what it takes from the front of some bytes does not depend on what follows
them, and when it fails on account of damage only (`Reader.Steady`). All readers of a dump are, up
to the one that wants nothing to be left. So a dump says itself where it ends: whatever the
checksum, no dump that is accepted is longer than another one that it starts with
(`Dump.decode_prefix_free`).
-/

namespace SemanticNet

/-! ## Bytes -/

theorem splitExactly_eq_some_iff {n : Nat} {bytes front back : Bytes} :
    splitExactly n bytes = some (front, back) ↔ bytes = front ++ back ∧ front.length = n := by
  constructor
  · intro h
    induction n generalizing bytes front with
    | zero =>
      obtain ⟨rfl, rfl⟩ := Prod.ext_iff.1 (Option.some.inj h)
      exact ⟨rfl, rfl⟩
    | succ n ih =>
      cases bytes with
      | nil => cases h
      | cons b bytes =>
        obtain ⟨⟨front', back'⟩, hsplit, heq⟩ := Option.map_eq_some_iff.1 h
        obtain ⟨rfl, rfl⟩ := Prod.ext_iff.1 heq
        obtain ⟨rfl, rfl⟩ := ih hsplit
        exact ⟨rfl, rfl⟩
  · rintro ⟨rfl, rfl⟩
    exact splitExactly_append front back

theorem littleEndian_ofLittleEndian (bytes : Bytes) :
    littleEndian bytes.length (ofLittleEndian bytes) = bytes := by
  induction bytes with
  | nil => rfl
  | cons b bytes ih =>
    have hlt := b.toNat_lt
    have hhigh : (b.toNat + 256 * ofLittleEndian bytes) / 256 = ofLittleEndian bytes := by omega
    have hlow : UInt8.ofNat (b.toNat + 256 * ofLittleEndian bytes) = b := by
      apply UInt8.toNat_inj.1
      rw [UInt8.toNat_ofNat']
      omega
    rw [List.length_cons, ofLittleEndian, littleEndian, hhigh, hlow, ih]

theorem ofLittleEndian_lt (bytes : Bytes) : ofLittleEndian bytes < 256 ^ bytes.length := by
  induction bytes with
  | nil => decide
  | cons b bytes ih =>
    have hlt := b.toNat_lt
    rw [ofLittleEndian, List.length_cons, Nat.pow_succ]
    omega

/-! ## Steady readers -/

/-- The computation only fails on account of damage. -/
def OnlyDamage {α : Type} (x : Except Failure α) : Prop :=
  ∀ f, x = .error f → ∃ d, f = .corrupt d

namespace OnlyDamage

variable {α β : Type} {x : Except Failure α} {f : α → Except Failure β}

theorem ok (a : α) : OnlyDamage (.ok a) := fun _ h => by cases h

theorem error (d : Damage) : OnlyDamage (.error (.corrupt d) : Except Failure α) :=
  fun _ h => ⟨d, (Except.error.inj h).symm⟩

theorem bind (hx : OnlyDamage x) (hf : ∀ a, OnlyDamage (f a)) : OnlyDamage (x >>= f) := by
  cases x with
  | ok a => exact hf a
  | error e =>
    intro e' he'
    exact hx e' (congrArg Except.error (Except.error.inj he'))

theorem foldlM {step : α → β → Except Failure α} (hstep : ∀ a b, OnlyDamage (step a b))
    (bs : List β) (a : α) : OnlyDamage (bs.foldlM step a) := by
  induction bs generalizing a with
  | nil => exact ok a
  | cons b bs ih =>
    rw [List.foldlM_cons]
    exact (hstep a b).bind ih

/-- A computation that only fails on account of damage does so or succeeds. -/
theorem cases (hx : OnlyDamage x) : (∃ a, x = .ok a) ∨ ∃ d, x = .error (.corrupt d) := by
  cases x with
  | ok a => exact .inl ⟨a, rfl⟩
  | error f =>
    obtain ⟨d, rfl⟩ := hx f rfl
    exact .inr ⟨d, rfl⟩

end OnlyDamage

namespace SegmentImage

variable {g : SegmentImage}

theorem onlyDamage_fill (slots : Partial) (offset : UInt16) (slot : Slot) :
    OnlyDamage (fill slots offset slot) := by
  unfold fill
  split
  · exact .ok _
  · exact .error _

theorem onlyDamage_restore (g : SegmentImage) (capacity : Nat) :
    OnlyDamage (g.restore capacity) := by
  have hfree : ∀ slots link, OnlyDamage (g.fillFree slots link) := by
    intro slots link
    unfold fillFree
    split
    · exact onlyDamage_fill _ _ _
    · exact .error _
  have hlive : ∀ slots record, OnlyDamage (g.fillLive slots record) := by
    intro slots record
    unfold fillLive
    split
    · exact onlyDamage_fill _ _ _
    · exact .error _
  unfold restore
  split
  · exact .error _
  · exact (OnlyDamage.foldlM hfree _ _).bind fun slots =>
      (OnlyDamage.foldlM hlive _ slots).bind fun _ => .ok _

end SegmentImage

namespace Reader

variable {α β : Type} {r : Reader α} {f : α → Reader β} {bytes : Bytes}

/-- What a steady reader takes from the front of some bytes, it takes whatever follows; and it only
fails on account of damage. -/
structure Steady (r : Reader α) : Prop where
  append : ∀ {bytes a rest}, r bytes = .ok (a, rest) → ∀ more,
    r (bytes ++ more) = .ok (a, rest ++ more)
  damage : ∀ bytes, OnlyDamage (r bytes)

theorem steady_pure (a : α) : (pure a : Reader α).Steady where
  append h more := by
    obtain ⟨rfl, rfl⟩ := Prod.ext_iff.1 (Except.ok.inj h)
    rfl
  damage bytes := .ok _

theorem steady_throw (d : Damage) : (throw (.corrupt d) : Reader α).Steady where
  append h := by cases h
  damage bytes := .error d

theorem steady_lift {x : Except Failure α} (hx : OnlyDamage x) :
    (liftM x : Reader α).Steady where
  append h more := by
    cases x with
    | error e => cases h
    | ok a =>
      obtain ⟨rfl, rfl⟩ := Prod.ext_iff.1 (Except.ok.inj h)
      rfl
  damage bytes := hx.bind fun _ => .ok _

theorem Steady.bind (hr : r.Steady) (hf : ∀ a, (f a).Steady) : (r >>= f).Steady where
  append h more := by
    obtain ⟨a, rest, hfirst, hsecond⟩ := bind_apply_eq_ok h
    show r (_ ++ more) >>= (fun p => f p.1 p.2) = _
    rw [hr.append hfirst more]
    exact (hf a).append hsecond more
  damage bytes := (hr.damage bytes).bind fun p => (hf p.1).damage p.2

theorem Steady.bind_pure (hr : r.Steady) (g : α → β) : (r >>= fun a => pure (g a)).Steady :=
  hr.bind fun a => steady_pure (g a)

theorem Steady.map (hr : r.Steady) (g : α → β) : (g <$> r).Steady := hr.bind_pure g

/-- A reader that only checks what was read is steady. -/
theorem Steady.guard {P : Prop} [Decidable P] (hr : r.Steady) (d : Damage) :
    (if P then throw (.corrupt d) >>= fun _ : Unit => r else r).Steady := by
  split
  · exact (steady_throw d).bind fun _ => hr
  · exact hr

/-- What a reader comes to when no one asks what it left. -/
theorem run'_eq_ok_iff {a : α} : r.run' bytes = .ok a ↔ ∃ rest, r bytes = .ok (a, rest) := by
  show (fun p => p.1) <$> r bytes = .ok a ↔ _
  cases r bytes with
  | error f =>
    constructor
    · intro h
      cases h
    · rintro ⟨rest, h⟩
      cases h
  | ok p =>
    constructor
    · intro h
      obtain rfl := Except.ok.inj h
      exact ⟨p.2, rfl⟩
    · rintro ⟨rest, h⟩
      rw [Except.ok.inj h]
      rfl

theorem steady_take (n : Nat) : (take n).Steady where
  append {bytes a rest} h more := by
    unfold take at h
    split at h
    next split hsplit =>
      obtain rfl := Except.ok.inj h
      obtain ⟨rfl, rfl⟩ := splitExactly_eq_some_iff.1 hsplit
      rw [take, List.append_assoc, splitExactly_append]
    next => cases h
  damage bytes := by
    unfold take
    split
    · exact .ok _
    · exact .error _

theorem length_of_take {n : Nat} {front rest : Bytes} (h : take n bytes = .ok (front, rest)) :
    front.length = n := by
  unfold take at h
  split at h
  next split hsplit =>
    obtain rfl := Except.ok.inj h
    exact (splitExactly_eq_some_iff.1 hsplit).2
  next => cases h

/-- As many bytes as are read hold the number. -/
theorem number_lt {width n : Nat} {rest : Bytes} (h : number width bytes = .ok (n, rest)) :
    n < 256 ^ width := by
  obtain ⟨front, hfront, rfl⟩ := map_apply_eq_ok h
  rw [← length_of_take hfront]
  exact ofLittleEndian_lt front

theorem steady_number (width : Nat) : (number width).Steady := (steady_take width).map _

theorem steady_byte : byte.Steady := (steady_number 1).map _

theorem steady_half : half.Steady := (steady_number 2).map _

theorem steady_word : word.Steady := (steady_number 4).map _

theorem steady_address : address.Steady := (steady_number 4).map _

theorem Steady.many (hr : r.Steady) (n : Nat) : (many r n).Steady := by
  induction n with
  | zero => exact steady_pure []
  | succ n ih => exact hr.bind fun a => ih.map _

theorem steady_link : link.Steady := steady_address.bind fun _ => steady_address.map _

theorem steady_connection : connection.Steady := by
  refine steady_byte.bind fun marker => ?_
  split
  · exact steady_pure none
  · refine steady_address.bind fun _ => steady_address.bind fun _ => ?_
    refine steady_link.bind fun _ => steady_link.bind fun _ => ?_
    exact steady_link.bind fun _ => steady_link.bind_pure _
  · exact steady_throw _

theorem steady_element : element.Steady := by
  refine steady_half.bind fun offset => steady_half.bind fun type => Steady.guard ?_ _
  refine steady_byte.bind fun flags => (steady_byte.map _).bind fun access => ?_
  refine steady_address.bind fun firstOut => steady_address.bind fun firstIn => ?_
  refine steady_word.bind fun outCount => steady_word.bind fun inCount => ?_
  exact steady_connection.bind fun connection => Steady.guard (steady_pure _) _

theorem steady_segment : segment.Steady := by
  refine steady_half.bind fun number => steady_half.bind fun lastEngaged => ?_
  refine steady_half.bind fun freeHead => (steady_number 4).bind fun count => ?_
  have hlink : Steady (do return (← half, ← half)) := steady_half.bind fun _ => steady_half.map _
  refine (hlink.many count).bind fun free => (steady_number 4).bind fun count => ?_
  exact (steady_element.many count).map _

end Reader

/-! ## Dumps -/

namespace Dump

open Reader

variable {check : Bytes → UInt32} {settings : Settings} {bytes : Bytes} {s : Store} {y : Summary}

theorem steady_readHeader : readHeader.Steady := by
  refine (steady_take _).bind fun front => Steady.guard ?_ _
  refine (steady_number 2).bind fun version => Steady.guard ?_ _
  refine steady_half.bind fun capacity => steady_half.bind fun count => ?_
  exact Steady.guard (steady_pure _) _

theorem steady_readSegments (t : Arena) (n : Nat) : (readSegments t n).Steady := by
  induction n generalizing t with
  | zero => exact steady_pure t
  | succ n ih =>
    refine steady_segment.bind fun image => ?_
    refine (steady_lift (image.onlyDamage_restore t.capacity)).bind fun g => ?_
    exact Steady.guard (ih _) _

theorem steady_readContents (t : Arena) (c : Contents byteHash) (n : Nat) :
    (readContents t c n).Steady := by
  induction n generalizing c with
  | zero => exact steady_pure c
  | succ n ih =>
    refine steady_address.bind fun a => (steady_number 4).bind fun length => ?_
    refine (steady_take length).bind fun content => ?_
    dsimp only
    split
    · exact ih _
    · exact (steady_throw _).bind fun _ => ih _

/-- All that is read of a body before it is checked that nothing is left. -/
def readSections (settings : Settings) : Reader (Store × Nat) := do
  let (capacity, count) ← readHeader
  let blank := Store.ofSettings
    { settings with segmentCapacity := capacity, maxSegments := max settings.maxSegments count }
  let arena ← readSegments blank.arena count.toNat
  let n ← .number 4
  let contents ← readContents arena {} n
  return ({ blank with arena := arena.refreshHint, contents }.recount, n)

theorem steady_readSections (settings : Settings) : (readSections settings).Steady := by
  refine steady_readHeader.bind fun limits => (steady_readSegments _ _).bind fun arena => ?_
  exact (steady_number 4).bind fun n => (steady_readContents _ _ _).bind_pure _

theorem readBody_eq (settings : Settings) :
    readBody settings = readSections settings >>= fun x => Reader.done >>= fun _ => pure x := by
  simp only [readBody, readSections, bind_assoc, pure_bind]

theorem readBody_eq_ok_iff {x : Store × Nat} {rest : Bytes} :
    readBody settings bytes = .ok (x, rest) ↔
      readSections settings bytes = .ok (x, []) ∧ rest = [] := by
  rw [readBody_eq]
  constructor
  · intro h
    obtain ⟨x', rest', hread, hdone⟩ := bind_apply_eq_ok h
    cases rest' with
    | nil =>
      obtain ⟨rfl, rfl⟩ := Prod.ext_iff.1 (Except.ok.inj hdone)
      exact ⟨hread, rfl⟩
    | cons b rest' => cases hdone
  · rintro ⟨hread, rfl⟩
    show readSections settings bytes >>= _ = _
    rw [hread]
    rfl

theorem onlyDamage_readBody (settings : Settings) (bytes : Bytes) :
    OnlyDamage (readBody settings bytes) := by
  rw [readBody_eq]
  refine ((steady_readSections settings).damage bytes).bind fun p => ?_
  obtain ⟨x, rest⟩ := p
  cases rest with
  | nil => exact .ok _
  | cons b rest => exact .error _

/-- What is read of a body that is followed by its checksum. -/
theorem decode_append (body : Bytes) :
    decode check settings (body ++ littleEndian 4 (check body).toNat) = do
      let (s, n) ← (readBody settings).run' body
      return (s, ⟨s.arena.segments.size, s.arena.elements.length, n, body.length + 4⟩) := by
  have hlt : (check body).toNat < 256 ^ 4 := (check body).toNat_lt
  have hcheck : ofLittleEndian (littleEndian 4 (check body).toNat) = (check body).toNat := by
    rw [ofLittleEndian_littleEndian, Nat.mod_eq_of_lt hlt]
  have hlen : (body ++ littleEndian 4 (check body).toNat).length = body.length + 4 := by simp
  rw [decode, hlen, Nat.add_sub_cancel, splitExactly_append]
  simp only [length_littleEndian, Nat.lt_irrefl, if_false, hcheck, ne_eq, not_true_eq_false]

/-- A dump is a body with its checksum, or it is refused. -/
theorem decode_cases (check : Bytes → UInt32) (settings : Settings) (bytes : Bytes) :
    (∃ body, bytes = body ++ littleEndian 4 (check body).toNat) ∨
      ∃ d, decode check settings bytes = .error (.corrupt d) := by
  unfold decode
  cases hsplit : splitExactly (bytes.length - 4) bytes with
  | none => exact .inr ⟨_, rfl⟩
  | some parts =>
    obtain ⟨body, trailer⟩ := parts
    obtain ⟨rfl, hbody⟩ := splitExactly_eq_some_iff.1 hsplit
    rw [List.length_append] at hbody
    dsimp only
    by_cases hshort : trailer.length < 4
    · rw [if_pos hshort]
      exact .inr ⟨_, rfl⟩
    · rw [if_neg hshort]
      by_cases hcheck : (check body).toNat ≠ ofLittleEndian trailer
      · rw [if_pos hcheck]
        exact .inr ⟨_, rfl⟩
      · have hlength : trailer.length = 4 := by omega
        rw [not_not] at hcheck
        refine .inl ⟨body, ?_⟩
        rw [hcheck, ← hlength, littleEndian_ofLittleEndian]

/-- A dump is accepted when it is a body that is read to its end, and the checksum of the body. -/
theorem decode_eq_ok_iff : decode check settings bytes = .ok (s, y) ↔
    ∃ body n, bytes = body ++ littleEndian 4 (check body).toNat ∧
      readSections settings body = .ok ((s, n), []) ∧
      y = ⟨s.arena.segments.size, s.arena.elements.length, n, bytes.length⟩ := by
  have hbody : ∀ body, decode check settings (body ++ littleEndian 4 (check body).toNat)
      = .ok (s, y) ↔ ∃ n, readSections settings body = .ok ((s, n), []) ∧
        y = ⟨s.arena.segments.size, s.arena.elements.length, n, body.length + 4⟩ := by
    intro body
    rw [decode_append, bind_eq_ok_iff]
    constructor
    · rintro ⟨⟨s', n⟩, hrun, heq⟩
      obtain ⟨rfl, rfl⟩ := Prod.ext_iff.1 (Except.ok.inj heq)
      obtain ⟨rest, hread⟩ := run'_eq_ok_iff.1 hrun
      exact ⟨n, (readBody_eq_ok_iff.1 hread).1, rfl⟩
    · rintro ⟨n, hread, rfl⟩
      exact ⟨(s, n), run'_eq_ok_iff.2 ⟨[], readBody_eq_ok_iff.2 ⟨hread, rfl⟩⟩, rfl⟩
  constructor
  · intro h
    rcases decode_cases check settings bytes with ⟨body, rfl⟩ | ⟨d, hd⟩
    · obtain ⟨n, hread, hy⟩ := (hbody body).1 h
      exact ⟨body, n, rfl, hread, by simpa using hy⟩
    · rw [hd] at h
      cases h
  · rintro ⟨body, n, rfl, hread, hy⟩
    exact (hbody body).2 ⟨n, hread, by simpa using hy⟩

/-- What is loaded was put together from the segments and the contents that were read. -/
theorem sections_of_decode (h : decode check settings bytes = .ok (s, y)) :
    ∃ (capacity count : UInt16) (t : Arena) (contents : Contents byteHash) (m : Nat)
      (bytes₁ bytes₂ bytes₃ bytes₄ : Bytes),
      readSegments (.ofLimits (max settings.maxSegments count) capacity) count.toNat bytes₁
        = .ok (t, bytes₂) ∧
      readContents t {} m bytes₃ = .ok (contents, bytes₄) ∧
      s = ({ arena := t.refreshHint
             contents
             metrics := if settings.metrics then some {} else none } : Store).recount := by
  obtain ⟨body, n, -, hread, -⟩ := decode_eq_ok_iff.1 h
  obtain ⟨⟨capacity, count⟩, bytes₁, -, hread⟩ := bind_apply_eq_ok hread
  obtain ⟨t, bytes₂, hsegments, hread⟩ := bind_apply_eq_ok hread
  obtain ⟨m, bytes₃, -, hread⟩ := bind_apply_eq_ok hread
  obtain ⟨contents, bytes₄, hcontents, hread⟩ := bind_apply_eq_ok hread
  exact ⟨capacity, count, t, contents, m, bytes₁, bytes₂, bytes₃, bytes₄, hsegments, hcontents,
    congrArg (·.1.1) (Except.ok.inj hread).symm⟩

/-- Loading only fails on account of damage. -/
theorem onlyDamage_decode (check : Bytes → UInt32) (settings : Settings) (bytes : Bytes) :
    OnlyDamage (decode check settings bytes) := by
  rcases decode_cases check settings bytes with ⟨body, rfl⟩ | ⟨d, hd⟩
  · rw [decode_append]
    exact ((onlyDamage_readBody settings body).bind fun p => .ok p.1).bind fun x => .ok _
  · rw [hd]
    exact .error d

/-- Of two accepted dumps that start alike, neither goes on where the other one ends. -/
theorem eq_nil_of_decode_append {x x' : Store × Summary} {more : Bytes}
    (h : decode check settings bytes = .ok x)
    (h' : decode check settings (bytes ++ more) = .ok x') : more = [] := by
  obtain ⟨s, y⟩ := x
  obtain ⟨s', y'⟩ := x'
  obtain ⟨body, n, hbytes, hread, -⟩ := decode_eq_ok_iff.1 h
  obtain ⟨body', n', hbytes', hread', -⟩ := decode_eq_ok_iff.1 h'
  have hlength := congrArg List.length hbytes
  have hlength' := congrArg List.length hbytes'
  simp only [List.length_append, length_littleEndian] at hlength hlength'
  -- the shorter body is a front of the longer one, so all of it is read, and the rest is left over
  have hfront : body <+: bytes ++ more := by
    rw [hbytes, List.append_assoc]
    exact List.prefix_append _ _
  obtain ⟨rest, rfl⟩ : body <+: body' :=
    List.prefix_of_prefix_length_le hfront ⟨_, hbytes'.symm⟩ (by omega)
  have hboth := (steady_readSections settings).append hread rest
  rw [hread', List.nil_append] at hboth
  obtain rfl : [] = rest := (Prod.ext_iff.1 (Except.ok.inj hboth)).2
  apply List.eq_nil_of_length_eq_zero
  simp only [List.length_append, List.length_nil] at hlength'
  omega

/-- Whatever the checksum is, of a dump that is accepted every proper front is refused as damaged,
and so is everything longer that starts with it. -/
theorem decode_prefix_free {x : Store × Summary} (h : decode check settings bytes = .ok x) :
    (∀ front back, bytes = front ++ back → back ≠ [] →
      ∃ d, decode check settings front = .error (.corrupt d)) ∧
    ∀ more, more ≠ [] → ∃ d, decode check settings (bytes ++ more) = .error (.corrupt d) := by
  constructor
  · rintro front back rfl hback
    rcases (onlyDamage_decode check settings front).cases with ⟨x', hx'⟩ | hd
    · exact absurd (eq_nil_of_decode_append hx' h) hback
    · exact hd
  · intro more hmore
    rcases (onlyDamage_decode check settings (bytes ++ more)).cases with ⟨x', hx'⟩ | hd
    · exact absurd (eq_nil_of_decode_append h hx') hmore
    · exact hd

/-- A plain checksum: the sum of all bytes. -/
def byteSum (bytes : Bytes) : UInt32 := (bytes.map UInt8.toUInt32).sum

/-- The dump of a store of one link that has a content of two bytes. -/
def linkDump : Bytes :=
  let made : Step Store Unit := do Store.setContent (← Store.addLink .const .lowest) [1, 2]
  encode byteSum (made.on (.ofSettings .small)).2

theorem decode_prefix_free_linkDump : ∃ x, decode byteSum .small linkDump = .ok x ∧
    (∀ front back, linkDump = front ++ back → back ≠ [] →
      ∃ d, decode byteSum .small front = .error (.corrupt d)) ∧
    ∀ more, more ≠ [] → ∃ d, decode byteSum .small (linkDump ++ more) = .error (.corrupt d) := by
  have hok : (decode byteSum .small linkDump).isOk = true := by decide +kernel
  cases h : decode byteSum .small linkDump with
  | error f => simp [h, Except.isOk, Except.toBool] at hok
  | ok x => exact ⟨x, rfl, decode_prefix_free h⟩

end Dump

end SemanticNet
