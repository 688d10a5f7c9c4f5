import SemanticNet.Proofs.Editing
import SemanticNet.Proofs.Framing
import SemanticNet.Proofs.Restoring

/-!
# Loading

The dump of a store is read back when its free chains are usable, its elements are as records hold
them and its contents fit (`Store.Writable`, `Dump.exists_decode_encode`). Of a store at rest every
slot comes back as it was (`Store.AtRest.reread_eq`), and what is loaded is at rest again
(`AtRest.restored`).
-/

namespace SemanticNet

/-! ## Contents -/

namespace Contents

variable {hash : Bytes → UInt64} {c : Contents hash} {ps : List (Address × Bytes)} {a : Address}
  {bytes : Bytes}

theorem mem_toList : (a, bytes) ∈ c.toList ↔ c.get? a = some bytes :=
  Std.ExtTreeMap.mem_toList_iff_getElem?_eq_some

theorem nodup_toList : (c.toList.map Prod.fst).Nodup := by
  refine List.pairwise_map.2 (Std.ExtTreeMap.distinct_keys_toList.imp fun hne heq => hne ?_)
  rw [heq]
  exact Std.ReflCmp.compare_self

/-- Setting a list of contents, each for another address, gives each address its content. -/
theorem get?_foldl_set (hd : (ps.map Prod.fst).Nodup) :
    (ps.foldl (fun c p => c.set p.1 p.2) c).get? a = (ps.lookup a).or (c.get? a) := by
  induction ps generalizing c with
  | nil => rfl
  | cons p ps ih =>
    obtain ⟨hp, hd⟩ := List.nodup_cons.1 hd
    rw [List.foldl_cons, ih hd, get?_set, List.lookup_cons]
    -- a later entry for the same address would win, but there is none
    by_cases hpa : p.1 = a
    · have hnone : ps.lookup a = none := by
        rw [List.lookup_eq_none_iff]
        intro q hq
        have hne : a ≠ q.1 := fun heq => hp (hpa ▸ heq ▸ List.mem_map_of_mem hq)
        simpa using hne
      simp [hpa, hnone]
    · have hne : (a == p.1) = false := by simpa using Ne.symm hpa
      rw [if_neg hpa, hne]

theorem lookup_toList : c.toList.lookup a = c.get? a := by
  cases hl : c.toList.lookup a with
  | some bytes =>
    obtain ⟨l₁, l₂, hsplit, -⟩ := List.lookup_eq_some_iff.1 hl
    have hmem : (a, bytes) ∈ c.toList := by
      rw [hsplit]
      simp
    exact (mem_toList.1 hmem).symm
  | none =>
    symm
    rw [Option.eq_none_iff_forall_ne_some]
    intro bytes hget
    have := List.lookup_eq_none_iff.1 hl _ (mem_toList.2 hget)
    simp at this

/-- Contents are what their list says. -/
theorem entries_foldl_toList :
    (c.toList.foldl (fun c p => c.set p.1 p.2) ({} : Contents hash)).entries = c.entries := by
  refine Std.ExtTreeMap.ext_getElem? fun a => ?_
  have hget := get?_foldl_set (c := ({} : Contents hash)) (a := a) (nodup_toList (c := c))
  rw [lookup_toList] at hget
  have hnone : ({} : Contents hash).get? a = none := Std.ExtTreeMap.getElem?_empty
  rw [hnone, Option.or_none] at hget
  exact hget

end Contents

namespace Dump

open Reader

variable {t : Arena} {s : Store} {made : List Address} {settings : Settings} {a : Address}

/-! ## The parts of a dump -/

theorem toNat_ofNat_of_le {n : Nat} (h : n ≤ 65535) : (UInt16.ofNat n).toNat = n := by
  rw [UInt16.toNat_ofNat']
  omega

theorem yields_header (hpos : 0 < t.capacity) (hcap : t.capacity ≤ 65535)
    (hsize : t.segments.size ≤ 65535) :
    readHeader.Yields (header t) (.ofNat t.capacity, .ofNat t.segments.size) := by
  have hzero : ¬UInt16.ofNat t.capacity = 0 := fun h => by
    have hnat := toNat_ofNat_of_le hcap
    rw [h] at hnat
    simp at hnat
    omega
  have hcapacity := yields_half (.ofNat t.capacity)
  have hcount := yields_half (.ofNat t.segments.size)
  rw [toNat_ofNat_of_le hcap] at hcapacity
  rw [toNat_ofNat_of_le hsize] at hcount
  rw [header]
  simp only [List.append_assoc]
  refine Yields.bind (yields_take signature) (Yields.guard (by simp) ?_)
  refine Yields.bind (yields_number_of_lt 4 (by decide)) (Yields.guard (by simp) ?_)
  apply Yields.bind hcapacity
  rw [← List.append_nil (littleEndian 2 t.segments.size)]
  exact Yields.bind hcount (Yields.guard hzero (yields_pure _))

/-- Segments are read back behind the ones that are there. -/
theorem yields_segments {l : List Segment} (hsize : t.segments.size + l.length ≤ 65535)
    (hcap : t.capacity ≤ 65535)
    (hl : ∀ s ∈ l, s.Usable ∧ s.slots.size ≤ t.capacity ∧ ∀ p ∈ s.elements, p.2.Formed) :
    (readSegments t l.length).Yields
      ((l.zipIdx (t.segments.size + 1)).flatMap fun (s, n) =>
        (SegmentImage.of n t.capacity s).toBytes)
      { t with segments := t.segments ++ (l.map (·.reread t.capacity)).toArray } := by
  induction l generalizing t with
  | nil =>
    rw [List.map_nil, Array.append_empty]
    exact yields_pure t
  | cons s l ih =>
    obtain ⟨hs, hle, he⟩ := hl s List.mem_cons_self
    rw [List.length_cons] at hsize
    have hnumber : (UInt16.ofNat (t.segments.size + 1)).toNat = t.segments.size + 1 :=
      toNat_ofNat_of_le (by omega)
    have hrest := ih (t := { t with segments := t.segments.push (s.reread t.capacity) })
      (by rw [Array.size_push]; omega) hcap (fun s' hs' => hl s' (List.mem_cons_of_mem s hs'))
    rw [Array.size_push] at hrest
    have hpush : t.segments.push (s.reread t.capacity) ++ (l.map (·.reread t.capacity)).toArray
        = t.segments ++ ((s :: l).map (·.reread t.capacity)).toArray := by simp
    rw [hpush] at hrest
    rw [List.zipIdx_cons, List.flatMap_cons]
    apply Yields.bind (yields_segment hs hle hcap he)
    apply Yields.bind_nil (yields_lift (hs.restore_of hle hcap _))
    refine Yields.guard ?_ hrest
    show ¬(UInt16.ofNat (t.segments.size + 1)).toNat ≠ t.segments.size + 1
    rw [hnumber]
    simp

/-- Contents of links are read back, one after the other. -/
theorem yields_contents {c : Contents byteHash} {ps : List (Address × Bytes)}
    (hps : ∀ p ∈ ps, t.isLinkAt p.1 = true ∧ p.2.length < 256 ^ 4) :
    (readContents t c ps.length).Yields
      (ps.flatMap fun (a, bytes) => ofAddress a ++ littleEndian 4 bytes.length ++ bytes)
      (ps.foldl (fun c p => c.set p.1 p.2) c) := by
  induction ps generalizing c with
  | nil => exact yields_pure c
  | cons p ps ih =>
    obtain ⟨a, bytes⟩ := p
    obtain ⟨hlink, hlen⟩ := hps (a, bytes) List.mem_cons_self
    have hrest := ih (c := c.set a bytes) fun q hq => hps q (List.mem_cons_of_mem _ hq)
    rw [List.flatMap_cons]
    simp only [List.append_assoc]
    refine Yields.bind (yields_address a) (Yields.bind (yields_number_of_lt 4 hlen) ?_)
    apply Yields.bind (yields_take bytes)
    have hany : (t.find? a).any (·.type.isLink) = true := hlink
    simp only [hany, if_true]
    exact hrest

/-- What holds of the contents that are there, and still holds when a link is given a content that
fits, holds of all contents that are read. -/
theorem readContents_induction {P : Contents byteHash → Prop} {c c' : Contents byteHash} {n : Nat}
    {bytes rest : Bytes} (h : readContents t c n bytes = .ok (c', rest)) (hc : P c)
    (hset : ∀ c a content, t.isLinkAt a = true → content.length < 2 ^ 32 → P c →
      P (c.set a content)) : P c' := by
  induction n generalizing c bytes with
  | zero =>
    obtain ⟨rfl, -⟩ := Prod.ext_iff.1 (Except.ok.inj h)
    exact hc
  | succ n ih =>
    obtain ⟨a, bytes₁, -, h⟩ := bind_apply_eq_ok h
    obtain ⟨len, bytes₂, hlen, h⟩ := bind_apply_eq_ok h
    obtain ⟨content, bytes₃, hcontent, h⟩ := bind_apply_eq_ok h
    dsimp only at h
    split at h
    next hlink =>
      refine ih h (hset c a content hlink ?_ hc)
      rw [length_of_take hcontent]
      exact number_lt hlen
    next => cases h

/-- Whatever contents are read, they are of links, and they fit. -/
theorem fits_of_readContents {c : Contents byteHash} {n : Nat} {bytes rest : Bytes}
    (h : readContents t {} n bytes = .ok (c, rest)) :
    ∀ a content, c.get? a = some content → t.isLinkAt a = true ∧ content.length < 2 ^ 32 := by
  refine readContents_induction (P := fun c => ∀ a content, c.get? a = some content →
    t.isLinkAt a = true ∧ content.length < 2 ^ 32) h ?_ ?_
  · intro a content ha
    simp [Contents.get?] at ha
  intro c a content hlink hlen hc b content' hb
  rw [Contents.get?_set] at hb
  by_cases hab : a = b
  · rw [if_pos hab] at hb
    cases hb
    exact ⟨hab ▸ hlink, hlen⟩
  · rw [if_neg hab] at hb
    exact hc b content' hb

/-! ## The body -/

/-- The arena that a store comes back with, before it is decided where to allocate first. -/
def loadedArena (settings : Settings) (t : Arena) : Arena :=
  { Arena.ofLimits (max settings.maxSegments (.ofNat t.segments.size)) (.ofNat t.capacity) with
    segments := t.segments }

/-- The store that comes back, with what was read as its contents. -/
def restored (settings : Settings) (s : Store) (contents : Contents byteHash) : Store :=
  ({ arena := (loadedArena settings s.arena).refreshHint
     contents
     metrics := if settings.metrics then some {} else none } : Store).recount

/-- How the contents are read, when the rest has been read. -/
def readRest (settings : Settings) (s : Store) : Reader (Store × Nat) := do
  let n ← .number 4
  let contents ← readContents (loadedArena settings s.arena) {} n
  Reader.done
  return (restored settings s contents, n)

theorem capacity_loadedArena (settings : Settings) (hpos : 0 < t.capacity)
    (hcap : t.capacity ≤ 65535) : (loadedArena settings t).capacity = t.capacity := by
  show max (UInt16.ofNat t.capacity).toNat 1 = t.capacity
  rw [toNat_ofNat_of_le hcap]
  omega

end Dump

/-- What comes back of the segments of an arena. -/
def Arena.reread (t : Arena) : Arena :=
  { t with segments := t.segments.map (·.reread t.capacity) }

namespace Store

/-- What comes back of a store before its contents are read. -/
def reread (s : Store) : Store := { s with arena := s.arena.reread }

/-- What it takes for the segments of a store to be read back, and for its contents to belong to
links. -/
structure Writable (s : Store) : Prop where
  size_le : s.arena.segments.size ≤ 65535
  capacity_pos : 0 < s.arena.capacity
  capacity_le : s.arena.capacity ≤ 65535
  usable : s.arena.Usable
  slots_le : ∀ (i : Nat) (g : Segment), s.arena.segments[i]? = some g →
    g.slots.size ≤ s.arena.capacity
  formed : ∀ a e, s.arena.find? a = some e → e.Formed
  contents : ∀ a, (s.contents.get? a).isSome → s.arena.isLinkAt a = true

variable {s : Store} {made : List Address}

theorem AtRest.writable (h : s.AtRest made) : s.Writable where
  size_le := h.sound.tidy.addressable.size_le
  capacity_pos := h.sound.tidy.capacity_pos
  capacity_le := h.sound.tidy.capacity_le
  usable := h.sound.tidy.usable
  slots_le i g hg := (h.sound.tidy.sound i g hg).size_le
  formed a e he := (h.sound.proper a e he).formed (h.calm a e he)
  contents := h.sound.contents

/-- Of a store at rest every slot comes back as it was. -/
theorem AtRest.reread_eq (h : s.AtRest made) : s.reread = s := by
  have ht := h.sound.tidy
  have hsegments : s.arena.segments.map (·.reread s.arena.capacity) = s.arena.segments := by
    refine Array.ext_getElem? fun i => ?_
    rw [Array.getElem?_map]
    cases hg : s.arena.segments[i]? with
    | none => rfl
    | some g => exact congrArg some ((ht.sound i g hg).reread_eq ht.capacity_le)
  rw [reread, Arena.reread, hsegments]

/-- The elements of a store that can be written all come back. -/
theorem Writable.find?_reread (h : s.Writable) (a : Address) :
    s.reread.arena.find? a = s.arena.find? a := by
  refine Option.ext fun e => ?_
  rw [Arena.find?_eq_some_iff, Arena.find?_eq_some_iff, Arena.slot?, Arena.slot?]
  split
  · rfl
  · show ((s.arena.segments.map (·.reread s.arena.capacity))[_]?.bind _ = _) ↔ _
    rw [Array.getElem?_map]
    cases hg : s.arena.segments[a.segment.toNat - 1]? with
    | none => rfl
    | some g => exact (h.usable _ g hg).slot?_reread (h.slots_le _ g hg) h.capacity_le

/-- What the segments of a store that can be written list is as records hold it. -/
theorem Writable.formed_of_mem (h : s.Writable) {g : Segment} {i : Nat}
    (hg : s.arena.segments[i]? = some g) : ∀ p ∈ g.elements, p.2.Formed := by
  intro p hp
  have hi := (Array.getElem?_eq_some_iff.1 hg).1
  have hsize := h.size_le
  have hfind : s.arena.find? (Arena.addressAt i p.1) = some p.2 := by
    rw [Arena.find?_eq_some_iff, Arena.slot?_of_segment hg (Arena.toNat_addressAt (by omega))]
    exact (Segment.mem_elements ((h.slots_le i g hg).trans h.capacity_le)).1 hp
  exact h.formed _ _ hfind

end Store

namespace Dump

open Reader

variable {t : Arena} {s : Store} {made : List Address} {settings : Settings} {a : Address}

/-- The header and the segments come back whatever follows them. -/
theorem readBody_body (h : s.Writable) (rest : Bytes) :
    readBody settings (header s.arena ++ (ofSegments s.arena ++ rest))
      = readRest settings s.reread rest := by
  have hcap := capacity_loadedArena settings h.capacity_pos h.capacity_le
  have hsegments : ∀ g ∈ s.arena.segments.toList, g.Usable ∧
      g.slots.size ≤ (loadedArena settings s.arena).capacity ∧ ∀ p ∈ g.elements, p.2.Formed := by
    intro g hg
    obtain ⟨i, hi⟩ := List.mem_iff_getElem?.1 hg
    rw [Array.getElem?_toList] at hi
    exact ⟨h.usable i g hi, hcap ▸ h.slots_le i g hi, h.formed_of_mem hi⟩
  have hread := yields_segments (t := { loadedArena settings s.arena with segments := #[] })
    (l := s.arena.segments.toList) (by simpa using h.size_le) (by rw [hcap]; exact h.capacity_le)
    hsegments
  have hlength : (UInt16.ofNat s.arena.segments.size).toNat = s.arena.segments.toList.length := by
    rw [toNat_ofNat_of_le h.size_le, Array.length_toList]
  have hall : ({ loadedArena settings s.arena with
      segments := #[] ++ (s.arena.segments.toList.map
        (·.reread (loadedArena settings s.arena).capacity)).toArray } : Arena)
        = loadedArena settings s.reread.arena := by
    have hsize : s.reread.arena.segments.size = s.arena.segments.size := Array.size_map
    rw [hcap]
    simp only [loadedArena, hsize]
    simp [Store.reread, Arena.reread, ← Array.toList_map]
  rw [hall, ← hlength] at hread
  have hbytes : ofSegments s.arena = (s.arena.segments.toList.zipIdx 1).flatMap fun (g, n) =>
      (SegmentImage.of n (loadedArena settings s.arena).capacity g).toBytes := by
    rw [hcap]
    rfl
  rw [readBody, (yields_header h.capacity_pos h.capacity_le h.size_le).bind_apply, hbytes]
  exact hread.bind_apply rest

/-! ## What comes back -/

theorem find?_refreshHint : t.refreshHint.find? a = t.find? a := by
  rw [Arena.refreshHint]
  split <;> rfl

theorem find?_loadedArena : (loadedArena settings t).find? a = t.find? a := rfl

theorem find?_restored {contents : Contents byteHash} :
    (restored settings s contents).arena.find? a = s.arena.find? a := by
  show ((loadedArena settings s.arena).refreshHint).find? a = _
  rw [find?_refreshHint, find?_loadedArena]

theorem segments_restored {contents : Contents byteHash} :
    (restored settings s contents).arena.segments = s.arena.segments := by
  show (loadedArena settings s.arena).refreshHint.segments = _
  rw [Arena.refreshHint]
  split <;> rfl

theorem capacity_restored {contents : Contents byteHash} (ht : s.arena.Tidy) :
    (restored settings s contents).arena.capacity = s.arena.capacity := by
  rw [← capacity_loadedArena settings ht.capacity_pos ht.capacity_le]
  show (loadedArena settings s.arena).refreshHint.capacity = _
  rw [Arena.refreshHint]
  split <;> rfl

theorem toNat_max (m n : UInt16) : (max m n).toNat = max m.toNat n.toNat := by
  show (if m ≤ n then n else m).toNat = max m.toNat n.toNat
  simp only [UInt16.le_iff_toNat_le]
  split <;> omega

theorem tidy_loadedArena (ht : t.Tidy) : (loadedArena settings t).Tidy := by
  have hcap := capacity_loadedArena settings ht.capacity_pos ht.capacity_le
  have hsize := toNat_ofNat_of_le (Nat.le_trans ht.size_le ht.maxSegments_le)
  refine ⟨?_, ?_, by rw [hcap]; exact ht.capacity_pos, by rw [hcap]; exact ht.capacity_le, ?_,
    fun i g hg => by rw [hcap]; exact ht.sound i g hg⟩
  · show t.segments.size ≤ max (max settings.maxSegments (.ofNat t.segments.size)).toNat 1
    rw [toNat_max, hsize]
    omega
  · show max (max settings.maxSegments (.ofNat t.segments.size)).toNat 1 ≤ 65535
    have := (max settings.maxSegments (.ofNat t.segments.size)).toNat_lt
    omega
  · show 0 < max t.segments.size 1
    omega

theorem tidy_refreshHint (ht : t.Tidy) : t.refreshHint.Tidy := by
  rw [Arena.refreshHint]
  split
  next i hi =>
    have hlt := (Array.findIdx?_eq_some_iff_getElem.1 hi).1
    refine ⟨ht.size_le, ht.maxSegments_le, ht.capacity_pos, ht.capacity_le, ?_, ht.sound⟩
    show i < max t.segments.size 1
    omega
  next => exact ht

end Dump

/-- A store that comes back is at rest, as long as only links have contents. -/
theorem Store.AtRest.restored {s : Store} {made : List Address} {settings : Settings}
    {contents : Contents byteHash} (h : s.AtRest made)
    (hlinks : ∀ a, (contents.get? a).isSome → s.arena.isLinkAt a = true) :
    (Dump.restored settings s contents).AtRest made := by
  have hfind : ∀ a, (Dump.restored settings s contents).arena.find? a = s.arena.find? a :=
    fun a => Dump.find?_restored
  refine ⟨⟨?_, ?_, fun a e he => ?_, fun a ha => ?_, Store.census_recount _⟩, fun a e he => ?_⟩
  · exact Dump.tidy_refreshHint (Dump.tidy_loadedArena h.sound.tidy)
  · exact h.sound.wired.of_threads fun a => by rw [hfind]
  · rw [hfind] at he
    exact h.sound.proper a e he
  · rw [Arena.isLinkAt, hfind]
    exact hlinks a ha
  · rw [hfind] at he
    exact h.calm a e he

namespace Dump

open Reader

variable {s : Store} {made : List Address} {settings : Settings} {check : Bytes → UInt32}

/-- A dump says nothing else than what the segments and the contents are. -/
theorem encode_congr {s' : Store} (hsegments : s'.arena.segments = s.arena.segments)
    (hcapacity : s'.arena.capacity = s.arena.capacity)
    (hentries : s'.contents.entries = s.contents.entries) : encode check s' = encode check s := by
  have hheader : header s'.arena = header s.arena := by rw [header, hcapacity, hsegments, header]
  have hbody : ofSegments s'.arena = ofSegments s.arena := by
    rw [ofSegments, hcapacity, hsegments, ofSegments]
  have hcontents : ofContents s'.contents = ofContents s.contents := by
    rw [ofContents, Contents.size, Contents.toList, hentries]
    rfl
  rw [encode, body, hheader, hbody, hcontents]
  rfl

theorem body_eq (s : Store) :
    body s = header s.arena ++ (ofSegments s.arena ++ ofContents s.contents) := by
  rw [body, List.append_assoc]

/-- The checksum fits, so it all depends on the contents. -/
theorem decode_eq (h : s.Writable) :
    decode check settings (encode check s) = do
      let (s', n) ← (readRest settings s.reread).run' (ofContents s.contents)
      return (s', ⟨s'.arena.segments.size, s'.arena.elements.length, n,
        (encode check s).length⟩) := by
  have hbytes : encode check s = body s ++ littleEndian 4 (check (body s)).toNat := rfl
  have hlength : (encode check s).length = (body s).length + 4 := by simp [encode]
  -- header and segments come back whatever the contents are
  have hbody : readBody settings (body s) = readRest settings s.reread (ofContents s.contents) := by
    rw [body_eq]
    exact readBody_body h _
  rw [hlength, hbytes, decode_append]
  simp only [StateT.run', hbody]

/-- What is loaded from the dump of a store at rest is what was restored of it. -/
theorem restored_of_decode {s' : Store} {y : Summary} (h : s.AtRest made)
    (hload : decode check settings (encode check s) = .ok (s', y)) :
    ∃ contents, s' = restored settings s contents ∧
      ∀ a, (contents.get? a).isSome → s.arena.isLinkAt a = true := by
  -- of the contents that were read nothing is known but that they are of links
  rw [decode_eq h.writable, h.reread_eq] at hload
  obtain ⟨⟨s₁, n⟩, hrest, hload⟩ := bind_eq_ok_iff.1 hload
  obtain ⟨rfl, -⟩ := Prod.ext_iff.1 (Except.ok.inj hload)
  obtain ⟨rest, hread⟩ := run'_eq_ok_iff.1 hrest
  obtain ⟨m, bytes₁, -, hread⟩ := bind_apply_eq_ok hread
  obtain ⟨contents, bytes₂, hcontents, hread⟩ := bind_apply_eq_ok hread
  obtain ⟨u, bytes₃, -, hread⟩ := bind_apply_eq_ok hread
  have hfirst : restored settings s contents = s₁ := congrArg (·.1.1) (Except.ok.inj hread)
  refine ⟨contents, hfirst.symm, fun a ha => ?_⟩
  obtain ⟨content, hcontent⟩ := Option.isSome_iff_exists.1 ha
  exact (fits_of_readContents hcontents a content hcontent).1

/-- What is loaded from the dump of a store at rest is at rest, and has its elements. -/
theorem atRest_of_decode {s' : Store} {y : Summary} (h : s.AtRest made)
    (hload : decode check settings (encode check s) = .ok (s', y)) : s'.AtRest made := by
  obtain ⟨contents, rfl, hlinks⟩ := restored_of_decode h hload
  exact h.restored hlinks

/-- There are fewer contents of links than a dump can count. -/
theorem size_lt (h : ∀ a, (s.contents.get? a).isSome → s.arena.isLinkAt a = true) :
    s.contents.size < 256 ^ 4 := by
  have hlive : ∀ a ∈ s.contents.toList.map Prod.fst, a ≠ .empty := by
    intro a ha
    obtain ⟨⟨b, bytes⟩, hp, rfl⟩ := List.mem_map.1 ha
    have hlink := h b (Option.isSome_of_eq_some (Contents.mem_toList.1 hp))
    obtain ⟨e, he, -⟩ := (Option.any_eq_true _ _).1 hlink
    exact Arena.ne_empty_of_find? he
  have hlt := Arena.length_lt_of_nodup Contents.nodup_toList hlive
  have hlen : s.contents.toList.length = s.contents.size := Std.ExtTreeMap.length_toList
  rwa [List.length_map, hlen] at hlt

/-- The contents section is read back when each content fits. -/
theorem yields_readRest (settings : Settings) (h : s.Writable)
    (hfit : ∀ a bytes, s.contents.get? a = some bytes → bytes.length < 2 ^ 32) :
    ∃ contents, contents.entries = s.contents.entries ∧
      readRest settings s.reread (ofContents s.contents)
        = .ok ((restored settings s.reread contents, s.contents.size), []) := by
  have hlen : s.contents.toList.length = s.contents.size := Std.ExtTreeMap.length_toList
  have hlinks : ∀ p ∈ s.contents.toList,
      (loadedArena settings s.reread.arena).isLinkAt p.1 = true ∧ p.2.length < 256 ^ 4 := by
    intro p hp
    obtain ⟨a, bytes⟩ := p
    have hget := Contents.mem_toList.1 hp
    refine ⟨?_, hfit a bytes hget⟩
    rw [Arena.isLinkAt, find?_loadedArena, h.find?_reread]
    exact h.contents a (Option.isSome_of_eq_some hget)
  have hread := yields_contents (c := {}) hlinks
  rw [hlen] at hread
  refine ⟨_, Contents.entries_foldl_toList, ?_⟩
  have hall := (yields_number_of_lt 4 (size_lt h.contents)).bind_apply (f := fun n => do
    let contents ← readContents (loadedArena settings s.reread.arena) {} n
    Reader.done
    return (restored settings s.reread contents, n))
      (s.contents.toList.flatMap fun (a, bytes) =>
        ofAddress a ++ littleEndian 4 bytes.length ++ bytes)
  rw [ofContents]
  apply hall.trans
  have hrest := hread.bind_apply (f := fun contents => do
    Reader.done
    return (restored settings s.reread contents, s.contents.size)) []
  rw [List.append_nil] at hrest
  exact hrest

/-- The dump of a store that can be written and whose contents fit is read back. -/
theorem exists_decode_encode (settings : Settings) (check : Bytes → UInt32) (h : s.Writable)
    (hfit : ∀ a bytes, s.contents.get? a = some bytes → bytes.length < 2 ^ 32) :
    ∃ contents, contents.entries = s.contents.entries ∧
      decode check settings (encode check s)
        = .ok (restored settings s.reread contents,
          ⟨s.reread.arena.segments.size, s.reread.arena.elements.length, s.contents.size,
            (encode check s).length⟩) := by
  obtain ⟨contents, hentries, hread⟩ := yields_readRest settings h hfit
  refine ⟨contents, hentries, ?_⟩
  rw [decode_eq h, StateT.run', hread]
  have helements : (restored settings s.reread contents).arena.elements
      = s.reread.arena.elements := by
    rw [Arena.elements, segments_restored]
    rfl
  show Except.ok _ = Except.ok _
  rw [segments_restored, helements]

/-- The dump of a store at rest whose contents fit is read back. -/
theorem decode_encode (settings : Settings) (check : Bytes → UInt32) (h : s.AtRest made)
    (hfit : ∀ a bytes, s.contents.get? a = some bytes → bytes.length < 2 ^ 32) :
    ∃ contents, contents.entries = s.contents.entries ∧
      decode check settings (encode check s)
        = .ok (restored settings s contents, summarize s (encode check s)) := by
  have hread := exists_decode_encode settings check h.writable hfit
  rwa [h.reread_eq] at hread

end Dump

end SemanticNet
