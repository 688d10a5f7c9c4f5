import SemanticNet.Memory
import SemanticNet.Proofs.Steps

/-!
# Saved dumps

No change of a file tree that has to do with a dump takes a folder away (`FileTree.KeepsFolders`),
so a path that was found or made once is found from then on. A dump that is saved in a folder that
can be used (`Repository.Usable`) is what a memory with that repository starts from
(`Repository.Usable.save`, `Repository.Holds.openStore`).
-/

namespace SemanticNet

namespace FileTree

variable {t t' t'' : FileTree} {p q here there : Path} {e : Entry} {bytes : Bytes} {name : String}
  {names : List String}

/-! ## Changes at one path -/

/-- A change of what is kept for a path that is not above the working folder is seen at that path
only. -/
theorem find?_edit {f : Path → List (Path × Entry) → List (Path × Entry)} {e? : Option Entry}
    (hf : ∀ k l es, (f k es).lookup l = if l = k then e? else es.lookup l) (hp : ¬p <+: t.here) :
    (t.edit p f).find? q = if q = p then e? else t.find? q := by
  have hhere : (t.edit p f).here = t.here := by
    rw [edit]
    split <;> rfl
  rw [find?, find?, hhere]
  by_cases hq : q <+: t.here
  · have hqp : q ≠ p := by
      rintro rfl
      exact hp hq
    rw [if_pos hq, if_pos hq, if_neg hqp]
  rw [if_neg hq, if_neg hq, edit]
  -- each of the two is below the working folder or elsewhere
  by_cases hbelow : t.here <+: p <;> by_cases hbelow' : t.here <+: q
  · obtain ⟨p', rfl⟩ := hbelow
    obtain ⟨q', rfl⟩ := hbelow'
    simp [hf]
  · have hqp : q ≠ p := by
      rintro rfl
      exact hbelow' hbelow
    simp [hbelow, hbelow', hqp]
  · have hqp : q ≠ p := by
      rintro rfl
      exact hbelow hbelow'
    simp [hbelow, hbelow', hqp]
  · simp [hbelow, hbelow', hf]

theorem find?_put (hp : ¬p <+: t.here) :
    (t.put p e).find? q = if q = p then some e else t.find? q :=
  find?_edit (fun k l es => Assoc.lookup_put k l e es) hp

theorem find?_drop (hp : ¬p <+: t.here) :
    (t.drop p).find? q = if q = p then none else t.find? q :=
  find?_edit Assoc.lookup_drop hp

theorem here_put : (t.put p e).here = t.here := by
  rw [put, edit]
  split <;> rfl

theorem here_drop : (t.drop p).here = t.here := by
  rw [drop, edit]
  split <;> rfl

theorem isFolderAt_iff : t.isFolderAt p = true ↔ t.find? p = some .folder := decide_eq_true_iff

theorem isFolderAt_of_isPrefix (h : p <+: t.here) : t.isFolderAt p = true := by
  rw [isFolderAt_iff, find?, if_pos h]

/-- The working folder is below no other place. -/
theorem not_isPrefix_of_not_isFolderAt (h : t.isFolderAt p = false) : ¬p <+: t.here := by
  intro hprefix
  rw [isFolderAt_of_isPrefix hprefix] at h
  cases h

/-- Programs work in the same folder, and every folder of `t` is there in `t'`. -/
structure KeepsFolders (t t' : FileTree) : Prop where
  here : t'.here = t.here
  folders : ∀ p, t.isFolderAt p = true → t'.isFolderAt p = true

namespace KeepsFolders

theorem refl (t : FileTree) : t.KeepsFolders t := ⟨rfl, fun _ => id⟩

theorem trans (h : t.KeepsFolders t') (h' : t'.KeepsFolders t'') : t.KeepsFolders t'' :=
  ⟨h'.here.trans h.here, fun p hp => h'.folders p (h.folders p hp)⟩

/-- What is put where no folder is replaces none. -/
theorem put (hp : t.isFolderAt p = false) (e : Entry) : t.KeepsFolders (t.put p e) := by
  refine ⟨here_put, fun q hq => ?_⟩
  rw [isFolderAt_iff, find?_put (not_isPrefix_of_not_isFolderAt hp), if_neg]
  · exact isFolderAt_iff.1 hq
  · rintro rfl
    rw [hp] at hq
    cases hq

/-- Where a name leads depends on the folders only. -/
theorem walk? (h : t.KeepsFolders t') (hw : t.walk? here name = some there) :
    t'.walk? here name = some there := by
  cases hhere : t.isFolderAt here with
  | false => simp [FileTree.walk?, hhere] at hw
  | true =>
    rw [FileTree.walk?, hhere] at hw
    rwa [FileTree.walk?, h.folders here hhere]

theorem foldlM_walk? (h : t.KeepsFolders t') (hw : names.foldlM t.walk? here = some there) :
    names.foldlM t'.walk? here = some there := by
  induction names generalizing here with
  | nil => exact hw
  | cons name names ih =>
    rw [List.foldlM_cons, Option.bind_eq_bind, Option.bind_eq_some_iff] at hw ⊢
    obtain ⟨next, hname, hnames⟩ := hw
    exact ⟨next, h.walk? hname, ih hnames⟩

theorem start (h : t.KeepsFolders t') (names : List String) : t'.start names = t.start names := by
  unfold FileTree.start
  rw [h.here]

theorem follow? (h : t.KeepsFolders t') (hl : t.follow? names = some p) :
    t'.follow? names = some p := by
  rw [FileTree.follow?, h.start]
  exact h.foldlM_walk? hl

end KeepsFolders

theorem locateText?_eq_some_iff {text : String} : t.locateText? text = some p ↔
    (text.isEmpty = false ∧ isTooLong text = false) ∧ t.follow? (namesOf text) = some p := by
  rw [locateText?]
  cases text.isEmpty <;> cases isTooLong text <;> simp

namespace KeepsFolders

theorem locateText? {text : String} (h : t.KeepsFolders t') (hl : t.locateText? text = some p) :
    t'.locateText? text = some p := by
  rw [locateText?_eq_some_iff] at hl ⊢
  exact hl.imp_right h.follow?

end KeepsFolders

/-! ## Making folders -/

theorem isName_of (hsize : name.utf8ByteSize ≤ nameLimit) (hnull : name.contains '\x00' = false) :
    isName name = true := by
  rw [isName, decide_eq_true hsize, hnull]
  rfl

theorem enter?_leads (h : enter? (t, here) name = some (t', there)) :
    t.KeepsFolders t' ∧ t.walk? here name = some there ∧ t'.isFolderAt there = true := by
  obtain ⟨next, hwalk, h⟩ := Option.bind_eq_some_iff.1 h
  cases hnext : t.find? next with
  | none =>
    simp only [hnext] at h
    obtain ⟨rfl, rfl⟩ := Prod.mk.inj (Option.some.inj h)
    have hfree : t.isFolderAt next = false := by simp [isFolderAt, hnext]
    refine ⟨.put hfree .folder, hwalk, ?_⟩
    rw [isFolderAt_iff, find?_put (not_isPrefix_of_not_isFolderAt hfree), if_pos rfl]
  | some e =>
    cases e with
    | file bytes =>
      simp only [hnext] at h
      cases h
    | folder =>
      simp only [hnext] at h
      obtain ⟨rfl, rfl⟩ := Prod.mk.inj (Option.some.inj h)
      exact ⟨.refl t, hwalk, isFolderAt_iff.2 hnext⟩

/-- The names of the folders that were entered or made lead to the last of them. -/
theorem foldlM_enter?_leads (hhere : t.isFolderAt here = true)
    (h : names.foldlM enter? (t, here) = some (t', there)) :
    t.KeepsFolders t' ∧ names.foldlM t'.walk? here = some there ∧ t'.isFolderAt there = true := by
  induction names generalizing t here with
  | nil =>
    obtain ⟨rfl, rfl⟩ := Prod.mk.inj (Option.some.inj h)
    exact ⟨.refl t, rfl, hhere⟩
  | cons name names ih =>
    rw [List.foldlM_cons, Option.bind_eq_bind, Option.bind_eq_some_iff] at h
    obtain ⟨⟨t₁, next⟩, hname, hnames⟩ := h
    obtain ⟨hkeeps, hwalk, hfolder⟩ := enter?_leads hname
    obtain ⟨hkeeps', hleads, hthere⟩ := ih hfolder hnames
    refine ⟨hkeeps.trans hkeeps', ?_, hthere⟩
    rw [List.foldlM_cons, (hkeeps.trans hkeeps').walk? hwalk]
    exact hleads

/-- Where names start there is a folder. -/
theorem isFolderAt_start (t : FileTree) (names : List String) :
    t.isFolderAt (t.start names).1 = true := by
  apply isFolderAt_of_isPrefix
  unfold start
  split
  · exact List.nil_prefix
  · exact List.prefix_rfl

/-- The names of the folders that were made lead to the last of them. -/
theorem makeFolders?_leads (h : t.makeFolders? names = some (t', there)) :
    t.KeepsFolders t' ∧ t'.follow? names = some there ∧ t'.isFolderAt there = true := by
  rw [makeFolders?] at h
  split at h
  · cases h
  · obtain ⟨hkeeps, hleads, hfolder⟩ := foldlM_enter?_leads (t.isFolderAt_start names) h
    refine ⟨hkeeps, ?_, hfolder⟩
    rw [follow?, hkeeps.start]
    exact hleads

/-! ## Writing files -/

theorem write?_eq (hfolder : t.isFolderAt p.dropLast = true) (hfree : t.isFolderAt p = false)
    (bytes : Bytes) : t.write? p bytes = some (t.put p (.file bytes)) := by
  rw [write?, hfolder, hfree]
  rfl

/-- A file that was just written is moved to another path, where it is then found. -/
theorem move?_put (hpq : p ≠ q) (hfolder : t.isFolderAt q.dropLast = true)
    (hp : t.isFolderAt p = false) (hq : t.isFolderAt q = false) (bytes : Bytes) :
    ∃ t', (t.put p (.file bytes)).move? p q = some t' ∧ t.KeepsFolders t' ∧
      t'.find? q = some (.file bytes) := by
  have hnot := not_isPrefix_of_not_isFolderAt hp
  let t₁ := t.put p (.file bytes)
  have hkeeps : t.KeepsFolders t₁ := .put hp _
  have hread : t₁.readAt? p = some bytes := by
    rw [readAt?, find?_put hnot, if_pos rfl]
  have hfree : t₁.isFolderAt q = false := by
    rw [isFolderAt, find?_put hnot, if_neg hpq.symm]
    exact hq
  have hwrite : t₁.write? q bytes = some (t₁.put q (.file bytes)) :=
    write?_eq (hkeeps.folders _ hfolder) hfree bytes
  have hkeeps' : t.KeepsFolders (t₁.put q (.file bytes)) := hkeeps.trans (.put hfree _)
  have hfind : ∀ {r : Path}, r ≠ p →
      ((t₁.put q (.file bytes)).drop p).find? r = (t₁.put q (.file bytes)).find? r := by
    intro r hr
    rw [find?_drop (hkeeps'.here ▸ hnot), if_neg hr]
  refine ⟨(t₁.put q (.file bytes)).drop p, ?_, ⟨here_drop.trans hkeeps'.here, fun r hr => ?_⟩, ?_⟩
  · show (t₁.readAt? p).bind _ = _
    rw [hread, Option.bind_some, hwrite]
    simp [hpq]
  · have hrp : r ≠ p := by
      rintro rfl
      rw [hp] at hr
      cases hr
    rw [isFolderAt_iff, hfind hrp]
    exact isFolderAt_iff.1 (hkeeps'.folders r hr)
  · rw [hfind hpq.symm, find?_put (not_isPrefix_of_not_isFolderAt hfree), if_pos rfl]

end FileTree

namespace Repository

open FileTree

variable {files files' : FileTree} {folder : String} {p : Path} {bytes : Bytes}

theorem on_openFolder (folder : String) (t : FileTree) : (openFolder folder).on t =
    match (t.locateText? folder).bind fun p => (t.find? p).map fun e => (p, e) with
    | some (p, .folder) => (.ok p, t)
    | some (_, .file _) => (.error .noRepository, t)
    | none =>
      match t.makeFolders? (namesOf folder) with
      | some (t, p) => (.ok p, t)
      | none => (.error .unwritable, t) := rfl

theorem on_writing (change : FileTree → Option FileTree) (t : FileTree) :
    (writing change).on t = match change t with
      | some t => (.ok (), t)
      | none => (.error .unwritable, t) := rfl

/-- The path of a folder that was opened is that of its text. -/
theorem openFolder_leads (hnamed : folder.isEmpty = false) (hshort : isTooLong folder = false)
    (h : (openFolder folder).on files = (.ok p, files')) :
    files'.locateText? folder = some p ∧ files'.isFolderAt p = true := by
  rw [on_openFolder] at h
  cases hfound : (files.locateText? folder).bind fun p => (files.find? p).map fun e => (p, e) with
  | some found =>
    obtain ⟨q, e⟩ := found
    obtain ⟨r, hlocate, hr⟩ := Option.bind_eq_some_iff.1 hfound
    obtain ⟨e', he', heq⟩ := Option.map_eq_some_iff.1 hr
    obtain ⟨rfl, rfl⟩ := Prod.mk.inj heq
    cases e' with
    | file bytes =>
      simp only [hfound] at h
      cases (Prod.mk.inj h).1
    | folder =>
      simp only [hfound] at h
      obtain ⟨hp, rfl⟩ := Prod.mk.inj h
      obtain rfl := Except.ok.inj hp
      exact ⟨hlocate, isFolderAt_iff.2 he'⟩
  | none =>
    simp only [hfound] at h
    cases hmade : files.makeFolders? (namesOf folder) with
    | none =>
      simp only [hmade] at h
      cases (Prod.mk.inj h).1
    | some made =>
      obtain ⟨t, q⟩ := made
      simp only [hmade] at h
      obtain ⟨hp, rfl⟩ := Prod.mk.inj h
      obtain rfl := Except.ok.inj hp
      obtain ⟨-, hleads, hfolder⟩ := makeFolders?_leads hmade
      exact ⟨locateText?_eq_some_iff.2 ⟨⟨hnamed, hshort⟩, hleads⟩, hfolder⟩

/-! ## Dumps -/

/-- The folder holds a dump of these bytes. -/
structure Holds (files : FileTree) (folder : String) (bytes : Bytes) : Prop where
  opens : (files.locateText? folder).any files.isFolderAt = true
  dump : (files.locate? (.inside folder dumpName)).bind files.readAt? = some bytes

namespace Holds

theorem hasDump (h : Holds files folder bytes) :
    Id.run (Repository.hasDump files.disk folder) = true := by
  obtain ⟨q, hq, hread⟩ := Option.bind_eq_some_iff.1 h.dump
  show (files.locate? (.inside folder dumpName)).any files.isFileAt = true
  rw [hq, Option.any_some, isFileAt]
  cases hfind : files.find? q with
  | none => simp [readAt?, hfind] at hread
  | some e =>
    cases e with
    | file bytes => simp
    | folder => simp [readAt?, hfind] at hread

theorem load (h : Holds files folder bytes) (settings : Settings) :
    Id.run (Repository.load files.disk folder settings)
      = Dump.decode Crc32.check settings bytes := by
  have hfolder : files.disk.isFolder (.of folder) = true := h.opens
  have hread : files.disk.read? (.inside folder dumpName) = some bytes := h.dump
  simp only [Repository.load, Id.run, bind, hfolder, hread]
  rfl

/-- A memory with this repository starts with the store of the dump, unless it is to start empty. -/
theorem openStore (h : Holds files folder bytes) {settings : Settings}
    (hfolder : settings.repository = some folder) (hclear : settings.clear = false) :
    Memory.openStore files settings
      = (Dump.decode Crc32.check settings bytes).map Prod.fst := by
  rw [Memory.openStore, hfolder]
  simp only [hclear, h.hasDump, h.load]
  cases Dump.decode Crc32.check settings bytes <;> rfl

end Holds

/-- What it takes to save dumps in a folder: its text and that of the draft name places, the folder
is there or can be made, and neither the dump nor its draft has the place of a folder. The empty
text names no place, so it stands for no folder. -/
structure Usable (files : FileTree) (folder : String) : Prop where
  named : folder.isEmpty = false
  short : isTooLong (Place.inside folder draftName).text = false
  opens : ∃ p, ((openFolder folder).on files).1 = .ok p ∧ ∀ name ∈ [dumpName, draftName],
    ((openFolder folder).on files).2.isFolderAt (p ++ [name]) = false

theorem size_le_text (folder name : String) :
    folder.utf8ByteSize ≤ (Place.inside folder name).text.utf8ByteSize := by
  rw [Place.text]
  split <;> simp only [String.utf8ByteSize_append] <;> omega

/-- The text of the draft is longer than that of the dump. -/
theorem size_dump_le_draft (folder : String) : (Place.inside folder dumpName).text.utf8ByteSize
    ≤ (Place.inside folder draftName).text.utf8ByteSize := by
  have hnames : dumpName.utf8ByteSize ≤ draftName.utf8ByteSize := by decide
  simp only [Place.text]
  split <;> simp only [String.utf8ByteSize_append] <;> omega

theorem Usable.isTooLong_eq {text : String} (h : Usable files folder)
    (htext : text.utf8ByteSize ≤ (Place.inside folder draftName).text.utf8ByteSize) :
    isTooLong text = false :=
  decide_eq_false fun hlong => of_decide_eq_false h.short (Nat.lt_of_lt_of_le hlong htext)

/-- A file with the name of a dump in the folder is the dump of the folder. -/
theorem Usable.holds (h : Usable files folder) (hlocate : files'.locateText? folder = some p)
    (hfolder : files'.isFolderAt p = true)
    (hfind : files'.find? (p ++ [dumpName]) = some (.file bytes)) : Holds files' folder bytes := by
  have hname : isName dumpName = true := isName_of (by decide) (by simp [dumpName])
  have hwalk : files'.walk? p dumpName = some (p ++ [dumpName]) := by
    rw [walk?, hfolder, hname, if_neg (by decide), if_neg (by decide), if_neg (by decide)]
  have hplace : files'.locate? (.inside folder dumpName) = some (p ++ [dumpName]) := by
    show (if isTooLong _ then none else _) = _
    rw [if_neg (by simp [h.isTooLong_eq (size_dump_le_draft folder)])]
    show (files'.follow? (namesOf folder)).bind _ = _
    rw [(locateText?_eq_some_iff.1 hlocate).2]
    exact hwalk
  constructor
  · rw [hlocate]
    exact hfolder
  · rw [hplace, Option.bind_some, readAt?, hfind]

/-- A folder that can be used holds the dump that was saved in it. -/
theorem Usable.save (h : Usable files folder) (s : Store) :
    ∃ files', (Repository.save s folder).on files
        = (.ok (Dump.summarize s (Dump.encode Crc32.check s)), files') ∧
      Holds files' folder (Dump.encode Crc32.check s) := by
  obtain ⟨p, hopen, hfree⟩ := h.opens
  rcases hrun : (openFolder folder).on files with ⟨r, t⟩
  rw [hrun] at hopen hfree
  obtain rfl : r = .ok p := hopen
  obtain ⟨hlocate, hfolder⟩ :=
    openFolder_leads h.named (h.isTooLong_eq (size_le_text _ _)) hrun
  have hnames : p ++ [draftName] ≠ p ++ [dumpName] := by simp [draftName, dumpName]
  have hparent : ∀ name, t.isFolderAt (p ++ [name]).dropLast = true := by
    intro name
    rwa [List.dropLast_concat]
  have hdraft := hfree draftName (by simp)
  obtain ⟨t', hmove, hkeeps, hfind⟩ := move?_put hnames (hparent _) hdraft
    (hfree dumpName (by simp)) (Dump.encode Crc32.check s)
  refine ⟨t', ?_, h.holds (hkeeps.locateText? hlocate) (hkeeps.folders p hfolder) hfind⟩
  rw [Repository.save, Step.on_bind, hrun]
  dsimp only
  rw [Step.on_bind, on_writing, write?_eq (hparent _) hdraft]
  dsimp only
  rw [Step.on_bind, on_writing, hmove]
  rfl

end Repository

end SemanticNet
