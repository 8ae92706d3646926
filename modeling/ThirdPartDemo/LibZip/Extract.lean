import Mathlib.Data.List.Induction
import ThirdPartDemo.LibZip.Containment

/-!
# libZipDemo — what extraction writes

The loop of `decompress` looks at none of its results: it opens the output file
before it reads, reads through whatever handle it got, and writes the whole buffer
however much was read. So an entry on which a call fails leaves a file of the right
size, or of any size under any name, and `zip_fread` is called on NULL where the
entry could not be opened.

`extracts_iff` says that the archive alone decides: extraction is exact when every
entry opens and every entry whose path can be written is read in full.
-/

namespace LibZip

open Library

/-- The three calls on the entry succeed, and all of its data is read. -/
def Entry.Good (entry : Entry) : Prop :=
  entry.zip_fopen_index = true ∧ entry.zip_stat_index = 0 ∧ entry.zip_fread = entry.data.length

/-- What extraction should come to: every file that was written has the data of the
entry it is named after, an entry on which a call fails changes nothing, and
`zip_fread` is not called on NULL. -/
structure ExtractsExactly (entries : List Entry) (writable : CString → Bool)
    (outputFolder : CString) (fs : FileSystem) : Prop where
  written : ∀ path ∈ (decompress (some entries) writable outputFolder fs).opened,
    ∃ entry ∈ entries, path = outputFolder ++ '/' :: entry.name ∧
      (decompress (some entries) writable outputFolder fs).fs path = some entry.data
  skips : ∀ before entry, before ++ [entry] <+: entries → ¬ entry.Good →
    (decompress (some (before ++ [entry])) writable outputFolder fs).fs =
        (decompress (some before) writable outputFolder fs).fs ∧
      (decompress (some (before ++ [entry])) writable outputFolder fs).opened =
        (decompress (some before) writable outputFolder fs).opened
  notNull : (decompress (some entries) writable outputFolder fs).freadNull = false

-- ---------------------------------------------------------------------------
-- One entry
-- ---------------------------------------------------------------------------

variable {entries before : List Entry} {entry : Entry} {writable : CString → Bool}
  {outputFolder : CString} {fs : FileSystem}

/-- The buffer of a good entry is its data, and its path has its name. -/
theorem Entry.Good.buffer_eq (h : entry.Good) : entry.buffer = entry.data := by
  obtain ⟨-, hstat, hread⟩ := h
  have hstored := entry.stored_eq (by omega)
  rw [hread, Int.toNat_natCast, List.take_length] at hstored
  rw [Entry.buffer, entry.stat_eq hstat, hstored]
  exact List.take_left

theorem Entry.Good.outputPath_eq (h : entry.Good) :
    outputPath outputFolder entry = outputFolder ++ '/' :: entry.name := by
  rw [outputPath, entry.stat_eq h.2.1]

theorem decompress_concat (before : List Entry) (entry : Entry) :
    decompress (some (before ++ [entry])) writable outputFolder fs =
      decompressPass writable outputFolder
        (decompress (some before) writable outputFolder fs) entry := by
  rw [decompress, List.foldl_append]
  rfl

/-- An entry whose path cannot be written changes no file. -/
theorem decompressPass_unwritable (s : Unpacking)
    (h : ¬ writable (outputPath outputFolder entry) = true) :
    (decompressPass writable outputFolder s entry).fs = s.fs ∧
      (decompressPass writable outputFolder s entry).opened = s.opened := by
  unfold decompressPass
  dsimp only
  rw [if_neg h]
  exact ⟨rfl, rfl⟩

/-- Any other entry writes its buffer. -/
theorem decompressPass_writable (s : Unpacking)
    (h : writable (outputPath outputFolder entry) = true) :
    (decompressPass writable outputFolder s entry).fs =
        s.fs.put (outputPath outputFolder entry) entry.buffer ∧
      (decompressPass writable outputFolder s entry).opened =
        s.opened ++ [outputPath outputFolder entry] := by
  unfold decompressPass
  dsimp only
  rw [if_pos h]
  exact ⟨rfl, rfl⟩

-- ---------------------------------------------------------------------------
-- The archive
-- ---------------------------------------------------------------------------

/-- `zip_fread` is called on NULL exactly if some entry did not open. -/
theorem decompressLoop_freadNull (s : Unpacking) (entries : List Entry) :
    (entries.foldl (decompressPass writable outputFolder) s).freadNull = false ↔
      s.freadNull = false ∧ ∀ entry ∈ entries, entry.zip_fopen_index = true := by
  induction entries generalizing s with
  | nil => simp
  | cons entry entries ih =>
    have hpass : (decompressPass writable outputFolder s entry).freadNull =
        (s.freadNull || !entry.zip_fopen_index) := by
      unfold decompressPass
      dsimp only
      split_ifs <;> rfl
    rw [List.foldl_cons, ih, hpass]
    simp [and_assoc]

/-- When all that is written comes from good entries, every file has the data of
the last entry of its name. -/
theorem decompress_written
    (h : ∀ entry ∈ entries, writable (outputPath outputFolder entry) = true → entry.Good) :
    ∀ path ∈ (decompress (some entries) writable outputFolder fs).opened,
      ∃ entry ∈ entries, path = outputFolder ++ '/' :: entry.name ∧
        (decompress (some entries) writable outputFolder fs).fs path = some entry.data := by
  induction entries using List.reverseRecOn with
  | nil =>
    intro path hpath
    cases hpath
  | append_singleton before entry ih =>
    have hbefore := ih fun other hother => h other (List.mem_append_left _ hother)
    intro path hpath
    rw [decompress_concat] at hpath ⊢
    by_cases hwritable : writable (outputPath outputFolder entry) = true
    · have hgood := h entry (by simp) hwritable
      obtain ⟨hfs, hopened⟩ := decompressPass_writable
        (decompress (some before) writable outputFolder fs) hwritable
      rw [hopened] at hpath
      rw [hfs]
      by_cases hsame : path = outputPath outputFolder entry
      · refine ⟨entry, by simp, hsame.trans hgood.outputPath_eq, ?_⟩
        rw [hsame, FileSystem.put_same, hgood.buffer_eq]
      · rw [List.mem_append, List.mem_singleton, or_iff_left hsame] at hpath
        obtain ⟨other, hother, hname, hdata⟩ := hbefore path hpath
        exact ⟨other, by simp [hother], hname, by rw [FileSystem.put_of_ne _ _ hsame, hdata]⟩
    · obtain ⟨hfs, hopened⟩ := decompressPass_unwritable
        (decompress (some before) writable outputFolder fs) hwritable
      rw [hopened] at hpath
      rw [hfs]
      obtain ⟨other, hother, hname, hdata⟩ := hbefore path hpath
      exact ⟨other, by simp [hother], hname, hdata⟩

/-- **When extraction writes the entry or nothing.** For every archive, whatever
libzip returns for its entries, and whatever can be written: extraction is exact if
and only if every entry opens, and every entry whose output path can be written is
stat'ed and read in full. -/
theorem extracts_iff (entries : List Entry) (writable : CString → Bool)
    (outputFolder : CString) (fs : FileSystem) :
    ExtractsExactly entries writable outputFolder fs ↔
      ∀ entry ∈ entries, entry.zip_fopen_index = true ∧
        (writable (outputPath outputFolder entry) = true → entry.Good) := by
  have hnull : (decompress (some entries) writable outputFolder fs).freadNull = false ↔
      ∀ entry ∈ entries, entry.zip_fopen_index = true := by
    rw [decompress, decompressLoop_freadNull]
    simp
  constructor
  · intro hexact entry hentry
    refine ⟨hnull.mp hexact.notNull entry hentry, ?_⟩
    intro hwritable
    by_contra hbad
    obtain ⟨before, after, rfl⟩ := List.append_of_mem hentry
    have hopened := (hexact.skips before entry ⟨after, by simp⟩ hbad).2
    -- but the entry was opened for writing
    rw [decompress_concat, (decompressPass_writable _ hwritable).2] at hopened
    exact absurd hopened (by simp)
  · intro hentries
    refine ⟨decompress_written fun entry hentry => (hentries entry hentry).2, ?_,
      hnull.mpr fun entry hentry => (hentries entry hentry).1⟩
    intro before entry hpre hbad
    have hmem : entry ∈ entries := hpre.subset (by simp)
    have hunwritable : ¬ writable (outputPath outputFolder entry) = true := by
      intro hwritable
      exact hbad ((hentries entry hmem).2 hwritable)
    rw [decompress_concat]
    exact decompressPass_unwritable _ hunwritable

/-- An entry `a` of one byte whose data does not match its checksum. -/
def brokenEntry : Entry where
  name := "a".toList
  data := [42]
  zip_fopen_index := true
  zip_stat_index := 0
  zstat := { name := "a".toList, size := 1 }
  zip_fread := -1
  stored := []
  stat_eq _ := rfl
  stored_eq h := by cases h

/-- It becomes a file with one zero byte. -/
theorem decompress_writes_zeros :
    ¬ ExtractsExactly [brokenEntry] (fun _ => true) "./d".toList (fun _ => none) := by
  intro hexact
  obtain ⟨entry, hentry, -, hdata⟩ := hexact.written "./d/a".toList (List.mem_singleton_self _)
  rw [List.mem_singleton.mp hentry] at hdata
  exact absurd hdata (by decide)

end LibZip
