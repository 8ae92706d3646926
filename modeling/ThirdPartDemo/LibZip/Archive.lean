import Mathlib.Data.List.Induction
import Mathlib.Data.List.Nodup
import ThirdPartDemo.LibZip.Model

/-!
# libZipDemo — what the archive holds

The vectors that `zip_source_buffer` refers to die with their pass of the loop,
so when `zip_close` reads the sources no block is live any more
(`compressLoop_dead`) and only the lengths of the entries are determined.
`compressLoop_packed` says what the loop registers: every listed name once, with
a dead source of the file's length, and an empty one for a file that did not
open. From both follows `compress_archives_iff`.
-/

namespace LibZip

open Library

/-- The archive holds each readable file of the list under its name, once and
byte for byte, and nothing under the name of a file that cannot be opened. -/
def Archives (fs : FileSystem) (filenames : List CString)
    (archive : List (CString × Bytes)) : Prop :=
  (∀ name ∈ filenames, ∀ content, fs name = some content →
    archive.filter (fun entry => entry.1 = name) = [(name, content)]) ∧
  ∀ name, fs name = none → ∀ entry ∈ archive, entry.1 ≠ name

/-- Whatever the dead memory holds, `compress` leaves such an archive. -/
def ArchivesWhatItRead (calls : ZipCalls) (fs : FileSystem) (filenames : List CString) : Prop :=
  ∀ memory archive, compress calls fs memory filenames = some archive →
    Archives fs filenames archive

-- ---------------------------------------------------------------------------
-- zip_file_add
-- ---------------------------------------------------------------------------

theorem zip_file_add_names (zip : Zip) (name : CString) (source : Source) :
    (zip_file_add zip name source).map Prod.fst =
      if name ∈ zip.map Prod.fst then zip.map Prod.fst else zip.map Prod.fst ++ [name] := by
  induction zip with
  | nil => rfl
  | cons entry rest ih =>
    rw [zip_file_add]
    by_cases heq : entry.1 = name
    · simp [heq]
    · have hne : name ≠ entry.1 := Ne.symm heq
      rw [if_neg heq, List.map_cons, ih, List.map_cons]
      by_cases hmem : name ∈ rest.map Prod.fst
      · rw [if_pos hmem, if_pos (List.mem_cons_of_mem _ hmem)]
      · rw [if_neg hmem, if_neg (by simp [hne, hmem])]
        rfl

/-- Overwriting keeps the names distinct. -/
theorem zip_file_add_nodup {zip : Zip} (h : (zip.map Prod.fst).Nodup) (name : CString)
    (source : Source) : ((zip_file_add zip name source).map Prod.fst).Nodup := by
  rw [zip_file_add_names]
  split_ifs with hmem
  · exact h
  · exact List.nodup_append.mpr ⟨h, List.nodup_singleton name, by
      intro a ha b hb hab
      rw [List.mem_singleton] at hb
      exact hmem (hb ▸ hab ▸ ha)⟩

theorem mem_zip_file_add {zip : Zip} {name : CString} {source : Source}
    {entry : CString × Source} (h : entry ∈ zip_file_add zip name source) :
    entry = (name, source) ∨ entry ∈ zip := by
  induction zip with
  | nil => exact Or.inl (List.mem_singleton.mp h)
  | cons first rest ih =>
    rw [zip_file_add] at h
    split_ifs at h with heq
    · rcases List.mem_cons.mp h with rfl | hrest
      · exact Or.inl rfl
      · exact Or.inr (List.mem_cons_of_mem _ hrest)
    · rcases List.mem_cons.mp h with rfl | hrest
      · exact Or.inr List.mem_cons_self
      · exact (ih hrest).imp_right (List.mem_cons_of_mem _)

-- ---------------------------------------------------------------------------
-- The loop
-- ---------------------------------------------------------------------------

variable {calls : ZipCalls} {fs : FileSystem}

/-- What the loop has registered after the names `seen`. -/
structure Packed (fs : FileSystem) (seen : List CString) (zip : Zip) : Prop where
  nodup : (zip.map Prod.fst).Nodup
  names : ∀ name, name ∈ zip.map Prod.fst ↔ name ∈ seen
  sizes : ∀ entry ∈ zip, entry.2.size = ((fs entry.1).getD []).length

/-- One pass leaves no block live that was dead before it. -/
theorem compressPass_dead {s : Packing} (h : s.heap.Dead) (filename : CString) :
    (compressPass calls fs s filename).heap.Dead :=
  h.free_alloc _

theorem compressPass_packed (hall : calls.AllSucceed) {s : Packing} {seen : List CString}
    (h : Packed fs seen s.zip) (filename : CString) :
    Packed fs (seen ++ [filename]) (compressPass calls fs s filename).zip := by
  unfold compressPass
  simp only [hall.zip_source_buffer, hall.zip_file_add, if_true]
  refine ⟨zip_file_add_nodup h.nodup .., ?_, ?_⟩
  · intro name
    rw [zip_file_add_names, List.mem_append, List.mem_singleton, ← h.names]
    split_ifs with hmem
    · exact ⟨Or.inl, fun hn => hn.elim id fun heq => heq ▸ hmem⟩
    · rw [List.mem_append, List.mem_singleton]
  · intro entry hentry
    rcases mem_zip_file_add hentry with rfl | hold
    · rfl
    · exact h.sizes entry hold

/-- **No reference survives the loop.** -/
theorem compressLoop_dead (calls : ZipCalls) (fs : FileSystem) (filenames : List CString) :
    (compressLoop calls fs filenames).heap.Dead := by
  rw [compressLoop]
  induction filenames using List.reverseRecOn with
  | nil => exact Heap.dead_empty
  | append_singleton seen filename ih =>
    rw [List.foldl_append]
    exact compressPass_dead ih filename

theorem compressLoop_packed (hall : calls.AllSucceed) (fs : FileSystem)
    (filenames : List CString) : Packed fs filenames (compressLoop calls fs filenames).zip := by
  rw [compressLoop]
  induction filenames using List.reverseRecOn with
  | nil => exact ⟨List.nodup_nil, by simp, by simp⟩
  | append_singleton seen filename ih =>
    rw [List.foldl_append]
    exact compressPass_packed hall ih filename

-- ---------------------------------------------------------------------------
-- The archive
-- ---------------------------------------------------------------------------

/-- In a dead heap a source is whatever the memory holds now. -/
theorem readSource_dead {heap : Heap Bytes} (h : heap.Dead) (memory : Memory) (source : Source) :
    readSource heap memory source = (List.range source.size).map (memory source.data) := by
  rw [readSource, h source.data]

/-- The archive of a run, with the sources read after the loop. -/
theorem compress_eq (hall : calls.AllSucceed) (fs : FileSystem) (memory : Memory)
    (filenames : List CString) :
    compress calls fs memory filenames =
      some ((compressLoop calls fs filenames).zip.map fun entry =>
        (entry.1, (List.range entry.2.size).map (memory entry.2.data))) := by
  simp only [compress, hall.zip_open, if_true, zip_close,
    readSource_dead (compressLoop_dead calls fs filenames)]

/-- Among entries with distinct names, the filter finds the one it looks for. -/
theorem filter_name_eq {zip : Zip} (hnodup : (zip.map Prod.fst).Nodup)
    {entry : CString × Source} (hmem : entry ∈ zip) :
    zip.filter (fun e => e.1 = entry.1) = [entry] := by
  induction zip with
  | nil => cases hmem
  | cons first rest ih =>
    rw [List.map_cons, List.nodup_cons] at hnodup
    rcases List.mem_cons.mp hmem with rfl | hrest
    · have hnone : rest.filter (fun e => e.1 = entry.1) = [] := by
        rw [List.filter_eq_nil_iff]
        intro e he heq
        exact hnodup.1 (List.mem_map.mpr ⟨e, he, of_decide_eq_true heq⟩)
      rw [List.filter_cons_of_pos (by simp), hnone]
    · have hne : first.1 ≠ entry.1 := by
        intro heq
        exact hnodup.1 (heq ▸ List.mem_map_of_mem hrest)
      rw [List.filter_cons_of_neg (by simpa using hne), ih hnodup.2 hrest]

/-- The same in the archive written from the entries, whatever is read. -/
theorem filter_read_eq {zip : Zip} (hnodup : (zip.map Prod.fst).Nodup) (read : Source → Bytes)
    {entry : CString × Source} (hmem : entry ∈ zip) :
    (zip.map fun e => (e.1, read e.2)).filter (fun e => e.1 = entry.1) =
      [(entry.1, read entry.2)] := by
  rw [List.filter_map]
  exact congrArg _ (filter_name_eq hnodup hmem)

/-- If every file is readable and empty, there is nothing to read through the
dead references. -/
theorem archives_of_empty (hall : calls.AllSucceed) {filenames : List CString}
    (hempty : ∀ name ∈ filenames, fs name = some []) :
    ArchivesWhatItRead calls fs filenames := by
  intro memory archive harchive
  obtain ⟨hnodup, hnames, hsizes⟩ := compressLoop_packed hall fs filenames
  rw [compress_eq hall] at harchive
  obtain rfl := Option.some.inj harchive
  set zip := (compressLoop calls fs filenames).zip
  have hfile : ∀ entry ∈ zip, fs entry.1 = some [] := fun entry hentry =>
    hempty _ ((hnames _).mp (List.mem_map_of_mem hentry))
  have hread : (zip.map fun entry =>
      (entry.1, (List.range entry.2.size).map (memory entry.2.data))) =
        zip.map fun entry => (entry.1, []) := by
    refine List.map_congr_left ?_
    intro entry hentry
    rw [hsizes entry hentry, hfile entry hentry]
    rfl
  rw [hread]
  refine ⟨?_, ?_⟩
  · intro name hname content hcontent
    obtain ⟨entry, hentry, rfl⟩ := List.mem_map.mp ((hnames name).mpr hname)
    rw [hfile entry hentry] at hcontent
    obtain rfl := Option.some.inj hcontent
    exact filter_read_eq hnodup (fun _ => []) hentry
  · intro name hnone entry hentry heq
    obtain ⟨registered, hreg, rfl⟩ := List.mem_map.mp hentry
    rw [← heq, hfile registered hreg] at hnone
    cases hnone

/-- Some content of the dead memory gives an entry other bytes than its file's. -/
theorem exists_memory_ne (source : Source) {content : Bytes} (hne : content ≠ []) :
    ∃ memory : Memory, (List.range source.size).map (memory source.data) ≠ content := by
  obtain ⟨b, rest, rfl⟩ := List.exists_cons_of_ne_nil hne
  -- all bytes of the dead memory differ from the first byte of the file
  refine ⟨fun _ _ => b + 1, ?_⟩
  intro heq
  have hb : b ∈ (List.range source.size).map fun _ => b + 1 := by
    rw [heq]
    exact List.mem_cons_self
  obtain ⟨-, -, hsame⟩ := List.mem_map.mp hb
  have hval := congrArg UInt8.toNat hsame
  rw [UInt8.toNat_add] at hval
  have hlt := b.toNat_lt
  have hone : UInt8.toNat 1 = 1 := rfl
  omega

/-- **When the archive can be relied on.** If all libzip calls succeed, the
archive holds what was read whatever the dead memory holds, if and only if
every listed name names a readable file and that file is empty. -/
theorem compress_archives_iff (calls : ZipCalls) (hall : calls.AllSucceed) (fs : FileSystem)
    (filenames : List CString) :
    ArchivesWhatItRead calls fs filenames ↔ ∀ name ∈ filenames, fs name = some [] := by
  refine ⟨?_, archives_of_empty hall⟩
  intro h name hname
  obtain ⟨hnodup, hnames, -⟩ := compressLoop_packed hall fs filenames
  obtain ⟨entry, hentry, rfl⟩ := List.mem_map.mp ((hnames name).mpr hname)
  cases hfile : fs entry.1 with
  | none =>
    -- the name that did not open was registered all the same
    exact absurd rfl ((h (fun _ _ => 0) _ (compress_eq hall fs _ filenames)).2 entry.1 hfile
      _ (List.mem_map_of_mem hentry))
  | some content =>
    by_contra hne
    have hne' : content ≠ [] := by simpa using hne
    obtain ⟨memory, hmemory⟩ := exists_memory_ne entry.2 hne'
    have hfilter := (h memory _ (compress_eq hall fs _ filenames)).1 entry.1 hname content hfile
    rw [filter_read_eq hnodup (fun source => (List.range source.size).map (memory source.data))
      hentry] at hfilter
    exact hmemory (congrArg Prod.snd (List.cons.inj hfilter).1)

/-- Calls that all succeed. -/
def ZipCalls.success : ZipCalls := ⟨true, fun _ => true, fun _ => true⟩

theorem ZipCalls.success_allSucceed : ZipCalls.success.AllSucceed :=
  ⟨rfl, fun _ => rfl, fun _ => rfl⟩

/-- Two empty files, one of them listed twice, are archived as they are. -/
theorem compress_archives_empty :
    ArchivesWhatItRead .success (fun _ => some []) ["a".toList, "b".toList, "a".toList] :=
  (compress_archives_iff _ ZipCalls.success_allSucceed _ _).mpr fun _ _ => rfl

/-- A file of one byte, read from memory that holds something else by now. -/
theorem compress_not_archives :
    ¬ ArchivesWhatItRead .success (FileSystem.put (fun _ => none) "a".toList [1])
        ["a".toList] := by
  intro h
  have harchive := (h (fun _ _ => 0) _ rfl).1 "a".toList (List.mem_singleton_self _) [1]
    (FileSystem.put_same ..)
  exact absurd harchive (by decide)

end LibZip
