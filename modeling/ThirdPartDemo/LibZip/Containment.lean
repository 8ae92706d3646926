import ThirdPartDemo.Library.LexicalPath
import ThirdPartDemo.LibZip.Model

/-!
# libZipDemo — where extraction writes

`decompress` joins the output folder and the entry name with a slash and opens
what comes out. Whether that lies below the folder depends on the entry name
alone, read as steps from the folder:

* `mem_opened_iff` — the files that a run opens for writing;
* `contained_iff` — every run stays strictly below the output folder exactly
  when the folder is named at all and the steps of every entry name stay below
  it. A name such as `../evil` does not (`not_contained_dotdot`).
-/

namespace LibZip

open Library

/-- Whatever can be written and whatever is on disk, every file that is opened
for writing lies strictly below the output folder. -/
def Contained (entries : List Entry) (outputFolder : CString) : Prop :=
  ∀ writable fs, ∀ path ∈ (decompress (some entries) writable outputFolder fs).opened,
    (lexical path).StrictlyBelow (lexical outputFolder)

variable {writable : CString → Bool} {outputFolder : CString}

theorem decompressPass_opened (s : Unpacking) (entry : Entry) :
    (decompressPass writable outputFolder s entry).opened =
      s.opened ++ [outputPath outputFolder entry].filter writable := by
  unfold decompressPass
  by_cases hw : writable (outputPath outputFolder entry) = true
  · simp [hw]
  · simp [hw]

/-- The loop opens what can be opened of the paths of the entries, in order. -/
theorem decompressLoop_opened (s : Unpacking) (entries : List Entry) :
    (entries.foldl (decompressPass writable outputFolder) s).opened =
      s.opened ++ (entries.map (outputPath outputFolder)).filter writable := by
  induction entries generalizing s with
  | nil => simp
  | cons entry entries ih =>
    rw [List.foldl_cons, ih, decompressPass_opened, List.append_assoc, ← List.filter_append]
    rfl

theorem mem_opened_iff (entries : List Entry) (fs : FileSystem) (path : CString) :
    path ∈ (decompress (some entries) writable outputFolder fs).opened ↔
      writable path = true ∧ ∃ entry ∈ entries, path = outputPath outputFolder entry := by
  rw [decompress, decompressLoop_opened, List.nil_append, List.mem_filter, List.mem_map,
    and_comm]
  simp only [eq_comm]

/-- The place of one output path. -/
theorem outputPath_strictlyBelow_iff (entry : Entry) :
    (lexical (outputPath outputFolder entry)).StrictlyBelow (lexical outputFolder) ↔
      outputFolder ≠ [] ∧
        StaysBelow (lexical outputFolder) (steps (components entry.zstat.name)) := by
  by_cases hne : outputFolder = []
  · -- the slash makes the path absolute, and the empty folder is the current one
    subst hne
    refine iff_of_false ?_ (fun h => h.1 rfl)
    rintro ⟨horigin, -⟩
    cases horigin
  · rw [outputPath, lexical_append rfl hne, follow_strictlyBelow_iff]
    exact ⟨fun h => ⟨hne, h⟩, fun h => h.2⟩

/-- **When extraction stays inside.** Every file that any run of `decompress` on
these entries opens for writing lies strictly below the output folder, if and
only if for every entry the folder is not the empty string and the steps of the
entry name stay below the folder. -/
theorem contained_iff (entries : List Entry) (outputFolder : CString) :
    Contained entries outputFolder ↔
      ∀ entry ∈ entries, outputFolder ≠ [] ∧
        StaysBelow (lexical outputFolder) (steps (components entry.zstat.name)) := by
  simp only [← outputPath_strictlyBelow_iff]
  constructor
  · intro hcontained entry hentry
    -- a file system on which everything can be opened
    refine hcontained (fun _ => true) (fun _ => none) _ ?_
    exact (mem_opened_iff ..).mpr ⟨rfl, entry, hentry, rfl⟩
  · intro hbelow writable fs path hpath
    obtain ⟨-, entry, hentry, rfl⟩ := (mem_opened_iff ..).mp hpath
    exact hbelow entry hentry

/-- An archive entry with the given name and one byte of data, on which every
call succeeds. -/
def plainEntry (name : CString) : Entry where
  name
  data := [42]
  zip_fopen_index := true
  zip_stat_index := 0
  zstat := { name, size := 1 }
  zip_fread := 1
  stored := [42]
  stat_eq _ := rfl
  stored_eq _ := rfl

/-- An entry named `../evil` is written next to the output folder `./d`. -/
theorem not_contained_dotdot : ¬ Contained [plainEntry "../evil".toList] "./d".toList := by
  intro hcontained
  have hbelow := hcontained (fun _ => true) (fun _ => none) "./d/../evil".toList
    (List.mem_singleton_self _)
  obtain ⟨-, n, ns, hnames⟩ := hbelow
  have hpath : (lexical "./d/../evil".toList).names = ["evil".toList] := by decide
  have hfolder : (lexical "./d".toList).names = ["d".toList] := by decide
  rw [hpath, hfolder] at hnames
  cases hnames

end LibZip
