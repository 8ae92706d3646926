import ThirdPartDemo.Lz4.Model

/-!
# LZ4Demo — which files a run touches

`main` prints the three file names into buffers of 256 bytes, and `snprintf`
cuts what does not fit. The names stay apart exactly as long as `argv[1]` has at
most 250 characters:

* at 251 to 254 characters the `.lz4` and the `.lz4.dec` name are cut to the
  same text, and the decompress stage truncates the file it reads;
* at 255 characters all three are `argv[1]` itself, which the compress stage
  truncates;
* from 256 characters on all three are the first 255 characters of `argv[1]`.

`main_keeps_input_iff` puts this together with the frame property of the stages
(`inOutStage_spec`): a run changes no file but the two outputs.
-/

namespace Lz4

open Library

/-! ## The three names -/

/-- The computed names denote the file `argv[1]` and two further files, pairwise
different. -/
def NamesDistinct (argv1 : CString) : Prop :=
  inpFilename argv1 = argv1 ∧ inpFilename argv1 ≠ lz4Filename argv1 ∧
    inpFilename argv1 ≠ decFilename argv1 ∧ lz4Filename argv1 ≠ decFilename argv1

theorem inpFilename_eq {argv1 : CString} (h : argv1.length ≤ 255) :
    inpFilename argv1 = argv1 := by
  rw [inpFilename, snprintf256, List.append_nil, List.take_of_length_le h]

theorem length_snprintf256 (argv1 suffix : CString) :
    (snprintf256 argv1 suffix).length = min 255 (argv1.length + suffix.length) := by
  rw [snprintf256, List.length_take, List.length_append]

theorem length_inpFilename (argv1 : CString) :
    (inpFilename argv1).length = min 255 argv1.length := by
  rw [inpFilename, length_snprintf256]
  rfl

theorem length_lz4Filename (argv1 : CString) :
    (lz4Filename argv1).length = min 255 (argv1.length + 4) := by
  rw [lz4Filename, length_snprintf256]
  rfl

theorem length_decFilename (argv1 : CString) :
    (decFilename argv1).length = min 255 (argv1.length + 8) := by
  rw [decFilename, length_snprintf256]
  rfl

/-- Once the `.lz4` name fills the buffer, the `.lz4.dec` name is cut to it. -/
theorem decFilename_eq_lz4Filename {argv1 : CString} (h : 251 ≤ argv1.length) :
    decFilename argv1 = lz4Filename argv1 := by
  have hsplit : argv1 ++ ".lz4.dec".toList = (argv1 ++ ".lz4".toList) ++ ".dec".toList := by
    rw [List.append_assoc]
    rfl
  have hlen : 255 ≤ (argv1 ++ ".lz4".toList).length := by
    rw [List.length_append, show ".lz4".toList.length = 4 from rfl]
    omega
  rw [decFilename, lz4Filename, snprintf256, snprintf256, hsplit,
    List.take_append_of_le_length hlen]

/-- The names are three different files, the first of them `argv[1]`, exactly
when `argv[1]` has at most 250 characters. -/
theorem namesDistinct_iff (argv1 : CString) :
    NamesDistinct argv1 ↔ argv1.length ≤ 250 := by
  constructor
  · rintro ⟨-, -, -, hne⟩
    by_contra hlong
    exact hne (decFilename_eq_lz4Filename (by omega)).symm
  · intro hlen
    -- within the bound the three names have three different lengths
    have hinp := length_inpFilename argv1
    have hlz4 := length_lz4Filename argv1
    have hdec := length_decFilename argv1
    refine ⟨inpFilename_eq (by omega), ?_, ?_, ?_⟩ <;>
    · intro heq
      have := congrArg List.length heq
      omega

/-! ## The frame of a run -/

/-- No file that was opened for writing was open for reading at the same time. -/
def Opened.Disjoint (o : Opened) : Prop :=
  ∀ name ∈ o.writing, name ∉ o.reading

/-- Every run of `main` leaves the file `argv[1]` as it was, and no stage opens
for writing what it has open for reading. -/
def KeepsInput (argv1 : CString) (fs : FileSystem) : Prop :=
  ∀ w fuel run, main w argv1 fs fuel = some run →
    run.fs argv1 = fs argv1 ∧ ∀ o ∈ run.opened, o.Disjoint

theorem inOutStage_disjoint {w : World} {fs : FileSystem} {inp out : CString}
    {body : Bytes → Option (Outcome × Bytes)} {s : Stage} (hne : inp ≠ out)
    (h : w.inOutStage inp out fs body = some s) : s.opened.Disjoint := by
  obtain ⟨hread, hwrite, -⟩ := inOutStage_spec h
  intro name hnw hnr
  exact hne ((hread name hnr).symm.trans (hwrite name hnw))

/-- With distinct names, a run keeps its input. -/
theorem keepsInput_of_namesDistinct {argv1 : CString} (h : NamesDistinct argv1)
    (fs : FileSystem) : KeepsInput argv1 fs := by
  obtain ⟨hinp, hil, hid, hld⟩ := h
  intro w fuel run hrun
  have hlz4 : argv1 ≠ lz4Filename argv1 := fun heq => hil (hinp.trans heq)
  have hdec : argv1 ≠ decFilename argv1 := fun heq => hid (hinp.trans heq)
  obtain ⟨s₁, hs₁, hrest⟩ := main_cases hrun
  have hd₁ : s₁.opened.Disjoint := inOutStage_disjoint hil hs₁
  have hkeep₁ : s₁.fs argv1 = fs argv1 := (inOutStage_spec hs₁).2.2 argv1 hlz4
  rcases hrest with ⟨-, hopen, hfs⟩ | ⟨-, s₂, hs₂, hrest⟩
  · -- the run ended in the compress stage
    rw [hopen, hfs]
    exact ⟨hkeep₁, by simpa using hd₁⟩
  have hd₂ : s₂.opened.Disjoint := inOutStage_disjoint hld hs₂
  have hkeep₂ : s₂.fs argv1 = fs argv1 :=
    ((inOutStage_spec hs₂).2.2 argv1 hdec).trans hkeep₁
  rcases hrest with ⟨-, hopen, hfs⟩ | ⟨-, hverify⟩
  · -- the run ended in the decompress stage
    rw [hopen, hfs]
    exact ⟨hkeep₂, by simp [hd₁, hd₂]⟩
  · -- the verify stage writes nothing
    obtain ⟨hopen, hfs⟩ := verifyStage_spec hverify
    rw [hopen, hfs]
    refine ⟨hkeep₂, ?_⟩
    have hd₃ : (⟨[inpFilename argv1, decFilename argv1], []⟩ : Opened).Disjoint := by
      simp [Opened.Disjoint]
    simp [hd₁, hd₂, hd₃]

/-- **The demo keeps its input exactly for short names.** Every run of `main`
leaves the content of `argv[1]` unchanged, no stage truncates a file it reads,
and the three names are `argv[1]` and two further files, if and only if
`argv[1]` has at most 250 characters. -/
theorem main_keeps_input_iff (argv1 : CString) (fs : FileSystem) :
    KeepsInput argv1 fs ∧ NamesDistinct argv1 ↔ argv1.length ≤ 250 := by
  rw [← namesDistinct_iff]
  exact ⟨fun h => h.2, fun h => ⟨keepsInput_of_namesDistinct h fs, h⟩⟩

/-! ## A name of 255 characters -/

theorem lz4Filename_of_length {argv1 : CString} (h : argv1.length = 255) :
    lz4Filename argv1 = argv1 := by
  rw [lz4Filename, snprintf256, List.take_append_of_le_length (by omega),
    List.take_of_length_le (by omega)]

/-- The compress stage reads the file as the second `fopen` left it: empty. -/
theorem compressStage_same_name {argv1 : CString} (h : argv1.length = 255)
    {fs : FileSystem} {content : Bytes} (hinp : fs argv1 = some content) :
    compressStage World.faultless argv1 fs 1 =
      some ⟨.goOn, ⟨[argv1], [argv1]⟩, (fs.put argv1 []).put argv1 (storedFrame [])⟩ := by
  rw [compressStage, inpFilename_eq (by omega), lz4Filename_of_length h, World.inOutStage,
    hinp, show World.faultless.fopenW fs argv1 = some (fs.put argv1 []) from rfl]
  dsimp only
  rw [FileSystem.put_same]
  rfl

/-- On a name of 255 characters a run without any fault ends with the file
`argv[1]` empty. -/
theorem main_empties_long_name {argv1 : CString} (h : argv1.length = 255)
    {fs : FileSystem} {content : Bytes} (hinp : fs argv1 = some content) :
    ∃ run, main World.faultless argv1 fs 1 = some run ∧ run.fs argv1 = some [] := by
  set fs₁ := (fs.put argv1 []).put argv1 (storedFrame []) with hfs₁
  have hdec : decFilename argv1 = argv1 :=
    (decFilename_eq_lz4Filename (by omega)).trans (lz4Filename_of_length h)
  have hstage : decompressStage World.faultless argv1 fs₁ 1 =
      some ⟨.exit 1, ⟨[argv1], [argv1]⟩, (fs₁.put argv1 []).put argv1 []⟩ := by
    have hlz4 : fs₁ argv1 = some (storedFrame []) := by rw [hfs₁, FileSystem.put_same]
    rw [decompressStage, lz4Filename_of_length h, hdec, World.inOutStage, hlz4,
      show World.faultless.fopenW fs₁ argv1 = some (fs₁.put argv1 []) from rfl]
    dsimp only
    rw [FileSystem.put_same]
    rfl
  refine ⟨⟨some 1, false, [⟨[argv1], [argv1]⟩, ⟨[argv1], [argv1]⟩],
    (fs₁.put argv1 []).put argv1 []⟩, ?_, FileSystem.put_same ..⟩
  rw [main, compressStage_same_name h hinp, Option.bind_some, Stage.andThen, hstage]
  rfl

/-- The name of 255 letters. -/
def longName : CString := List.replicate 255 'a'

/-- The demo destroys a file whose name has 255 characters. -/
theorem main_damages_longName :
    ¬ (KeepsInput longName (FileSystem.put (fun _ => none) longName [1, 2, 3]) ∧
        NamesDistinct longName) := by
  rintro ⟨hkeeps, -⟩
  have hinp := FileSystem.put_same (fun _ => none) longName [1, 2, 3]
  obtain ⟨run, hrun, hempty⟩ :=
    main_empties_long_name (by rw [longName, List.length_replicate]) hinp
  have hkept := (hkeeps _ _ run hrun).1
  rw [hempty, hinp] at hkept
  cases hkept

end Lz4
