import ThirdPartDemo.Snappy.Model

/-!
# snappyDemo — whether a call does all of its work or none of it

Both functions open the output only after everything that can be refused was
refused, so a call that returns `false` has touched nothing. But a read fault ends
the string as the end of the file does, and nothing looks at the output after it was
opened, so a call that returns `true` may have read or written a part only.

* `compressFile_allOrNothing`, `decompressFile_allOrNothing` — the condition for
  each of the two functions;
* `allOrNothing_iff` — both of them.
-/

namespace Snappy

open Library OfStream

/-- The call returned `true` with the whole result in the output, or `false` with the
output as it was. -/
def AllOrNothing (fs : FileSystem) (output_filename : CString) (whole : Option Bytes)
    (out : Outcome) : Prop :=
  (out.ret = true → ∃ data, whole = some data ∧ out.fs output_filename = some data) ∧
    (out.ret = false → out.fs output_filename = fs output_filename)

/-- `compressFile` is all or nothing: the whole result is the compression of the
entire input. -/
def CompressesAllOrNothing (snappy : SnappyCalls) (w : World) (fs : FileSystem)
    (input_filename output_filename : CString) : Prop :=
  AllOrNothing fs output_filename ((fs input_filename).map snappy.Compress)
    (compressFile snappy w fs input_filename output_filename)

/-- `decompressFile` is all or nothing: the whole result is the decompression of the
entire input. -/
def DecompressesAllOrNothing (snappy : SnappyCalls) (w : World) (fs : FileSystem)
    (input_filename output_filename : CString) : Prop :=
  AllOrNothing fs output_filename ((fs input_filename).bind snappy.Uncompress)
    (decompressFile snappy w fs input_filename output_filename)

/-- The read takes the whole input, and the write and the flush take all of the data. -/
def World.Suffices (w : World) (content data : Bytes) : Prop :=
  Fits w.readFails content.length ∧ Fits w.room data.length ∧ Fits w.flushed data.length

variable {F : Format} {snappy : SnappyCalls} {w : World} {fs : FileSystem}
  {input_filename output_filename : CString}

-- ---------------------------------------------------------------------------
-- The two ways to end
-- ---------------------------------------------------------------------------

/-- A call that returns `false` without touching a file is all or nothing. -/
theorem allOrNothing_untouched (whole : Option Bytes) :
    AllOrNothing fs output_filename whole { ret := false, fs } := by
  refine ⟨?_, fun _ => rfl⟩
  intro htrue
  cases htrue

/-- The end of a call that writes `data`: it is all or nothing just when the output
does not open, or `data` is the whole result and all of it gets to the disk. The
result cannot be a proper beginning of `data`. -/
theorem writeOutput_allOrNothing {data : Bytes} {whole : Option Bytes}
    (hwhole : ∀ x, whole = some x → x <+: data → x = data) :
    AllOrNothing fs output_filename whole (w.writeOutput fs output_filename data) ↔
      (w.writable output_filename = true →
        whole = some data ∧ Fits w.room data.length ∧ Fits w.flushed data.length) := by
  cases hopen : w.writable output_filename with
  | false =>
    rw [World.writeOutput_refused hopen]
    exact iff_of_true (allOrNothing_untouched _) (by simp)
  | true =>
    obtain ⟨hret, onDisk, hfs, hbegins, hall⟩ := World.writeOutput_opened hopen fs data
    unfold AllOrNothing
    rw [hfs, FileSystem.put_same, hret]
    constructor
    · rintro ⟨htrue, -⟩ -
      obtain ⟨x, hx, hdisk⟩ := htrue rfl
      rw [Option.some_inj] at hdisk
      subst hdisk
      have heq := hwhole onDisk hx hbegins
      exact ⟨heq ▸ hx, hall.mp heq⟩
    · intro hfits
      obtain ⟨hx, hdisk⟩ := hfits rfl
      refine ⟨fun _ => ⟨data, hx, by rw [hall.mpr hdisk]⟩, ?_⟩
      intro hfalse
      cases hfalse

-- ---------------------------------------------------------------------------
-- The two functions
-- ---------------------------------------------------------------------------

/-- A compressed block determines its data, also as the beginning of another one. -/
theorem SnappyCalls.Lossless.data_eq (h : snappy.Lossless F) {x y : Bytes}
    (hxy : snappy.Compress x <+: snappy.Compress y) : x = y :=
  (F.stream_unique (h.compress x) (h.compress y) hxy).2

/-- Only the whole input has the compression of the whole input. -/
theorem SnappyCalls.Lossless.compress_reads_iff (h : snappy.Lossless F) (w : World)
    (content : Bytes) :
    snappy.Compress content = snappy.Compress (w.reads content) ↔
      Fits w.readFails content.length := by
  rw [← upTo_eq_self]
  constructor
  · intro heq
    exact (h.data_eq (heq ▸ List.prefix_refl _)).symm
  · intro hall
    rw [World.reads, hall]

/-- If a beginning of the input can be decompressed, then the input can be exactly if
it is that beginning, and then to the same data. -/
theorem SnappyCalls.Lossless.reads_eq (h : snappy.Lossless F) {content data x : Bytes}
    (hread : snappy.Uncompress (w.reads content) = some data)
    (hx : snappy.Uncompress content = some x) : w.reads content = content ∧ data = x :=
  F.stream_unique (h.uncompress.mp hread) (h.uncompress.mp hx) (upTo_le _ _)

theorem SnappyCalls.Lossless.uncompress_reads_iff (h : snappy.Lossless F)
    {content data : Bytes} (hread : snappy.Uncompress (w.reads content) = some data) :
    snappy.Uncompress content = some data ↔ Fits w.readFails content.length := by
  rw [← upTo_eq_self]
  constructor
  · intro hx
    exact (h.reads_eq hread hx).1
  · intro hall
    rw [← hread, World.reads, hall]

/-- **When `compressFile` is all or nothing.** -/
theorem compressFile_allOrNothing (h : snappy.Lossless F) :
    CompressesAllOrNothing snappy w fs input_filename output_filename ↔
      ∀ content, fs input_filename = some content → w.writable output_filename = true →
        w.Suffices content (snappy.Compress content) := by
  unfold CompressesAllOrNothing
  cases hinput : fs input_filename with
  | none =>
    rw [compressFile, hinput]
    exact iff_of_true (allOrNothing_untouched _) (by simp)
  | some content =>
    rw [compressFile_some hinput, Option.map_some]
    have hwhole : ∀ x, some (snappy.Compress content) = some x →
        x <+: snappy.Compress (w.reads content) → x = snappy.Compress (w.reads content) := by
      rintro x hx hbegins
      cases hx
      exact congrArg snappy.Compress (h.data_eq hbegins)
    refine (writeOutput_allOrNothing hwhole).trans ?_
    simp only [Option.some.injEq, forall_eq']
    refine imp_congr_right fun _ => ?_
    rw [h.compress_reads_iff]
    refine and_congr_right fun hread => ?_
    rw [World.reads, upTo_eq_self.mpr hread]

/-- **When `decompressFile` is all or nothing.** -/
theorem decompressFile_allOrNothing (h : snappy.Lossless F) :
    DecompressesAllOrNothing snappy w fs input_filename output_filename ↔
      ∀ content data, fs input_filename = some content → w.writable output_filename = true →
        snappy.Uncompress (w.reads content) = some data → w.Suffices content data := by
  unfold DecompressesAllOrNothing
  cases hinput : fs input_filename with
  | none =>
    rw [decompressFile, hinput]
    exact iff_of_true (allOrNothing_untouched _) (by simp)
  | some content =>
    cases hread : snappy.Uncompress (w.reads content) with
    | none =>
      -- what was read is not a block, so the output is not opened
      rw [decompressFile_none hinput hread]
      refine iff_of_true (allOrNothing_untouched _) ?_
      rintro content' data ⟨⟩ - hdata
      rw [hread] at hdata
      cases hdata
    | some data =>
      rw [decompressFile_some hinput hread, Option.bind_some]
      have hwhole : ∀ x, snappy.Uncompress content = some x → x <+: data → x = data :=
        fun x hx _ => (h.reads_eq hread hx).2.symm
      refine (writeOutput_allOrNothing hwhole).trans ?_
      rw [h.uncompress_reads_iff hread]
      constructor
      · rintro hsuffices content' data' ⟨⟩ hopen hdata
        rw [hread] at hdata
        cases hdata
        exact hsuffices hopen
      · intro hall hopen
        exact hall content data rfl hopen hread

/-- **When the demo is all or nothing.** For every input, every old output and every
schedule of faults. `compressFile`: exactly if, once both files are open, the read
takes the whole input and the output takes its whole compression. `decompressFile`:
exactly if, once both files are open and what was read could be decompressed, that
was the whole input and the output takes all of its data. -/
theorem allOrNothing_iff (h : snappy.Lossless F) (w : World) (fs : FileSystem)
    (input_filename output_filename : CString) :
    (CompressesAllOrNothing snappy w fs input_filename output_filename ↔
      ∀ content, fs input_filename = some content → w.writable output_filename = true →
        w.Suffices content (snappy.Compress content)) ∧
    (DecompressesAllOrNothing snappy w fs input_filename output_filename ↔
      ∀ content data, fs input_filename = some content → w.writable output_filename = true →
        snappy.Uncompress (w.reads content) = some data → w.Suffices content data) :=
  ⟨compressFile_allOrNothing h, decompressFile_allOrNothing h⟩

/-- Without faults both functions are all or nothing. -/
theorem allOrNothing_faultless :
    CompressesAllOrNothing .literal .faultless
        (FileSystem.put (fun _ => none) "2.mp4".toList [7]) "2.mp4".toList "2.snappy".toList ∧
      DecompressesAllOrNothing .literal .faultless
        (FileSystem.put (fun _ => none) "2.snappy".toList [1, 0, 7])
        "2.snappy".toList "3.mp4".toList := by
  have hfits : ∀ n, Fits none n := fun n k hk => by cases hk
  have h := SnappyCalls.literal_lossless
  exact ⟨(allOrNothing_iff h ..).1.mpr fun _ _ _ => ⟨hfits _, hfits _, hfits _⟩,
    (allOrNothing_iff h ..).2.mpr fun _ _ _ _ _ => ⟨hfits _, hfits _, hfits _⟩⟩

/-- A disk that is full behind the second byte: `compressFile` returns `true` with a
beginning of the compressed block in the output. -/
theorem compressFile_truncates :
    ¬ CompressesAllOrNothing .literal { World.faultless with room := some 2 }
      (FileSystem.put (fun _ => none) "2.mp4".toList [7]) "2.mp4".toList "2.snappy".toList := by
  rintro ⟨htrue, -⟩
  obtain ⟨data, hdata, hdisk⟩ := htrue (by decide)
  rw [← hdata] at hdisk
  exact absurd hdisk (by decide)

end Snappy
