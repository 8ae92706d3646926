import ThirdPartDemo.Zlib.Deflate
import ThirdPartDemo.Zlib.Inflate

/-!
# zlibDemo — the round trip

`compressFile(a, b)` leaves a complete stream of the content of `a` in `b`, and
`decompressFile(b, c)` writes the data of the stream it finds. The two meet in
the format: what one codec makes is a stream, and a stream has only one content.
-/

namespace Zlib

open Library

variable {F : Format} {deflate inflate : Coder} {w : World} {fs : FileSystem} {a b c : CString}

/-- With nothing failing and distinct names, the loops find the source as it is. -/
theorem World.Faultless.sourceContent (hw : w.Faultless) (hne : a ≠ b) {content : Bytes}
    (ha : fs a = some content) : w.sourceContent fs a b = some content := by
  rw [World.sourceContent, if_pos ⟨by simp [ha], hw.writable b, hw.init⟩,
    FileSystem.put_of_ne _ _ hne, ha, Option.getD_some]

/-- **Compressing** leaves a complete stream of the source. -/
theorem compressFile_returns (henc : Encodes F deflate) (hw : w.Faultless) (hab : a ≠ b)
    {content : Bytes} (ha : fs a = some content) :
    ∃ fuel out, compressFile deflate w fs a b fuel = some out ∧ out.ret = true ∧
      ∃ y, out.fs b = some y ∧ F.Stream y content := by
  obtain ⟨done, ⟨fuel, hfuel⟩, hret, hdest, hstream⟩ := compressLoop_returns henc content
  have hout := compressFile_some deflate (hw.sourceContent hab ha) fuel
  rw [hw.start, hfuel, Option.map_some] at hout
  refine ⟨fuel, _, hout, hret, done.dest.onDisk, FileSystem.put_same .., ?_⟩
  rw [hdest.onDisk]
  exact hstream

/-- **Decompressing** writes the data of the stream. -/
theorem decompressFile_returns (hdec : Decodes F inflate) (hw : w.Faultless) (hbc : b ≠ c)
    {y x : Bytes} (hb : fs b = some y) (hy : F.Stream y x) :
    ∃ fuel out, decompressFile inflate w fs b c fuel = some out ∧ out.ret = true ∧
      out.fs c = some x := by
  obtain ⟨done, ⟨fuel, hfuel⟩, hret, hdest, rfl⟩ :=
    decompressLoop_complete hdec (List.prefix_refl y) hy
  have hout := decompressFile_some inflate (hw.sourceContent hbc hb) fuel
  rw [hw.start, hfuel, Option.map_some] at hout
  refine ⟨fuel, _, hout, hret, ?_⟩
  dsimp only
  rw [FileSystem.put_same, hdest.onDisk]

/-- **Round trip.** With an encoder and a decoder of the same format, whatever
way they split their work over the calls, with no faults and distinct names:
`compressFile(a, b)` returns `true`, and `decompressFile(b, c)` on what it left
returns `true` with the content of `a` in `c`. -/
theorem compressFile_decompressFile (henc : Encodes F deflate) (hdec : Decodes F inflate)
    (hw : w.Faultless) (hab : a ≠ b) (hbc : b ≠ c) {content : Bytes}
    (ha : fs a = some content) :
    ∃ fuel out, compressFile deflate w fs a b fuel = some out ∧ out.ret = true ∧
      ∃ fuel' out', decompressFile inflate w out.fs b c fuel' = some out' ∧ out'.ret = true ∧
        out'.fs c = some content := by
  obtain ⟨fuel, out, hout, hret, y, hb, hy⟩ := compressFile_returns henc hw hab ha
  exact ⟨fuel, out, hout, hret, decompressFile_returns hdec hw hbc hb hy⟩

/-- The round trip of a file that does not fit one buffer. -/
theorem compressFile_decompressFile_sevens :
    ∃ fuel out, compressFile Stored.deflate World.faultless
        (FileSystem.put (fun _ => none) "7".toList (List.replicate 200000 7)) "7".toList
          "7.zlib".toList fuel = some out ∧
      out.ret = true ∧
      ∃ fuel' out', decompressFile Stored.inflate World.faultless out.fs "7.zlib".toList
          "7.out".toList fuel' = some out' ∧ out'.ret = true ∧
        out'.fs "7.out".toList = some (List.replicate 200000 7) :=
  compressFile_decompressFile Stored.deflate_encodes Stored.inflate_decodes
    World.faultless_faultless (by decide) (by decide) (FileSystem.put_same ..)

end Zlib
