import ThirdPartDemo.Library.ZlibStored
import ThirdPartDemo.Miniz.Deflate
import ThirdPartDemo.Miniz.Inflate

/-!
# minizDemo — the round trip and its limit

`compressFile(a, b)` accepts a source of at most `INT_MAX` bytes, whatever the
length of the file it makes of it. `decompressFile(b, c)` applies the same check
to that file. So the round trip restores the source exactly when the compressed
file is small enough too, which fails for a large source that the codec cannot
make smaller.
-/

namespace Miniz

open Library

variable {F : Format} {deflate inflate : Coder} {w w' : World} {fs : FileSystem}
  {a b c : CString} {content y x : Bytes}

-- ---------------------------------------------------------------------------
-- Compressing
-- ---------------------------------------------------------------------------

/-- **Compressing** a source of an accepted size succeeds. -/
theorem compressFile_returns (henc : Encodes F deflate) (hw : w.Faultless) (hab : a ≠ b)
    (ha : fs a = some content) (hlen : content.length ≤ intMax) :
    ∃ fuel out, compressFile deflate w fs a b fuel = some out ∧ out.ret = exitSuccess := by
  obtain ⟨done, ⟨fuel, hfuel⟩, hended, -⟩ := compressLoop_returns henc content
  have hout := hw.onFiles (loop (compressPass deflate) fuel) (compressExit w) hab ha hlen
  rw [hfuel, Option.map_some, hw.compressExit hended] at hout
  exact ⟨fuel, _, hout, rfl⟩

/-- When `compressFile` succeeds, the source has an accepted size and the
destination is what `deflate` makes of it. -/
theorem compressFile_makes (henc : Encodes F deflate) (hw : w.Faultless) (hab : a ≠ b)
    (ha : fs a = some content) {fuel : Nat} {out : Outcome}
    (hout : compressFile deflate w fs a b fuel = some out) (hret : out.ret = exitSuccess) :
    ∃ y, out.fs b = some y ∧ deflate.Makes content y := by
  have hlen : content.length ≤ intMax := by
    by_contra hlarge
    rw [compressFile, World.onFiles_tooLarge _ _ ha (Nat.lt_of_not_le hlarge)] at hout
    cases hout
    exact exitFailure_ne hret
  obtain ⟨done, hreturns, hended, hmakes⟩ := compressLoop_returns henc content
  rw [compressFile, hw.onFiles _ _ hab ha hlen, Option.map_eq_some_iff] at hout
  obtain ⟨done', hfuel, rfl⟩ := hout
  obtain rfl : done' = done := Returns.unique ⟨fuel, hfuel⟩ hreturns
  rw [hw.compressExit hended]
  exact ⟨_, FileSystem.put_same .., hmakes⟩

-- ---------------------------------------------------------------------------
-- Decompressing
-- ---------------------------------------------------------------------------

/-- `decompressFile(b, c)` succeeds and leaves `content` in `c`. -/
def Restores (inflate : Coder) (w : World) (fs : FileSystem) (b c : CString)
    (content : Bytes) : Prop :=
  ∃ fuel out, decompressFile inflate w fs b c fuel = some out ∧ out.ret = exitSuccess ∧
    out.fs c = some content

/-- **Decompressing** a stream of an accepted size restores its data. -/
theorem restores_of_stream (hdec : DecodesLazily F inflate) (hw : w.Faultless) (hbc : b ≠ c)
    (hb : fs b = some y) (hy : F.Stream y x) (hlen : y.length ≤ intMax) :
    Restores inflate w fs b c x := by
  obtain ⟨fuel, out, hout, ⟨hret, p, z, hp, hz, hfile⟩ | ⟨-, hnone⟩⟩ :=
    decompressFile_returns hdec hw hbc hb hlen
  · obtain ⟨-, rfl⟩ := F.stream_eq hy hp hz
    exact ⟨fuel, out, hout, hret, hfile⟩
  · exact absurd hy (hnone y x (List.prefix_refl y))

/-- A larger file is refused, whatever it holds. -/
theorem not_restores_of_tooLarge (hb : fs b = some y) (hlen : intMax < y.length) :
    ¬ Restores inflate w fs b c x := by
  rintro ⟨fuel, out, hout, hret, -⟩
  rw [decompressFile, World.onFiles_tooLarge _ _ hb hlen] at hout
  cases hout
  exact exitFailure_ne hret

-- ---------------------------------------------------------------------------
-- The round trip
-- ---------------------------------------------------------------------------

/-- **Round trip.** With an encoder and a decoder of the same format, whatever
way they split their work over the calls, with no faults and distinct names:
when `compressFile(a, b)` succeeds, `decompressFile(b, c)` restores the source if
and only if the compressed file has at most `INT_MAX` bytes. -/
theorem decompressFile_compressFile (henc : Encodes F deflate) (hdec : DecodesLazily F inflate)
    (hw : w.Faultless) (hw' : w'.Faultless) (hab : a ≠ b) (hbc : b ≠ c)
    (ha : fs a = some content) {fuel : Nat} {out : Outcome}
    (hout : compressFile deflate w fs a b fuel = some out) (hret : out.ret = exitSuccess) :
    ∃ y, out.fs b = some y ∧
      (Restores inflate w' out.fs b c content ↔ y.length ≤ intMax) := by
  obtain ⟨y, hb, hmakes⟩ := compressFile_makes henc hw hab ha hout hret
  refine ⟨y, hb, ?_, restores_of_stream hdec hw' hbc hb (henc.stream hmakes)⟩
  intro hrestores
  by_contra hlarge
  exact not_restores_of_tooLarge hb (Nat.lt_of_not_le hlarge) hrestores

/-- The round trip of a file that does not fit one buffer. -/
theorem decompressFile_compressFile_sevens :
    ∃ fuel out, compressFile Stored.deflate World.faultless
        (FileSystem.put (fun _ => none) "7".toList (List.replicate 2000000 7)) "7".toList
          "7.mz".toList fuel = some out ∧
      out.ret = exitSuccess ∧
      Restores Stored.inflate World.faultless out.fs "7.mz".toList "7.out".toList
        (List.replicate 2000000 7) := by
  have ha : FileSystem.put (fun _ => none) "7".toList (List.replicate 2000000 7) "7".toList =
      some (List.replicate 2000000 7) := FileSystem.put_same ..
  have hlen : (List.replicate 2000000 (7 : UInt8)).length = 2000000 := List.length_replicate
  obtain ⟨fuel, out, hout, hret⟩ := compressFile_returns (b := "7.mz".toList)
    Stored.deflate_encodes World.faultless_faultless (by decide) ha (by rw [hlen]; decide)
  obtain ⟨y, hb, hiff⟩ := decompressFile_compressFile (c := "7.out".toList)
    Stored.deflate_encodes Stored.inflate_decodes.lazily World.faultless_faultless
    World.faultless_faultless (by decide) (by decide) ha hout hret
  obtain ⟨y', hb', hmakes⟩ := compressFile_makes Stored.deflate_encodes
    World.faultless_faultless (by decide) ha hout hret
  refine ⟨fuel, out, hout, hret, hiff.mpr ?_⟩
  obtain rfl : y = y' := Option.some.inj (hb.symm.trans hb')
  rw [batchEncoder_makes hmakes]
  refine (Stored.encode_length _).2.trans ?_
  rw [hlen]
  decide

/-- Bytes without redundancy: the high bytes of a linear congruential generator. -/
def noise : Nat → UInt64 → Bytes
  | 0, _ => []
  | n + 1, s => (s >>> 56).toUInt8 :: noise n (s * 6364136223846793005 + 1442695040888963407)

theorem noise_length (n : Nat) (s : UInt64) : (noise n s).length = n := by
  induction n generalizing s with
  | zero => rfl
  | succ n ih => rw [noise, List.length_cons, ih]

/-- `INT_MAX` bytes of noise: `compressFile` accepts them, and `decompressFile`
refuses the file it made, which has become longer. -/
theorem noise_not_restored :
    ∃ fuel out, compressFile Stored.deflate World.faultless
        (FileSystem.put (fun _ => none) "n".toList (noise intMax 1)) "n".toList "n.mz".toList fuel =
          some out ∧
      out.ret = exitSuccess ∧
      ¬ Restores Stored.inflate World.faultless out.fs "n.mz".toList "n.out".toList
        (noise intMax 1) := by
  have ha : FileSystem.put (fun _ => none) "n".toList (noise intMax 1) "n".toList =
      some (noise intMax 1) := FileSystem.put_same ..
  have hlen : (noise intMax 1).length = intMax := noise_length ..
  obtain ⟨fuel, out, hout, hret⟩ := compressFile_returns (b := "n.mz".toList)
    Stored.deflate_encodes World.faultless_faultless (by decide) ha hlen.le
  obtain ⟨y, hb, hmakes⟩ := compressFile_makes Stored.deflate_encodes
    World.faultless_faultless (by decide) ha hout hret
  have hlonger := Stored.stream_length (Stored.deflate_encodes.stream hmakes)
  rw [hlen] at hlonger
  exact ⟨fuel, out, hout, hret, not_restores_of_tooLarge hb hlonger⟩

end Miniz
