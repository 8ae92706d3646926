import ThirdPartDemo.Library.ZlibStored
import ThirdPartDemo.Miniz.Model

/-!
# minizDemo — the decompressing loop

The loop of `decompressFile` takes every status but `Z_OK` and `Z_STREAM_END` for
a failure, `Z_BUF_ERROR` among them. Without I/O faults it therefore leaves on
every file: by its `break` when the file begins with a complete stream, and with
a failure when it does not, be it corrupt or truncated. `decompressFile_total`
says this of the function.
-/

namespace Miniz

open Library

variable {F : Format} {inflate : Coder}

/-- The loop invariant of `decompressFile` for a source with the content `all`. -/
structure Inflating (all : Bytes) (s : Pumping inflate) (h : History) : Prop where
  after : inflate.After Flush.Decoding s.stream h
  carries : s.Carries all h.fed h.made
  finishing : h.rest = none

/-- The loop came to the end of a stream and wrote its data. -/
def Finished.Complete (F : Format) (all : Bytes) (done : Finished) : Prop :=
  done.ended = true ∧ ∃ p x, p <+: all ∧ F.Stream p x ∧ done.pOutfile.written = x

/-- The loop gave up, and the file does not begin with a complete stream. -/
def Finished.Failed (F : Format) (all : Bytes) (done : Finished) : Prop :=
  done.ended = false ∧ ∀ p x, p <+: all → ¬ F.Stream p x

/-- **One pass of `decompressFile`** keeps the invariant and makes progress, or
leaves with what the file deserves. -/
theorem decompressPass_step (hdec : DecodesLazily F inflate) {all : Bytes} {B : Nat}
    (hB : ∀ s h, inflate.After Flush.Decoding s h → h.fed <+: all → h.made.length ≤ B)
    (s : Pumping inflate) (h : History) (hs : Inflating all s h) :
    (∃ t k, decompressPass inflate s = .again t ∧ Inflating all t k ∧
        k.ahead all B < h.ahead all B) ∨
      ∃ done, decompressPass inflate s = .leave done ∧
        (done.Complete F all ∨ done.Failed F all) := by
  obtain ⟨t, hrefill, ht, hstream, hinput, -, -⟩ := hs.carries.refill
  have hallows : h.Allows .syncFlush t.input t.availOut := by
    refine ⟨ht.availOut_pos, ?_⟩
    intro rest hrest
    rw [hs.finishing] at hrest
    injection hrest
  have hafter := hs.after
  rw [← hstream] at hafter
  have hmode : Flush.syncFlush.Decoding := by simp [Flush.Decoding]
  have hcall := hdec.call hafter hmode hallows
  have hnext := hafter.call hmode hallows
  set r := inflate.call t.stream .syncFlush t.input t.availOut with hr
  obtain ⟨u, hflush, hu, hstate, -, -, hwritten⟩ := ht.after r
  have hpass : decompressPass inflate s = u.endPass r.status := pass_eq hrefill hr hflush
  have hfed : h.fed ++ t.input.take r.used <+: all := fed_take_le ht.fed r.used
  rw [hpass]
  unfold Pumping.endPass
  rcases hcall.status with (hok | hbuf) | hend | herror
  · -- `inflate` goes on
    have hgoes : r.status ≠ .streamEnd := by
      rw [hok]
      decide
    rw [if_neg hgoes, if_neg (not_not.mpr hok)]
    rw [← hstate] at hnext
    exact Or.inl ⟨u, _, rfl, ⟨hnext, hu, hs.finishing⟩,
      History.ahead_lt hcall.used_le hfed (hB _ _ hnext hfed) (hcall.progress hok)⟩
  · -- nothing is left to feed, and what was fed is truncated
    obtain ⟨hnil, htruncated⟩ := hcall.stuck hbuf
    have hremaining : t.infile_remaining = 0 := hinput.resolve_left (not_not.mpr hnil)
    have hall : h.fed = all := by
      have hfed := ht.fed_eq hremaining
      rwa [hnil, List.append_nil] at hfed
    rw [hall] at htruncated
    rw [hbuf, if_neg (by decide), if_pos (by decide)]
    refine Or.inr ⟨_, rfl, Or.inr ⟨rfl, ?_⟩⟩
    intro p x hp hstream
    exact htruncated ⟨p, hp, Or.inl ⟨x, hstream⟩⟩
  · -- the stream is complete and written
    rw [if_pos hend]
    exact Or.inr ⟨_, rfl, Or.inl ⟨rfl, _, _, hfed, hcall.complete hend, hwritten hend⟩⟩
  · -- `inflate` refuses the data
    have hstatus : r.status ≠ .streamEnd ∧ r.status ≠ .ok := by
      rcases herror with herror | herror <;> rw [herror] <;> decide
    rw [if_neg hstatus.1, if_pos hstatus.2]
    exact Or.inr ⟨_, rfl, Or.inr ⟨rfl, F.not_stream_of_refused hfed (hcall.refuses herror)⟩⟩

/-- **The decompressing loop returns** on every file: with the data of the
stream that the file begins with, or with a failure if there is none. -/
theorem decompressLoop_returns (hdec : DecodesLazily F inflate) (all : Bytes) :
    ∃ done, Returns (decompressPass inflate) (loopStart inflate all) done ∧
      (done.Complete F all ∨ done.Failed F all) := by
  obtain ⟨B, hB⟩ := hdec.bounded.exists_bound all
  refine returns_of_step (fun _ h => h.ahead all B) (decompressPass_step hdec hB)
    (?_ : Inflating all _ {})
  exact ⟨.init, ⟨rfl, rfl, rfl, bufSize_pos, rfl, rfl⟩, rfl⟩

-- ---------------------------------------------------------------------------
-- The function
-- ---------------------------------------------------------------------------

variable {w : World} {fs : FileSystem} {b c : CString} {y : Bytes}

/-- What `decompressFile` returns for a file of an accepted size, and what it writes. -/
theorem decompressFile_returns (hdec : DecodesLazily F inflate) (hw : w.Faultless) (hbc : b ≠ c)
    (hb : fs b = some y) (hlen : y.length ≤ intMax) :
    ∃ fuel out, decompressFile inflate w fs b c fuel = some out ∧
      (out.ret = exitSuccess ∧ (∃ p x, p <+: y ∧ F.Stream p x ∧ out.fs c = some x) ∨
        out.ret = exitFailure ∧ ∀ p x, p <+: y → ¬ F.Stream p x) := by
  obtain ⟨done, ⟨fuel, hfuel⟩, hdone⟩ := decompressLoop_returns hdec y
  have hout := hw.onFiles (loop (decompressPass inflate) fuel) (decompressExit w) hbc hb hlen
  rw [hfuel, Option.map_some] at hout
  refine ⟨fuel, _, hout, ?_⟩
  rcases hdone with ⟨hended, p, x, hp, hstream, hwritten⟩ | ⟨hended, hnone⟩
  · left
    rw [hw.decompressExit hended, hwritten]
    exact ⟨rfl, p, x, hp, hstream, FileSystem.put_same ..⟩
  · right
    rw [decompressExit, if_pos hended]
    exact ⟨rfl, hnone⟩

/-- **Total correctness.** With nothing failing and distinct names,
`decompressFile` returns on every file of an accepted size, however `inflate`
splits its work over the calls: with `EXIT_SUCCESS` if and only if the file
begins with a complete stream, whose data is then what was written, and with
`EXIT_FAILURE` otherwise. -/
theorem decompressFile_total (hdec : DecodesLazily F inflate) (hw : w.Faultless) (hbc : b ≠ c)
    (hb : fs b = some y) (hlen : y.length ≤ intMax) :
    ∃ fuel out, decompressFile inflate w fs b c fuel = some out ∧
      (out.ret = exitSuccess ↔ ∃ p x, p <+: y ∧ F.Stream p x) ∧
      (∀ p x, p <+: y → F.Stream p x → out.fs c = some x) ∧
      (out.ret ≠ exitSuccess → out.ret = exitFailure) := by
  obtain ⟨fuel, out, hout, hcases⟩ := decompressFile_returns hdec hw hbc hb hlen
  refine ⟨fuel, out, hout, ?_⟩
  rcases hcases with ⟨hret, p, x, hp, hstream, hfile⟩ | ⟨hret, hnone⟩
  · refine ⟨iff_of_true hret ⟨p, x, hp, hstream⟩, ?_, absurd hret⟩
    intro q z hq hz
    obtain ⟨-, rfl⟩ := F.stream_unique_of_le hp hq hstream hz
    exact hfile
  · have hfailed : out.ret ≠ exitSuccess := by
      rw [hret]
      exact exitFailure_ne
    refine ⟨iff_of_false hfailed ?_, ?_, fun _ => hret⟩
    · rintro ⟨p, x, hp, hstream⟩
      exact hnone p x hp hstream
    · intro p x hp hstream
      exact absurd hstream (hnone p x hp)

/-- The stream of a file that does not fit one buffer, with a byte behind it. -/
theorem decompressFile_total_sevens :
    ∃ fuel out, decompressFile Stored.inflate World.faultless
        (FileSystem.put (fun _ => none) "2.mz".toList
          (Stored.encode (List.replicate 2000000 7) ++ [0])) "2.mz".toList
          "3.mp4".toList fuel = some out ∧
      out.ret = exitSuccess ∧ out.fs "3.mp4".toList = some (List.replicate 2000000 7) := by
  have hlen : (Stored.encode (List.replicate 2000000 7) ++ [0]).length ≤ intMax := by
    have hle := (Stored.encode_length (List.replicate 2000000 7)).2
    rw [List.length_replicate] at hle
    rw [List.length_append, List.length_singleton, intMax]
    omega
  obtain ⟨fuel, out, hout, hiff, hfile, -⟩ := decompressFile_total (c := "3.mp4".toList)
    Stored.inflate_decodes.lazily World.faultless_faultless (by decide)
    (FileSystem.put_same (fun _ => none) "2.mz".toList _) hlen
  have hstream := Stored.encode_stream (List.replicate 2000000 7)
  have hp := List.prefix_append (Stored.encode (List.replicate 2000000 7)) [0]
  exact ⟨fuel, out, hout, hiff.mpr ⟨_, _, hp, hstream⟩, hfile _ _ hp hstream⟩

end Miniz
