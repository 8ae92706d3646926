import Mathlib.Data.Nat.Find
import ThirdPartDemo.Lz4.Model

/-!
# LZ4Demo — what the return value of `decompress_file` says

`ret` is the byte count of a chunk, an error code and, behind the label `out`, the
final status. The loop leaves it at 0 at the end of the frame, at a value above
every byte count after an error, and at the length of a chunk after a short write,
so the three ways out can be told apart.

`decompressLoop_stops` follows the loop call by call up to the first one that does
not deliver a chunk which is written in full; `decompress_file_exact` reads the
return value off that call.
-/

namespace Lz4

open Library

/-- The bytes that the `i`-th `LZ4F_read` delivers: none at the end or on an error. -/
def chunkAt (reads : Nat → ReadCall) (i : Nat) : Bytes :=
  match reads i with
  | .error _ => []
  | .data chunk _ => chunk

/-- The output stream when the first `i` chunks were written in full. -/
def afterChunks (reads : Nat → ReadCall) (f_out : WriteFile) (i : Nat) : WriteFile where
  written := f_out.written ++ (List.range i).flatMap (chunkAt reads)
  faults j := f_out.faults (i + j)

/-- The `i`-th call delivers a chunk, and its `fwrite` takes all of it. -/
def Delivered (reads : Nat → ReadCall) (f_out : WriteFile) (i : Nat) : Prop :=
  chunkAt reads i ≠ [] ∧ ¬ (afterChunks reads f_out i).BreaksOff (chunkAt reads i).length

/-- `decompress_file` ends at the first call of `LZ4F_read` that is not
`Delivered`. It returns 0 if and only if that call reported the end of the frame
and the frame was opened and closed, and then the chunks are what was written. -/
def DecompressesExactly (lz4 : Lz4Calls) (f_in : Bytes) (f_out : WriteFile) : Prop :=
  ∃ n, (∀ i < n, Delivered (lz4.read f_in) f_out i) ∧ ¬ Delivered (lz4.read f_in) f_out n ∧
    (lz4.readOpen f_in = true → decompress_file lz4 f_in f_out n = none) ∧
    ∃ ret f, decompress_file lz4 f_in f_out (n + 1) = some (ret, f) ∧
      (ret = 0 ↔
        lz4.readOpen f_in = true ∧ (lz4.read f_in n).ret = 0 ∧ lz4.readClose = true) ∧
      (ret = 0 →
        f.written = f_out.written ++ (List.range n).flatMap (chunkAt (lz4.read f_in)))

-- ---------------------------------------------------------------------------
-- One pass
-- ---------------------------------------------------------------------------

variable {reads : Nat → ReadCall} {f_out : WriteFile}

/-- The state of the loop after `i` chunks. -/
def atChunk (reads : Nat → ReadCall) (f_out : WriteFile) (i : Nat) : Decompressing where
  f_out := afterChunks reads f_out i
  calls := i

theorem afterChunks_next (reads : Nat → ReadCall) (f_out : WriteFile) (i : Nat) :
    { written := (afterChunks reads f_out i).written ++ chunkAt reads i
      faults := (afterChunks reads f_out i).faults.next } =
      afterChunks reads f_out (i + 1) := by
  unfold afterChunks Faults.next
  simp only [WriteFile.mk.injEq, List.append_assoc, List.range_succ, List.flatMap_append,
    List.flatMap_singleton, true_and]
  funext j
  rw [Nat.add_assoc, Nat.add_comm j 1]

/-- A chunk that is written in full is followed by the next call. -/
theorem decompressPass_delivered {i : Nat} (h : Delivered reads f_out i) :
    decompressPass reads (atChunk reads f_out i) = .again (atChunk reads f_out (i + 1)) := by
  obtain ⟨hne, hwhole⟩ := h
  have hnext := afterChunks_next reads f_out i
  unfold decompressPass atChunk
  unfold chunkAt at hne hwhole hnext
  dsimp only
  cases hread : reads i with
  | error code =>
    rw [hread] at hne
    exact absurd rfl hne
  | data chunk fits =>
    simp only [hread] at hne hwhole hnext
    dsimp only
    rw [if_neg (by simpa using hne), fwrite_whole hwhole, hnext]
    simp

/-- Any other call ends the loop. The value it leaves in `ret` is 0 just when the
call reported the end, and then nothing was written after the chunks before. -/
theorem decompressPass_last {i : Nat} (h : ¬ Delivered reads f_out i) :
    ∃ ret f, decompressPass reads (atChunk reads f_out i) = .leave (ret, f) ∧
      (ret = 0 ↔ (reads i).ret = 0) ∧ (ret = 0 → f = afterChunks reads f_out i) := by
  unfold Delivered chunkAt at h
  unfold decompressPass atChunk
  dsimp only
  cases hread : reads i with
  | error code => exact ⟨code.value, _, rfl, Iff.rfl, fun _ => rfl⟩
  | data chunk fits =>
    simp only [hread] at h
    by_cases hnil : chunk = []
    · -- the end of the frame
      subst hnil
      exact ⟨0, _, rfl, Iff.rfl, fun _ => rfl⟩
    · -- a short write, which leaves the length of the chunk
      have hlen : chunk.length ≠ 0 := by simpa using hnil
      have hshort : (fwrite (afterChunks reads f_out i) chunk).1 < chunk.length := by
        refine fwrite_of_breaksOff ?_
        by_contra hwhole
        exact h ⟨hnil, hwhole⟩
      refine ⟨chunk.length, (fwrite (afterChunks reads f_out i) chunk).2, ?_, Iff.rfl, ?_⟩
      · dsimp only
        rw [if_neg hlen, if_pos (Nat.ne_of_lt hshort)]
      · intro hzero
        exact absurd hzero hlen

-- ---------------------------------------------------------------------------
-- The loop and the function
-- ---------------------------------------------------------------------------

/-- While the chunks are delivered the loop stays in step with them. -/
theorem decompressLoop_delivered {n : Nat} (h : ∀ i < n, Delivered reads f_out i) (fuel : Nat) :
    loop (decompressPass reads) (n + fuel) (atChunk reads f_out 0) =
      loop (decompressPass reads) fuel (atChunk reads f_out n) := by
  induction n generalizing fuel with
  | zero => rw [Nat.zero_add]
  | succ n ih =>
    have hbefore : ∀ i < n, Delivered reads f_out i := fun i hi => h i (Nat.lt_succ_of_lt hi)
    rw [Nat.add_assoc, ih hbefore, Nat.add_comm 1 fuel,
      loop_again (decompressPass_delivered (h n (Nat.lt_succ_self n)))]

theorem exists_first_stop (f_out : WriteFile) (hends : ∃ n, chunkAt reads n = []) :
    ∃ n, (∀ i < n, Delivered reads f_out i) ∧ ¬ Delivered reads f_out n := by
  classical
  have hstop : ∃ n, ¬ Delivered reads f_out n := by
    obtain ⟨n, hn⟩ := hends
    exact ⟨n, fun hdelivered => hdelivered.1 hn⟩
  refine ⟨Nat.find hstop, ?_, Nat.find_spec hstop⟩
  intro i hi
  exact not_not.mp (Nat.find_min hstop hi)

/-- **`decompress_file` is exact.** Whatever `LZ4F_read` delivers before it reports
the end or an error, wherever a write comes up short and whether or not the frame
can be opened and closed. -/
theorem decompress_file_exact (lz4 : Lz4Calls) (f_in : Bytes) (f_out : WriteFile)
    (hends : ∃ n, chunkAt (lz4.read f_in) n = []) : DecompressesExactly lz4 f_in f_out := by
  obtain ⟨n, hdelivered, hstop⟩ := exists_first_stop f_out hends
  have hstart : ({ f_out } : Decompressing) = atChunk (lz4.read f_in) f_out 0 := by
    simp [atChunk, afterChunks]
  have hloop := decompressLoop_delivered hdelivered
  obtain ⟨ret, f, hleave, hret, hwritten⟩ := decompressPass_last hstop
  refine ⟨n, hdelivered, hstop, ?_, ?_⟩
  · intro hopen
    rw [decompress_file, if_pos hopen, hstart, ← Nat.add_zero n, hloop 0]
    rfl
  · unfold decompress_file
    rw [hstart, hloop 1, loop_leave hleave]
    cases hopen : lz4.readOpen f_in with
    | false => exact ⟨1, f_out, by simp, by simp, by simp⟩
    | true =>
      cases hclose : lz4.readClose with
      | false => exact ⟨1, f, by simp, by simp, by simp⟩
      | true =>
        refine ⟨if ret ≠ 0 then 1 else 0, f, by simp, ?_, ?_⟩
        · by_cases hzero : ret = 0
          · simp [hzero, hret.mp hzero]
          · simp [hzero, mt hret.mpr hzero]
        · intro hzero
          have hret0 : ret = 0 := by
            by_contra hne
            rw [if_pos hne] at hzero
            cases hzero
          rw [hwritten hret0]
          rfl

/-- A frame whose data comes in two pieces. -/
def Lz4Calls.twoPieces : Lz4Calls :=
  { Lz4Calls.plain with
    read _
      | 0 => .data [1, 2] (by decide)
      | 1 => .data [3] (by decide)
      | _ => .data [] (by decide) }

/-- Two pieces and the end: three calls of `LZ4F_read` and two writes. -/
theorem decompress_file_exact_twoPieces :
    DecompressesExactly .twoPieces (storedFrame [1, 2, 3]) { faults := .never } ∧
      decompress_file .twoPieces (storedFrame [1, 2, 3]) { faults := .never } 3 =
        some (0, { written := [1, 2, 3], faults := .never }) :=
  ⟨decompress_file_exact _ _ _ ⟨2, rfl⟩, rfl⟩

end Lz4
