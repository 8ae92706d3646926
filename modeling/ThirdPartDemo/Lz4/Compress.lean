import ThirdPartDemo.Lz4.Model

/-!
# LZ4Demo — which failures `compress_file` reports

All exits of the loop of `compress_file`, the end of the input and the two
failures, meet at the label `out`, and what is returned there depends on
`LZ4F_writeClose` alone. So a failed `fread` or `LZ4F_write` in the middle of the
input is lost.

`compressLoop_taken` follows the loop block by block: it takes the whole input
exactly when no block is disturbed. `compress_file_reports_iff` puts the two
failures that are reported next to it.
-/

namespace Lz4

open Library

/-- A return value of 0 means that the whole input went, in order and once, to
successful calls of `LZ4F_write`, and that the frame was opened and closed. -/
def ReportsFailures (lz4 : Lz4Calls) (f_in : ReadFile) : Prop :=
  ∀ fuel c, compress_file lz4 f_in fuel = some c → c.ret = 0 →
    c.taken = f_in.rest ∧ lz4.writeOpen = true ∧ lz4.writeClose = true

/-- The stream when its first `i` blocks were read without an error. -/
def afterBlocks (f_in : ReadFile) (i : Nat) : ReadFile :=
  { f_in with
    rest := f_in.rest.drop (i * CHUNK_SIZE)
    faults := fun j => f_in.faults (i + j) }

/-- Nothing happens to the `i`-th block of the input: its `fread` does not break
off and its `LZ4F_write` succeeds. -/
def Clean (lz4 : Lz4Calls) (f_in : ReadFile) (i : Nat) : Prop :=
  f_in.error = false ∧ ¬ (afterBlocks f_in i).BreaksOff CHUNK_SIZE ∧ lz4.write i = true

/-- Nothing happens to any block of the input. -/
def AllClean (lz4 : Lz4Calls) (f_in : ReadFile) : Prop :=
  ∀ i, i * CHUNK_SIZE < f_in.rest.length → Clean lz4 f_in i

-- ---------------------------------------------------------------------------
-- One pass
-- ---------------------------------------------------------------------------

variable {lz4 : Lz4Calls} {f_in : ReadFile}

/-- The state of the loop after `i` clean blocks. -/
def atBlock (f_in : ReadFile) (i : Nat) : Compressing where
  f_in := afterBlocks f_in i
  taken := f_in.rest.take (i * CHUNK_SIZE)
  calls := i

theorem afterBlocks_next (f_in : ReadFile) (i : Nat) :
    { afterBlocks f_in i with
      rest := (afterBlocks f_in i).rest.drop CHUNK_SIZE
      faults := (afterBlocks f_in i).faults.next } = afterBlocks f_in (i + 1) := by
  unfold afterBlocks Faults.next
  simp only [ReadFile.mk.injEq, List.drop_drop, and_true]
  refine ⟨by rw [Nat.succ_mul], ?_⟩
  funext j
  rw [Nat.add_assoc, Nat.add_comm j 1]

/-- A clean block goes to `LZ4F_write`, and the next one follows. -/
theorem compressPass_clean {i : Nat} (hi : i * CHUNK_SIZE < f_in.rest.length)
    (hclean : Clean lz4 f_in i) :
    compressPass lz4 (atBlock f_in i) = .again (atBlock f_in (i + 1)) := by
  obtain ⟨herror, hreads, hwrite⟩ := hclean
  have hread := fread_whole hreads
  have hlen : ((afterBlocks f_in i).rest.take CHUNK_SIZE).length ≠ 0 := by
    have hpos : 0 < CHUNK_SIZE := by decide
    rw [afterBlocks, List.length_take, List.length_drop]
    omega
  have hnext := afterBlocks_next f_in i
  unfold compressPass atBlock
  dsimp only
  rw [hread, hnext]
  dsimp only
  rw [if_neg (by simp [afterBlocks, herror]), if_neg hlen, if_pos hwrite]
  simp only [afterBlocks, ← List.take_add, Nat.succ_mul]

/-- A disturbed block ends the loop with what was taken before it. -/
theorem compressPass_disturbed {i : Nat} (hnot : ¬ Clean lz4 f_in i) :
    ∃ exit s, compressPass lz4 (atBlock f_in i) = .leave (exit, s) ∧
      s.taken = f_in.rest.take (i * CHUNK_SIZE) := by
  unfold compressPass
  dsimp only
  split_ifs with herror hzero hwrite
  · exact ⟨_, _, rfl, rfl⟩
  · exact ⟨_, _, rfl, rfl⟩
  · -- an undisturbed read and a successful write make a clean block
    exfalso
    have hreads : ¬ (afterBlocks f_in i).BreaksOff CHUNK_SIZE := by
      intro hbreaks
      exact herror (fread_of_breaksOff hbreaks)
    have hnone : f_in.error = false := by
      rw [show (atBlock f_in i).f_in = afterBlocks f_in i from rfl, fread_whole hreads] at herror
      exact Bool.eq_false_iff.mpr herror
    exact hnot ⟨hnone, hreads, hwrite⟩
  · exact ⟨_, _, rfl, rfl⟩

/-- Behind the last block the loop ends, with or without an error. -/
theorem compressPass_end {i : Nat} (hi : f_in.rest.length ≤ i * CHUNK_SIZE) :
    ∃ exit s, compressPass lz4 (atBlock f_in i) = .leave (exit, s) ∧
      s.taken = f_in.rest.take (i * CHUNK_SIZE) := by
  have hnil : (fread (afterBlocks f_in i) CHUNK_SIZE).1.length = 0 := by
    have happ := congrArg List.length (fread_append (afterBlocks f_in i) CHUNK_SIZE)
    rw [List.length_append, afterBlocks, List.length_drop] at happ
    unfold afterBlocks
    omega
  unfold compressPass
  dsimp only
  split_ifs with herror hzero
  · exact ⟨_, _, rfl, rfl⟩
  · exact ⟨_, _, rfl, rfl⟩
  · exact absurd hnil hzero
  · exact absurd hnil hzero

-- ---------------------------------------------------------------------------
-- The loop and the function
-- ---------------------------------------------------------------------------

/-- **The loop ends**, and it took the whole input exactly when every block was
clean. -/
theorem compressLoop_taken (lz4 : Lz4Calls) (f_in : ReadFile) :
    ∃ last, Returns (compressPass lz4) (atBlock f_in 0) last ∧
      (last.2.taken = f_in.rest ↔ AllClean lz4 f_in) := by
  have hpos : 0 < CHUNK_SIZE := by decide
  -- the ghost is the number of the block; the blocks before it were clean
  refine returns_of_step (I := fun s i => s = atBlock f_in i ∧ ∀ j < i, Clean lz4 f_in j)
    (fun _ i => f_in.rest.length - i * CHUNK_SIZE) ?_ (g := 0) ⟨rfl, by simp⟩
  rintro s i ⟨rfl, hbefore⟩
  by_cases hi : i * CHUNK_SIZE < f_in.rest.length
  · by_cases hclean : Clean lz4 f_in i
    · refine Or.inl ⟨_, i + 1, compressPass_clean hi hclean, ⟨rfl, ?_⟩, ?_⟩
      · intro j hj
        rcases Nat.lt_succ_iff_lt_or_eq.mp hj with hlt | rfl
        · exact hbefore j hlt
        · exact hclean
      · rw [Nat.succ_mul]
        omega
    · obtain ⟨exit, s, hleave, htaken⟩ := compressPass_disturbed hclean
      refine Or.inr ⟨_, hleave, ?_⟩
      dsimp only
      rw [htaken]
      refine iff_of_false ?_ fun hall => hclean (hall i hi)
      intro hwhole
      have hlen := congrArg List.length hwhole
      rw [List.length_take] at hlen
      omega
  · obtain ⟨exit, s, hleave, htaken⟩ := compressPass_end (Nat.le_of_not_lt hi)
    refine Or.inr ⟨_, hleave, ?_⟩
    dsimp only
    rw [htaken, List.take_of_length_le (Nat.le_of_not_lt hi)]
    refine iff_of_true rfl ?_
    intro j hj
    -- the blocks of the input are those before `i`
    exact hbefore j (Nat.lt_of_mul_lt_mul_right (Nat.lt_of_lt_of_le hj (Nat.le_of_not_lt hi)))

/-- **When a return value of 0 can be believed.** For every input stream and
every schedule of faults: `compress_file` returns 0 only after the whole input
went to successful writes and the frame was closed, if and only if opening or
closing the frame fails, which is reported, or every block of the input is read
and written without a failure. -/
theorem compress_file_reports_iff (lz4 : Lz4Calls) (f_in : ReadFile) :
    ReportsFailures lz4 f_in ↔
      lz4.writeOpen = false ∨ lz4.writeClose = false ∨ AllClean lz4 f_in := by
  obtain ⟨last, hreturns, htaken⟩ := compressLoop_taken lz4 f_in
  have hstart : ({ f_in } : Compressing) = atBlock f_in 0 := by
    simp [atBlock, afterBlocks]
  cases hopen : lz4.writeOpen with
  | false =>
    refine iff_of_true ?_ (Or.inl rfl)
    intro fuel c hc hret
    rw [compress_file, if_neg (by simp [hopen])] at hc
    cases hc
    cases hret
  | true =>
    have hrun : ∀ fuel, compress_file lz4 f_in fuel =
        (loop (compressPass lz4) fuel (atBlock f_in 0)).map fun last =>
          { ret := if lz4.writeClose then 0 else 1
            exit := some last.1
            taken := last.2.taken } := by
      intro fuel
      rw [compress_file, if_pos hopen, hstart]
    cases hclose : lz4.writeClose with
    | false =>
      refine iff_of_true ?_ (Or.inr (Or.inl rfl))
      intro fuel c hc hret
      rw [hrun, Option.map_eq_some_iff] at hc
      obtain ⟨last', -, rfl⟩ := hc
      simp [hclose] at hret
    | true =>
      rw [← htaken]
      constructor
      · intro hreports
        obtain ⟨fuel, hfuel⟩ := hreturns
        have hc := hrun fuel
        rw [hfuel, Option.map_some] at hc
        exact Or.inr (Or.inr (hreports fuel _ hc (by simp [hclose])).1)
      · rintro (hfalse | hfalse | hwhole) fuel c hc -
        · cases hfalse
        · cases hfalse
        · rw [hrun, Option.map_eq_some_iff] at hc
          obtain ⟨last', hlast, rfl⟩ := hc
          obtain rfl : last' = last := Returns.unique ⟨fuel, hlast⟩ hreturns
          exact ⟨hwhole, hopen, hclose⟩

/-- A disk error on the first read of three bytes: `compress_file` returns 0 for a
frame of nothing. -/
theorem compress_file_swallows_fread :
    ¬ ReportsFailures .plain { rest := [1, 2, 3], faults := fun _ => some 0 } := by
  intro hreports
  have htaken := (hreports 1 ⟨0, some .freadError, []⟩ rfl rfl).1
  exact absurd htaken (by decide)

end Lz4
