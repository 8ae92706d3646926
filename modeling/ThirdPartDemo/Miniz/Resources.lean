import ThirdPartDemo.Miniz.RoundTrip

/-!
# minizDemo — files and codecs that are released

What `compressFile` and `decompressFile` acquire and what they release on their
way out, for every schedule of failures and every codec. Only the end of
`compressFile` closes anything, so every other return that comes after the source
was opened leaves it open; where the destination does not open, `fclose` is
called on a NULL handle; and `decompressFile` closes nothing at all, so not even
its `EXIT_SUCCESS` says that the output was flushed.

`pass_fails_iff` finds the failing call behind a loop that was left by a `return`,
and `resources_iff` says on which returns of the two functions the discipline is
kept.
-/

namespace Miniz

open Library

variable {codec : Coder} {w : World} {fs : FileSystem} {sourceFilename destFilename : CString}

/-- What a call should have done with its resources when it returns: every file
that was opened was closed exactly once, `fclose` was not called on NULL, the
codec was ended exactly once if it was initialised and not otherwise, and success
means that the output file was closed without an error. -/
structure Disciplined (w : World) (out : Outcome) : Prop where
  closed : ∀ file, .fopen file ∈ out.events → out.events.count (.fclose file) = 1
  notNull : .fcloseNull ∉ out.events
  ended : out.events.count .theEnd = if .init ∈ out.events then 1 else 0
  flushed : out.ret = exitSuccess → .fclose .pOutfile ∈ out.events ∧ w.flushed = none

/-- An outcome that leaves the source open. -/
theorem not_disciplined_of_open {out : Outcome} (hopen : .fopen .pInfile ∈ out.events)
    (hclose : .fclose .pInfile ∉ out.events) : ¬ Disciplined w out := by
  intro hdisciplined
  have hone := hdisciplined.closed .pInfile hopen
  rw [List.count_eq_zero_of_not_mem hclose] at hone
  cases hone

-- ---------------------------------------------------------------------------
-- The loop
-- ---------------------------------------------------------------------------

/-- A call of the pass fails: `fread` or `fwrite` comes up short, or the codec
returns neither `Z_OK` nor `Z_STREAM_END`. -/
def Fails (codec : Coder) (flush : Nat → Flush) (s : Pumping codec) : Prop :=
  match s.refill with
  | .error _ => True
  | .ok t =>
    let r := codec.call t.stream (flush t.infile_remaining) t.input t.availOut
    (∃ done, (t.after r).flushOutput r.status = .error done) ∨
      r.status ≠ .ok ∧ r.status ≠ .streamEnd

theorem refill_error {s : Pumping codec} {done : Finished} (h : s.refill = .error done) :
    done.ended = false := by
  unfold Pumping.refill at h
  dsimp only at h
  split_ifs at h
  cases h
  rfl

theorem flushOutput_error {s : Pumping codec} {status : Status} {done : Finished}
    (h : s.flushOutput status = .error done) : done.ended = false := by
  unfold Pumping.flushOutput at h
  dsimp only at h
  split_ifs at h
  cases h
  rfl

/-- The loop is left by a `return` exactly where a call failed. -/
theorem pass_fails_iff {flush : Nat → Flush} {s : Pumping codec} :
    Fails codec flush s ↔ ∃ done, pass codec flush s = .leave done ∧ done.ended = false := by
  unfold Fails pass
  cases hrefill : s.refill with
  | error done =>
    dsimp only
    exact iff_of_true trivial ⟨done, rfl, refill_error hrefill⟩
  | ok t =>
    dsimp only
    set r := codec.call t.stream (flush t.infile_remaining) t.input t.availOut
    cases hflush : (t.after r).flushOutput r.status with
    | error done =>
      dsimp only
      exact iff_of_true (Or.inl ⟨done, rfl⟩) ⟨done, rfl, flushOutput_error hflush⟩
    | ok u =>
      dsimp only
      unfold Pumping.endPass
      split_ifs with hend hok <;> simp_all

variable {flush : Nat → Flush} {s : Pumping codec} {done : Finished}

/-- A loop that was left ended its stream exactly if no call failed. -/
theorem ended_iff (hreturns : Returns (pass codec flush) s done) :
    done.ended = true ↔ ∀ t, Reaches (pass codec flush) s t → ¬ Fails codec flush t := by
  obtain ⟨last, hreach, hleave⟩ := hreturns.exists_last
  constructor
  · intro hended t ht hfails
    obtain ⟨done', hleave', hfailed⟩ := pass_fails_iff.mp hfails
    obtain rfl : done = done' := hreturns.unique (ht.returns (.leave hleave'))
    rw [hended] at hfailed
    cases hfailed
  · intro hnever
    by_contra hfailed
    exact hnever last hreach (pass_fails_iff.mpr ⟨done, hleave, by simpa using hfailed⟩)

-- ---------------------------------------------------------------------------
-- The returns
-- ---------------------------------------------------------------------------

/-- A call that does not get to the loop leaves the source open, if it opened it. -/
theorem disciplined_of_noLoop {loops : Pumping codec → Option Finished} {exit : Finished → Exit}
    (hentry : w.loopEntry codec fs sourceFilename destFilename = none) {out : Outcome}
    (hout : w.onFiles fs sourceFilename destFilename loops exit = some out) :
    Disciplined w out ↔ fs sourceFilename = none := by
  unfold World.loopEntry at hentry
  unfold World.onFiles at hout
  cases hsource : fs sourceFilename with
  | none =>
    rw [hsource] at hout
    cases hout
    exact iff_of_true ⟨by simp, by simp, by simp, fun h => by cases h⟩ rfl
  | some content =>
    rw [hsource] at hentry hout
    dsimp only at hentry hout
    refine iff_of_false ?_ (by simp)
    split_ifs at hout with hlen hwritable hinit
    · cases hout
      exact not_disciplined_of_open (by simp) (by simp)
    · cases hout
      exact not_disciplined_of_open (by simp) (by simp)
    · cases hout
      exact not_disciplined_of_open (by simp) (by simp)
    · -- nothing failed before the loop
      have hadmitted := (w.ftell_refused content).not.mp hlen
      rw [if_neg (by simp [hadmitted, hwritable, hinit])] at hentry
      cases hentry

/-- On the way out of `compressFile` everything is released exactly if the loop
ended the stream and `deflateEnd` succeeded. -/
theorem disciplined_compressExit (fs : FileSystem) :
    Disciplined w
        { ret := (compressExit w done).ret
          events := [.fopen .pInfile, .fopen .pOutfile, .init] ++ (compressExit w done).events
          fs } ↔
      done.ended = true ∧ w.theEnd = .ok := by
  unfold compressExit
  dsimp only
  split_ifs with hended hend
  · refine iff_of_false (not_disciplined_of_open (by simp) (by simp)) ?_
    rintro ⟨htrue, -⟩
    rw [hended] at htrue
    cases htrue
  · exact iff_of_false (not_disciplined_of_open (by simp) (by simp)) fun h => hend h.2
  · refine iff_of_true ?_ ⟨by simpa using hended, not_not.mp hend⟩
    have hclosed : ∀ file, ([.fopen .pInfile, .fopen .pOutfile, .init] ++
        [.theEnd, .fclose .pInfile, .fclose .pOutfile] : List Event).count (.fclose file) = 1 := by
      intro file
      cases file <;> rfl
    cases hflushed : w.flushed with
    | some k =>
      refine ⟨fun file _ => hclosed file, by simp, rfl, ?_⟩
      intro hret
      exact absurd hret exitFailure_ne
    | none => exact ⟨fun file _ => hclosed file, by simp, rfl, fun _ => ⟨by simp, hflushed⟩⟩

/-- The loop is only reached with a source that opened. -/
theorem source_of_loopEntry {w : World} {codec : Coder} {fs : FileSystem}
    {sourceFilename destFilename : CString} {s : Pumping codec}
    (hentry : w.loopEntry codec fs sourceFilename destFilename = some s) :
    fs sourceFilename ≠ none := by
  intro hnone
  rw [World.loopEntry, hnone] at hentry
  cases hentry

/-- **On which returns the discipline is kept.** For all codecs, worlds and files:
a return of `compressFile` keeps it if and only if the source did not open, or the
loop was reached, no call in it failed and `deflateEnd` succeeded; a return of
`decompressFile` keeps it if and only if the source did not open. -/
theorem resources_iff (deflate inflate : Coder) (w : World) (fs : FileSystem)
    (sourceFilename destFilename : CString) (fuel : Nat) (out : Outcome) :
    (compressFile deflate w fs sourceFilename destFilename fuel = some out →
      (Disciplined w out ↔ fs sourceFilename = none ∨
        ∃ s, w.loopEntry deflate fs sourceFilename destFilename = some s ∧
          (∀ t, Reaches (compressPass deflate) s t → ¬ Fails deflate flushMode t) ∧
          w.theEnd = .ok)) ∧
    (decompressFile inflate w fs sourceFilename destFilename fuel = some out →
      (Disciplined w out ↔ fs sourceFilename = none)) := by
  constructor
  · intro hout
    cases hentry : w.loopEntry deflate fs sourceFilename destFilename with
    | none =>
      rw [disciplined_of_noLoop hentry hout]
      simp
    | some s =>
      rw [compressFile, World.onFiles_some _ _ hentry, Option.map_eq_some_iff] at hout
      obtain ⟨done, hdone, rfl⟩ := hout
      rw [disciplined_compressExit, ended_iff ⟨fuel, hdone⟩]
      constructor
      · rintro ⟨hnever, hend⟩
        exact Or.inr ⟨s, rfl, hnever, hend⟩
      · rintro (hnone | ⟨s', hs', hnever, hend⟩)
        · exact absurd hnone (source_of_loopEntry hentry)
        · obtain rfl : s = s' := Option.some.inj hs'
          exact ⟨hnever, hend⟩
  · intro hout
    cases hentry : w.loopEntry inflate fs sourceFilename destFilename with
    | none => exact disciplined_of_noLoop hentry hout
    | some s =>
      rw [decompressFile, World.onFiles_some _ _ hentry, Option.map_eq_some_iff] at hout
      obtain ⟨done, -, rfl⟩ := hout
      refine iff_of_false (not_disciplined_of_open (by simp) ?_) (source_of_loopEntry hentry)
      unfold decompressExit
      dsimp only
      split_ifs <;> simp

/-- A run in which nothing fails, on a file that does not fit one buffer, and a
source that is not there. -/
theorem resources_sevens :
    (∃ fuel out, compressFile Stored.deflate World.faultless
        (FileSystem.put (fun _ => none) "2.mp4".toList (List.replicate 2000000 7))
          "2.mp4".toList "2.mz".toList fuel = some out ∧ Disciplined World.faultless out) ∧
      ∃ out, decompressFile Stored.inflate World.faultless (fun _ => none) "2.mz".toList
          "3.mp4".toList 0 = some out ∧ Disciplined World.faultless out := by
  have hsource : FileSystem.put (fun _ => none) "2.mp4".toList (List.replicate 2000000 7)
      "2.mp4".toList = some (List.replicate 2000000 7) := FileSystem.put_same ..
  have hlen : (List.replicate 2000000 (7 : UInt8)).length = 2000000 := List.length_replicate
  have hentry : World.faultless.loopEntry Stored.deflate _ "2.mp4".toList "2.mz".toList = _ :=
    World.faultless_faultless.loopEntry (by decide) hsource (by rw [hlen]; decide)
  constructor
  · obtain ⟨done, ⟨fuel, hfuel⟩, hended, -⟩ :=
      compressLoop_returns Stored.deflate_encodes (List.replicate 2000000 7)
    have hout : compressFile Stored.deflate World.faultless
        (FileSystem.put (fun _ => none) "2.mp4".toList (List.replicate 2000000 7))
          "2.mp4".toList "2.mz".toList fuel = _ :=
      World.onFiles_some _ _ hentry
    rw [hfuel, Option.map_some] at hout
    refine ⟨fuel, _, hout, ((resources_iff _ Stored.inflate _ _ _ _ _ _).1 hout).mpr ?_⟩
    exact Or.inr ⟨_, hentry, (ended_iff ⟨fuel, hfuel⟩).mp hended, rfl⟩
  · have hiff := (resources_iff Stored.deflate Stored.inflate World.faultless (fun _ => none)
      "2.mz".toList "3.mp4".toList 0 { ret := -1, events := [], fs := fun _ => none }).2
    exact ⟨_, rfl, (hiff rfl).mpr rfl⟩

/-- A destination that cannot be opened: `compressFile` calls `fclose` on NULL and
leaves the source open. -/
theorem compressFile_closes_null :
    ∃ out, compressFile Stored.deflate { World.faultless with writable := fun _ => false }
        (FileSystem.put (fun _ => none) "2.mp4".toList []) "2.mp4".toList "2.mz".toList 0 =
          some out ∧
      ¬ Disciplined { World.faultless with writable := fun _ => false } out := by
  have hsource : FileSystem.put (fun _ => none) "2.mp4".toList [] "2.mp4".toList = some [] :=
    FileSystem.put_same ..
  refine ⟨{ ret := -1, events := [.fopen .pInfile, .fcloseNull]
            fs := FileSystem.put (fun _ => none) "2.mp4".toList [] }, ?_, ?_⟩
  · rw [compressFile, World.onFiles, hsource]
    rfl
  · intro hdisciplined
    exact hdisciplined.notNull (by simp)

end Miniz
