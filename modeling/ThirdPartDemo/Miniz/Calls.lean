import ThirdPartDemo.Library.ZlibStored
import ThirdPartDemo.Miniz.Deflate

/-!
# minizDemo — the calls of `deflate`

`compressFile` without I/O faults, seen from the codec: `compressCalls` are the
calls that a run makes, in order. `Logged` says what is known of the calls made
so far and of the state they lead to; a pass adds one call (`Logged.concat`), and
the whole run makes one complete stream of the source (`compressFile_emits`).
-/

namespace Miniz

open Library

variable {F : Format} {deflate : Coder}

/-- The calls of `deflate` that `compressFile` makes in its first `fuel` passes. -/
def compressCalls (deflate : Coder) (w : World) (fs : FileSystem)
    (sourceFilename destFilename : CString) (fuel : Nat) : List DeflateCall :=
  match w.loopEntry deflate fs sourceFilename destFilename with
  | some s => (trail (compressPass deflate) fuel s).flatMap fun s => (nextCall s).toList
  | none => []

/-- What the calls used up, in order. -/
def consumed (calls : List DeflateCall) : Bytes := calls.flatMap fun call => call.consumed

/-- What the calls made, in order. -/
def produced (calls : List DeflateCall) : Bytes := calls.flatMap fun call => call.out

/-- The calls obey the protocol, `Z_FINISH` is passed exactly when nothing is left
to read, and at every call the source is what the calls before it used up, what
is offered and `infile_remaining` more bytes. -/
structure WellCalled (content : Bytes) (calls : List DeflateCall) : Prop where
  obeys : ObeysProtocol (calls.map DeflateCall.toCall)
  finish : ∀ call ∈ calls, call.flush = .finish ↔ call.infile_remaining = 0
  conserves : ∀ before call, before ++ [call] <+: calls →
    ∃ unread, unread.length = call.infile_remaining ∧
      consumed before ++ call.input ++ unread = content

-- ---------------------------------------------------------------------------
-- The calls made so far
-- ---------------------------------------------------------------------------

/-- The state to which some calls lead. -/
structure Logged (content : Bytes) (s : Pumping deflate) (h : History)
    (calls : List DeflateCall) : Prop where
  state : Deflating content s h
  fed : consumed calls = h.fed
  made : produced calls = h.made
  called : WellCalled content calls
  last : ∀ last ∈ calls.getLast?, last.status ≠ .streamEnd ∧ s.input = last.left ∧
    s.infile_remaining = last.infile_remaining

variable {content : Bytes} {s : Pumping deflate} {h : History} {calls : List DeflateCall}

/-- One more call keeps what is known of the calls. -/
theorem Logged.concat (hs : Logged content s h calls) {call : DeflateCall}
    (hcall : call.Fits content s h) : WellCalled content (calls ++ [call]) where
  obeys := by
    rw [List.map_append]
    refine hs.called.obeys.concat hcall.room ?_
    intro other hother
    rw [List.getLast?_map, Option.mem_def, Option.map_eq_some_iff] at hother
    obtain ⟨last, hlast, rfl⟩ := hother
    obtain ⟨hgoes, hinput, hremaining⟩ := hs.last last hlast
    refine ⟨hinput ▸ hcall.keeps, ?_, hgoes⟩
    intro hflush
    -- with `Z_FINISH` nothing was left to read, so nothing is read
    have hzero : last.infile_remaining = 0 :=
      (hs.called.finish last (List.mem_of_getLast? hlast)).mp hflush
    obtain ⟨hremaining', hsame⟩ := hcall.stays (hremaining.trans hzero)
    exact ⟨hcall.finish.mpr hremaining', hsame.trans hinput⟩
  finish := by
    intro other hother
    rcases List.mem_append.mp hother with hbefore | hnew
    · exact hs.called.finish other hbefore
    · rw [List.mem_singleton.mp hnew]
      exact hcall.finish
  conserves := by
    intro before other hother
    rcases List.prefix_concat_iff.mp hother with heq | hbefore
    · obtain ⟨rfl, hlast⟩ := List.append_inj' heq rfl
      obtain rfl : other = call := by simpa using hlast
      rw [hs.fed]
      exact hcall.conserves
    · exact hs.called.conserves before other hbefore

theorem consumed_concat (calls : List DeflateCall) (call : DeflateCall) :
    consumed (calls ++ [call]) = consumed calls ++ call.consumed := by
  rw [consumed, List.flatMap_append, List.flatMap_singleton]
  rfl

theorem produced_concat (calls : List DeflateCall) (call : DeflateCall) :
    produced (calls ++ [call]) = produced calls ++ call.out := by
  rw [produced, List.flatMap_append, List.flatMap_singleton]
  rfl

/-- **The calls of a run.** When the loop leaves, its calls used up the source and
made what was written. -/
theorem compressLoop_calls (henc : Encodes F deflate) (content : Bytes) :
    ∃ fuel done, loop (compressPass deflate) fuel (loopStart deflate content) = some done ∧
      done.ended = true ∧ deflate.Makes content done.pOutfile.written ∧
      ∃ calls, calls = (trail (compressPass deflate) fuel (loopStart deflate content)).flatMap
          (fun s => (nextCall s).toList) ∧
        WellCalled content calls ∧ consumed calls = content ∧
        produced calls = done.pOutfile.written := by
  obtain ⟨B, hB⟩ := henc.bounded.exists_bound content
  obtain ⟨done, ⟨fuel, hfuel⟩, hended, hmakes⟩ := compressLoop_returns henc content
  refine ⟨fuel, done, hfuel, hended, hmakes, _, rfl, ?_⟩
  -- the ghost is the history with the calls that make it up
  refine loop_trail (I := fun s (g : History × List DeflateCall) => Logged content s g.1 g.2)
    (Q := fun done calls => WellCalled content calls ∧ consumed calls = content ∧
      produced calls = done.pOutfile.written) Prod.snd _ ?_
    (g := ({}, []))
    ⟨deflating_start content, rfl, rfl, ⟨⟨by simp, .nil⟩, by simp, ?_⟩, by simp⟩ hfuel
  · rintro s ⟨h, calls⟩ hs
    obtain ⟨call, hcall, hfits, hfollows⟩ := compressPass_step henc hB s h hs.state
    have hcalled := hs.concat hfits
    have hfed : consumed (calls ++ [call]) = (h.record call.toCall).fed := by
      rw [consumed_concat, hs.fed]
      rfl
    have hmade : produced (calls ++ [call]) = (h.record call.toCall).made := by
      rw [produced_concat, hs.made]
      rfl
    rw [hcall, Option.toList_some]
    rcases hfollows with
      ⟨t, hpass, ht, -, hgoes, hinput, hremaining⟩ | ⟨done, hpass, -, -, hall, hwritten⟩
    · refine Or.inl ⟨t, (h.record call.toCall, calls ++ [call]), hpass,
        ⟨ht, hfed, hmade, hcalled, ?_⟩, rfl⟩
      intro last hlast
      rw [List.getLast?_concat, Option.mem_some_iff] at hlast
      rw [← hlast]
      exact ⟨hgoes, hinput, hremaining⟩
    · exact Or.inr ⟨done, hpass, hcalled, hfed.trans hall, hmade.trans hwritten⟩
  · intro before call hpre
    exact absurd hpre (by simp)

-- ---------------------------------------------------------------------------
-- The function
-- ---------------------------------------------------------------------------

variable {w : World} {fs : FileSystem} {a b : CString}

/-- **`compressFile` emits one complete stream.** With nothing failing and
distinct names, for every source of an accepted size and however `deflate` splits
its work over the calls: `compressFile` returns `EXIT_SUCCESS`, its calls obey the
protocol and account for every byte of the source, what they used up is the
source, and what they made is a complete stream of it and the content of the
destination. -/
theorem compressFile_emits (henc : Encodes F deflate) (hw : w.Faultless) (hab : a ≠ b)
    (ha : fs a = some content) (hlen : content.length ≤ intMax) :
    ∃ fuel out, compressFile deflate w fs a b fuel = some out ∧ out.ret = exitSuccess ∧
      WellCalled content (compressCalls deflate w fs a b fuel) ∧
      consumed (compressCalls deflate w fs a b fuel) = content ∧
      out.fs b = some (produced (compressCalls deflate w fs a b fuel)) ∧
      F.Stream (produced (compressCalls deflate w fs a b fuel)) content := by
  obtain ⟨fuel, done, hfuel, hended, hmakes, calls, hcalls, hcalled, hconsumed, hproduced⟩ :=
    compressLoop_calls henc content
  have hout := hw.onFiles (loop (compressPass deflate) fuel) (compressExit w) hab ha hlen
  rw [hfuel, Option.map_some, hw.compressExit hended] at hout
  have heq : compressCalls deflate w fs a b fuel = calls := by
    rw [compressCalls, hw.loopEntry hab ha hlen]
    exact hcalls.symm
  refine ⟨fuel, _, hout, rfl, ?_⟩
  rw [heq, hproduced]
  exact ⟨hcalled, hconsumed, FileSystem.put_same .., henc.stream hmakes⟩

/-- The stream of a file that does not fit one buffer. -/
theorem compressFile_emits_sevens :
    ∃ fuel out, compressFile Stored.deflate World.faultless
        (FileSystem.put (fun _ => none) "2.mp4".toList (List.replicate 2000000 7))
          "2.mp4".toList "2.mz".toList fuel = some out ∧
      out.ret = exitSuccess ∧
      ∃ y, out.fs "2.mz".toList = some y ∧ Stored.format.Stream y (List.replicate 2000000 7) := by
  have hlen : (List.replicate 2000000 (7 : UInt8)).length = 2000000 := List.length_replicate
  obtain ⟨fuel, out, hout, hret, -, -, hfile, hstream⟩ := compressFile_emits (b := "2.mz".toList)
    Stored.deflate_encodes World.faultless_faultless (by decide)
    (FileSystem.put_same (fun _ => none) "2.mp4".toList (List.replicate 2000000 7))
    (by rw [hlen]; decide)
  exact ⟨fuel, out, hout, hret, _, hfile, hstream⟩

end Miniz
