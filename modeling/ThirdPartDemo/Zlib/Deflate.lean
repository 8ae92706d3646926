import ThirdPartDemo.Zlib.Protocol

/-!
# zlibDemo — the compressing loops

`Deflating` is what holds at the head of every pass of `compressFile` without
I/O faults: the source is what was fed, what is in the input buffer and what is
unread, in this order; the destination is what was made; and `Z_FINISH` was
passed exactly if the end of the source was seen, with the input that is still
in the buffer. `compressPass_step` carries it through one pass and
`compressLoop_returns` through the run, which ends with a complete stream of the
whole source in the destination.
-/

namespace Zlib

open Library

variable {F : Format} {deflate : Coder}

/-- The loop invariant of `compressFile` for a source with the content `all`. -/
structure Deflating (all : Bytes) (s : Pumping deflate) (h : History) : Prop where
  after : deflate.After Flush.Encoding s.zs h
  feeding : s.Feeding h.fed all
  reading : s.inner = false → s.source.Fresh
  stored : s.dest.stored = h.made
  dest : s.dest.Faultless
  finishing : h.rest = if s.source.eofbit then some s.input else none

theorem Deflating.calling {all : Bytes} {s : Pumping deflate} {h : History}
    (hs : Deflating all s h) : Calling s h where
  after := hs.after
  outer hinner := ⟨hs.feeding.outer hinner, (hs.reading hinner).eofbit⟩
  finishing := hs.finishing

/-- **One pass of `compressFile`** keeps the invariant and lowers the measure,
or leaves with a complete stream of the source. -/
theorem compressPass_step (henc : Encodes F deflate) {all : Bytes} {B : Nat}
    (hB : ∀ s h, deflate.After Flush.Encoding s h → h.fed <+: all → h.made.length ≤ B)
    (s : Pumping deflate) (h : History) (hs : Deflating all s h) :
    (∃ t, compressPass deflate s = .again t ∧ Deflating all t (onwardHistory s h) ∧
        unfinished B t (onwardHistory s h) < unfinished B s h) ∨
      ∃ done, compressPass deflate s = .leave done ∧
        done.ret = true ∧ done.dest.Faultless ∧ F.Stream done.dest.stored all ∧
        (onwardHistory s h).fed = all := by
  obtain ⟨hfed, hsource, hrest⟩ := hs.feeding.next
  obtain ⟨hdest, hfaultless⟩ := hs.dest.write (nextReply s).out
  have hstored : (s.dest.write (nextReply s).out).stored = (onwardHistory s h).made := by
    rw [hdest, hs.stored]
    rfl
  have hmade : (onwardHistory s h).made.length = h.made.length + (nextReply s).out.length :=
    List.length_append
  rcases compressPass_cases henc hs.calling with
    ⟨hpass, hnext, hfull⟩ | ⟨hpass, hnext, heof, -, -, hused⟩ | ⟨hpass, heof, -, hend⟩
  · -- the inner loop repeats
    exact Or.inl ⟨_, hpass, ⟨hnext.after, hs.feeding.onward _ (by simp), by simp [Pumping.onward],
      hstored, hfaultless, hnext.finishing⟩, unfinished_full hrest (hfull ▸ hmade).ge
        (hB _ _ hnext.after (fed_take_le hfed _))⟩
  · -- back to reading, with the end of the source not seen
    obtain ⟨hfresh, hread⟩ := hsource.resolve_right (by simp [heof])
    refine Or.inl ⟨_, hpass, ⟨hnext.after, hs.feeding.onward _ fun _ => hused, fun _ => hfresh,
      hstored, hfaultless, hnext.finishing⟩,
      unfinished_room rfl hrest ?_ (hmade ▸ Nat.le_add_right ..)⟩
    intro hinner
    have := hread hinner
    have := bufSize_pos
    show s.nextInput.2.rest.length < s.source.rest.length
    omega
  · -- the stream has ended, and it is a stream of the source
    have hnil : s.nextInput.2.rest = [] := by
      rcases hsource with ⟨hfresh, -⟩ | ⟨-, hnil⟩
      · rw [hfresh.eofbit] at heof
        injection heof
      · exact hnil
    obtain ⟨-, hused, hstream⟩ :=
      (henc.call hs.after (nextFlush_encoding s) hs.calling.allows).complete hend
    rw [hnil, List.append_nil] at hfed
    rw [hfed] at hstream
    have hall : (onwardHistory s h).fed = all := by
      rw [← hfed]
      exact congrArg (h.fed ++ ·) (List.take_of_length_le hused.ge)
    refine Or.inr ⟨_, hpass, rfl, hfaultless, ?_, hall⟩
    rw [hstored]
    exact hstream

theorem deflating_start (all : Bytes) : Deflating all (World.faultless.start deflate all) {} :=
  ⟨.init, ⟨rfl, fun _ => rfl, Or.inl ⟨rfl, rfl⟩⟩, fun _ => ⟨rfl, rfl⟩, rfl, ⟨rfl, rfl, rfl⟩, rfl⟩

/-- **The compressing loops return.** Without faults they leave with `true` and
a complete stream of the source in the destination. -/
theorem compressLoop_returns (henc : Encodes F deflate) (all : Bytes) :
    ∃ done, Returns (compressPass deflate) (World.faultless.start deflate all) done ∧
      (done.ret = true ∧ done.dest.Faultless ∧ F.Stream done.dest.stored all) := by
  obtain ⟨B, hB⟩ := henc.bounded.exists_bound all
  refine returns_of_step (unfinished B) ?_ (deflating_start all)
  intro s h hs
  rcases compressPass_step henc hB s h hs with
    ⟨t, hpass, ht, hlt⟩ | ⟨done, hpass, hret, hdest, hstream, -⟩
  · exact Or.inl ⟨t, _, hpass, ht, hlt⟩
  · exact Or.inr ⟨done, hpass, hret, hdest, hstream⟩

/-- The calls of such a run used up the source. -/
theorem compressLoop_collects (henc : Encodes F deflate) {all : Bytes} {fuel : Nat}
    {done : Finished}
    (h : loop (compressPass deflate) fuel (World.faultless.start deflate all) = some done) :
    (trail (compressPass deflate) fuel (World.faultless.start deflate all)).flatMap
      (fun s => (deflateCall s).consumed) = all := by
  obtain ⟨B, hB⟩ := henc.bounded.exists_bound all
  refine loop_trail (Q := fun _ collected => collected = all) History.fed _ ?_
    (deflating_start all) h
  intro s k hs
  rcases compressPass_step henc hB s k hs with
    ⟨t, hpass, ht, -⟩ | ⟨done, hpass, -, -, -, hfed⟩
  · exact Or.inl ⟨t, _, hpass, ht, rfl⟩
  · exact Or.inr ⟨done, hpass, hfed⟩

-- ---------------------------------------------------------------------------
-- The stream that the run makes
-- ---------------------------------------------------------------------------

/-- What is still offered to `deflate`, the input of the next call first. -/
def upcoming (s : Pumping deflate) : List (Flush × Bytes) :=
  (nextFlush s, s.nextInput.1) ::
    if s.nextInput.2.eofbit then [] else pieces bufSize s.nextInput.2.rest

/-- At the head of the outer loop a fresh source is offered in pieces. -/
theorem upcoming_outer {s : Pumping deflate} (hinner : s.inner = false) (hs : s.source.Fresh) :
    upcoming s = pieces bufSize s.source.rest := by
  have hnext : s.nextInput = s.source.read bufSize := by
    rw [Pumping.nextInput, if_neg (by simp [hinner])]
  unfold upcoming nextFlush
  rw [hnext]
  by_cases hfull : bufSize ≤ s.source.rest.length
  · obtain ⟨hread, hfresh⟩ := hs.read_full hfull
    rw [hfresh.eofbit, if_neg (by simp), if_neg (by simp), hread,
      pieces_full bufSize_pos hfull]
  · rw [hs.read_end (Nat.lt_of_not_le hfull), if_pos rfl, if_pos rfl,
      pieces_end (Nat.lt_of_not_le hfull)]

/-- A pass that goes round again keeps the invariant. -/
theorem Deflating.again (henc : Encodes F deflate) {all : Bytes} {s t : Pumping deflate}
    {h : History} (hs : Deflating all s h) (hpass : compressPass deflate s = .again t) :
    Deflating all t (onwardHistory s h) := by
  obtain ⟨B, hB⟩ := henc.bounded.exists_bound all
  rcases compressPass_step henc hB s h hs with ⟨t', hagain, ht, -⟩ | ⟨done, hleave, -⟩
  · obtain rfl := Pass.again.inj (hpass.symm.trans hagain)
    exact ht
  · cases hpass.symm.trans hleave

/-- **The loops drive `deflate` piece by piece**: from every state they write what
it makes of the pieces to come. -/
theorem pumps_of_loop (henc : Encodes F deflate) {all : Bytes} {fuel : Nat} {s : Pumping deflate}
    {h : History} (hs : Deflating all s h) {done : Finished}
    (hdone : loop (compressPass deflate) fuel s = some done) :
    ∃ y, deflate.Pumps bufSize s.zs (upcoming s) y ∧ done.dest.stored = s.dest.stored ++ y := by
  induction fuel generalizing s h with
  | zero => cases hdone
  | succ fuel ih =>
    have hwrite : (s.dest.write (nextReply s).out).stored = s.dest.stored ++ (nextReply s).out :=
      (hs.dest.write _).1
    rcases compressPass_cases henc hs.calling with
      ⟨hpass, -, hfull⟩ | ⟨hpass, -, heof, hroom, -⟩ | ⟨hpass, heof, hroom, -⟩
    · -- the inner loop repeats with what the call left
      have ht := hs.again henc hpass
      rw [loop_again hpass] at hdone
      obtain ⟨y, hy, hstored⟩ := ih ht hdone
      refine ⟨(nextReply s).out ++ y, .full hfull hy, ?_⟩
      rw [hstored, ← List.append_assoc, ← hwrite]
      rfl
    · -- back to reading
      have ht := hs.again henc hpass
      rw [loop_again hpass] at hdone
      obtain ⟨y, hy, hstored⟩ := ih ht hdone
      rw [upcoming_outer rfl (ht.reading rfl)] at hy
      refine ⟨(nextReply s).out ++ y, ?_, ?_⟩
      · rw [upcoming, heof, if_neg (by simp)]
        exact .room (Nat.ne_of_lt hroom) hy
      · rw [hstored, ← List.append_assoc, ← hwrite]
        rfl
    · -- the last piece
      rw [loop_leave hpass] at hdone
      obtain rfl := Option.some.inj hdone
      refine ⟨(nextReply s).out ++ [], ?_, ?_⟩
      · rw [upcoming, heof, if_pos rfl]
        exact .room (Nat.ne_of_lt hroom) (.nil _)
      · rw [List.append_nil, ← hwrite]

/-- A run without faults writes the stream that `deflate` makes of the source. -/
theorem compressLoop_streamOf (henc : Encodes F deflate) {all : Bytes} {fuel : Nat}
    {done : Finished}
    (h : loop (compressPass deflate) fuel (World.faultless.start deflate all) = some done) :
    deflate.StreamOf bufSize all done.dest.stored := by
  obtain ⟨y, hy, hstored⟩ := pumps_of_loop henc (deflating_start all) h
  have hfresh : (World.faultless.start deflate all).source.Fresh := ⟨rfl, rfl⟩
  rw [upcoming_outer rfl hfresh] at hy
  rw [hstored]
  exact hy

end Zlib
