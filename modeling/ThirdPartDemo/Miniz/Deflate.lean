import ThirdPartDemo.Miniz.Model

/-!
# minizDemo — the compressing loop

`Deflating` is what holds at the head of every pass of `compressFile` without
I/O faults. At any moment bytes may sit in the file, in the input buffer, in the
codec and in the output buffer; and once `Z_FINISH` was passed, nothing is left
in the file and the input buffer holds what the last call left.
`compressPass_step` carries the invariant through one pass and
`compressLoop_returns` through the run, which ends with what `deflate` makes of the
whole source in the destination.
-/

namespace Miniz

open Library

variable {F : Format} {deflate : Coder}

/-- The loop invariant of `compressFile` for a source with the content `all`. -/
structure Deflating (all : Bytes) (s : Pumping deflate) (h : History) : Prop where
  after : deflate.After Flush.Encoding s.stream h
  carries : s.Carries all h.fed h.made
  finishing : ∀ rest, h.rest = some rest → s.infile_remaining = 0 ∧ rest = s.input

theorem flushMode_eq_finish {infile_remaining : Nat} :
    flushMode infile_remaining = .finish ↔ infile_remaining = 0 := by
  unfold flushMode
  split_ifs with h
  · simp [h]
  · simpa using h

theorem flushMode_encoding (infile_remaining : Nat) : (flushMode infile_remaining).Encoding := by
  unfold flushMode Flush.Encoding
  split_ifs <;> simp

/-- A call of `deflate`, with the value of `infile_remaining` at that time. -/
structure DeflateCall extends Call where
  infile_remaining : Nat

/-- The call from a state whose input buffer was filled. -/
def callOf (t : Pumping deflate) : DeflateCall :=
  { Call.of t.stream (flushMode t.infile_remaining) t.input t.availOut with
    infile_remaining := t.infile_remaining }

/-- The call that the pass from `s` makes, if its refill succeeds. -/
def nextCall (s : Pumping deflate) : Option DeflateCall :=
  match s.refill with
  | .ok t => some (callOf t)
  | .error _ => none

/-- How a call fits the state in which its pass begins: `infile_remaining` counts
what is neither fed nor offered, `Z_FINISH` is passed when that is nothing, and
what the input buffer holds is offered. -/
structure DeflateCall.Fits (call : DeflateCall) (all : Bytes) (s : Pumping deflate)
    (h : History) : Prop where
  room : 0 < call.space
  finish : call.flush = .finish ↔ call.infile_remaining = 0
  conserves : ∃ unread, unread.length = call.infile_remaining ∧
    h.fed ++ call.input ++ unread = all
  keeps : s.input <+: call.input
  stays : s.infile_remaining = 0 → call.infile_remaining = 0 ∧ call.input = s.input

/-- The call that the next pass makes, and the state it is made from. -/
theorem Deflating.call {all : Bytes} {s : Pumping deflate} {h : History} (hs : Deflating all s h) :
    ∃ t, s.refill = .ok t ∧ t.Carries all h.fed h.made ∧ deflate.After Flush.Encoding t.stream h ∧
      (t.input ≠ [] ∨ t.infile_remaining = 0) ∧ (callOf t).Fits all s h := by
  obtain ⟨t, hrefill, ht, hstream, hinput, hzero, hkeeps⟩ := hs.carries.refill
  refine ⟨t, hrefill, ht, hstream ▸ hs.after, hinput, ht.availOut_pos, flushMode_eq_finish, ?_,
    hkeeps, hzero⟩
  exact ⟨t.pInfile.rest, ht.remaining.symm, ht.fed⟩

/-- Such a call is allowed. -/
theorem DeflateCall.Fits.allows {all : Bytes} {s : Pumping deflate} {h : History}
    {call : DeflateCall} (hcall : call.Fits all s h) (hs : Deflating all s h) :
    h.Allows call.flush call.input call.space := by
  refine ⟨hcall.room, ?_⟩
  intro rest hrest
  obtain ⟨hremaining, hleft⟩ := hs.finishing rest hrest
  obtain ⟨hremaining', hsame⟩ := hcall.stays hremaining
  exact ⟨hcall.finish.mpr hremaining', by rw [hsame, hleft]⟩

/-- What follows a call of a pass: it goes round again with the input left over, or
leaves with what `deflate` makes of the source. -/
def Follows (all : Bytes) (B : Nat) (s : Pumping deflate) (h : History) (call : DeflateCall) :
    Prop :=
  (∃ t, compressPass deflate s = .again t ∧ Deflating all t (h.record call.toCall) ∧
      (h.record call.toCall).ahead all B < h.ahead all B ∧ call.status ≠ .streamEnd ∧
      t.input = call.left ∧ t.infile_remaining = call.infile_remaining) ∨
    ∃ done, compressPass deflate s = .leave done ∧ done.ended = true ∧
      deflate.Makes all done.pOutfile.written ∧ (h.record call.toCall).fed = all ∧
      (h.record call.toCall).made = done.pOutfile.written

/-- **One pass of `compressFile`** makes one call, and keeps the invariant and
makes progress, or leaves with what `deflate` makes of the source. -/
theorem compressPass_step (henc : Encodes F deflate) {all : Bytes} {B : Nat}
    (hB : ∀ s h, deflate.After Flush.Encoding s h → h.fed <+: all → h.made.length ≤ B)
    (s : Pumping deflate) (h : History) (hs : Deflating all s h) :
    ∃ call, nextCall s = some call ∧ call.Fits all s h ∧ Follows all B s h call := by
  obtain ⟨t, hrefill, ht, hafter, hinput, hfits⟩ := hs.call
  have hallows := hfits.allows hs
  have hmode : (callOf t).flush.Encoding := flushMode_encoding _
  have hcall := henc.call hafter hmode hallows
  have hnext := hafter.call hmode hallows
  refine ⟨callOf t, by rw [nextCall, hrefill], hfits, ?_⟩
  set r := deflate.call t.stream (callOf t).flush (callOf t).input (callOf t).space with hr
  obtain ⟨u, hflush, hu, hstate, hleft, hremaining, hwritten⟩ := ht.after r
  have hpass : compressPass deflate s = u.endPass r.status := pass_eq hrefill hr hflush
  change deflate.After Flush.Encoding r.state (h.record (callOf t).toCall) at hnext
  unfold Follows
  rw [hpass]
  unfold Pumping.endPass
  by_cases hend : r.status = .streamEnd
  · -- `deflate` has written everything
    obtain ⟨hfinish, hused, -⟩ := hcall.complete hend
    have hall : (h.record (callOf t).toCall).fed = all := by
      rw [← ht.fed_eq (hfits.finish.mp hfinish)]
      exact congrArg (h.fed ++ ·) (List.take_of_length_le hused.ge)
    have hended : (h.record (callOf t).toCall).ended = true := by
      show (h.ended || r.status == .streamEnd) = true
      rw [hend]
      exact Bool.or_true _
    have hmade := (hwritten hend).symm
    rw [if_pos hend]
    exact Or.inr ⟨_, rfl, rfl, ⟨_, _, hnext, hended, hall, hmade⟩, hall, hmade⟩
  · -- there is input or `Z_FINISH`, so the call made progress
    have hoffers : (callOf t).input ≠ [] ∨ (callOf t).flush = .finish :=
      hinput.imp_right flushMode_eq_finish.mpr
    obtain ⟨hok, hprogress⟩ := hcall.onward hoffers hend
    have hfed : (h.record (callOf t).toCall).fed <+: all := fed_take_le ht.fed r.used
    have hlt : (h.next (callOf t).flush (callOf t).input r).ahead all B < h.ahead all B :=
      History.ahead_lt hcall.used_le hfed (hB _ _ hnext hfed) hprogress
    rw [if_neg hend, if_neg (not_not.mpr hok)]
    rw [← hstate] at hnext
    refine Or.inl ⟨u, rfl, ⟨hnext, hu, ?_⟩, hlt, hend, hleft, hremaining⟩
    intro rest hrest
    rw [hremaining, hleft]
    unfold History.record at hrest
    dsimp only at hrest
    split_ifs at hrest with hfinish
    · exact ⟨hfits.finish.mp hfinish, (Option.some.inj hrest).symm⟩
    · -- no call with `Z_FINISH` so far
      obtain ⟨hremaining', -⟩ := hs.finishing rest hrest
      exact absurd (hfits.finish.mpr (hfits.stays hremaining').1) hfinish

theorem deflating_start (all : Bytes) : Deflating all (loopStart deflate all) {} := by
  refine ⟨.init, ⟨rfl, rfl, rfl, bufSize_pos, rfl, rfl⟩, ?_⟩
  intro rest hrest
  injection hrest

/-- **The compressing loop returns.** Without faults it leaves by its `break`,
with what `deflate` makes of the source in the destination. -/
theorem compressLoop_returns (henc : Encodes F deflate) (all : Bytes) :
    ∃ done, Returns (compressPass deflate) (loopStart deflate all) done ∧
      (done.ended = true ∧ deflate.Makes all done.pOutfile.written) := by
  obtain ⟨B, hB⟩ := henc.bounded.exists_bound all
  refine returns_of_step (fun _ h => h.ahead all B) ?_ (deflating_start all)
  intro s h hs
  obtain ⟨call, -, -, ⟨t, hpass, ht, hlt, -⟩ | ⟨done, hpass, hended, hmakes, -⟩⟩ :=
    compressPass_step henc hB s h hs
  · exact Or.inl ⟨t, _, hpass, ht, hlt⟩
  · exact Or.inr ⟨done, hpass, hended, hmakes⟩

end Miniz
