import ThirdPartDemo.Library.ZlibStored
import ThirdPartDemo.Zlib.Model

/-!
# zlibDemo — when the decompressing loops end

Neither loop of `decompressFile` looks at the end of the source, and the status
check does not know `Z_BUF_ERROR`. So the loops end only through the decoder:
when it reports the end of a stream, or corrupt data.

* `decompressPass_step` — what one pass does, with the measure that it lowers on
  a file that the decoder can decide;
* `decompressLoop_returns` — on such a file the loops leave;
* `decompressLoop_diverges` — on a truncated file they never do: once the source
  is used up, every further pass reads nothing and calls `inflate` in vain;
* `decompressFile_terminates_iff` — the two together.
-/

namespace Zlib

open Library

variable {F : Format} {inflate : Coder}

/-- The loop invariant of `decompressFile` for a source with the content `all`.
`clean` says that no write of the destination fails. -/
structure Inflating (clean : Prop) (all : Bytes) (s : Pumping inflate) (h : History) : Prop where
  after : inflate.After Flush.Decoding s.zs h
  feeding : s.Feeding h.fed all
  finishing : h.rest = none
  dest : clean → s.dest.Faultless ∧ s.dest.stored = h.made

/-- The loops gave up on corrupt data. -/
def Finished.Refused (F : Format) (all : Bytes) (done : Finished) : Prop :=
  done.ret = false ∧ done.status ≠ some .streamEnd ∧ ∃ p, p <+: all ∧ F.Refused p

/-- The loops came to the end of a stream and wrote its data. -/
def Finished.Complete (F : Format) (clean : Prop) (all : Bytes) (done : Finished) : Prop :=
  done.ret = true ∧ done.status = some .streamEnd ∧
    ∃ p x, p <+: all ∧ F.Stream p x ∧
      (clean → done.dest.Faultless ∧ done.dest.stored = x)

/-- What the next call returns. -/
def inflateReply (s : Pumping inflate) : Reply inflate.State :=
  inflate.call s.zs .noFlush s.nextInput.1 bufSize

theorem decompressPass_eq (s : Pumping inflate) :
    decompressPass inflate s =
      if (inflateReply s).status = .needDict ∨ (inflateReply s).status = .dataError ∨
          (inflateReply s).status = .memError then
        .leave { ret := false, status := some (inflateReply s).status, dest := s.dest }
      else s.endPass s.nextInput.2 s.nextInput.1 (inflateReply s) := rfl

/-- **What one pass of `decompressFile` does.** It leaves with corrupt data or with
the end of the stream; otherwise it repeats the inner loop when the output buffer
is full, and goes back to reading when it is not. -/
theorem decompressPass_cases {s : Pumping inflate} {h : History}
    (hcall : DecoderCall F h s.nextInput.1 bufSize (inflateReply s)) :
    (decompressPass inflate s =
          .leave { ret := false, status := some (inflateReply s).status, dest := s.dest } ∧
        ((inflateReply s).status = .needDict ∨ (inflateReply s).status = .dataError)) ∨
      (decompressPass inflate s = .again (s.onward (inflateReply s) true) ∧
        (inflateReply s).out.length = bufSize) ∨
      (decompressPass inflate s =
          .leave { ret := true, status := some .streamEnd
                   dest := s.dest.write (inflateReply s).out } ∧
        (inflateReply s).status = .streamEnd) ∨
      (decompressPass inflate s = .again (s.onward (inflateReply s) false) ∧
        (inflateReply s).out.length < bufSize ∧ (inflateReply s).status.GoesOn ∧
        (inflateReply s).used = s.nextInput.1.length) := by
  rw [decompressPass_eq]
  by_cases herror : (inflateReply s).status = .needDict ∨ (inflateReply s).status = .dataError
  · exact Or.inl ⟨if_pos (herror.imp_right Or.inl), herror⟩
  have hnerror : ¬ ((inflateReply s).status = .needDict ∨ (inflateReply s).status = .dataError ∨
      (inflateReply s).status = .memError) := by
    rintro (hstatus | hstatus | hstatus)
    · exact herror (Or.inl hstatus)
    · exact herror (Or.inr hstatus)
    · rcases hcall.status with (hok | hbuf) | hend | hdict | hdata <;> simp_all
  rw [if_neg hnerror]
  right
  by_cases hfull : (inflateReply s).out.length = bufSize
  · exact Or.inl ⟨s.endPass_full hfull, hfull⟩
  have hroom : (inflateReply s).out.length < bufSize := Nat.lt_of_le_of_ne hcall.out_le hfull
  right
  by_cases hend : (inflateReply s).status = .streamEnd
  · exact Or.inl ⟨s.endPass_end hroom hend, hend⟩
  have hgoes : (inflateReply s).status.GoesOn := by
    rcases hcall.status with hgoes | hstatus | hstatus | hstatus
    · exact hgoes
    · exact absurd hstatus hend
    · exact absurd (Or.inl hstatus) herror
    · exact absurd (Or.inr hstatus) herror
  exact Or.inr ⟨s.endPass_room hroom hend, hroom, hgoes, hcall.drains hgoes hroom⟩

/-- The call that the next pass makes is allowed. -/
theorem Inflating.allows {clean : Prop} {all : Bytes} {s : Pumping inflate} {h : History}
    (hs : Inflating clean all s h) : h.Allows .noFlush s.nextInput.1 bufSize := by
  refine ⟨bufSize_pos, ?_⟩
  intro rest hrest
  rw [hs.finishing] at hrest
  injection hrest

/-- **One pass of `decompressFile`** keeps the invariant, and lowers the measure
if the file can be decided, or leaves for a reason that decides the file. -/
theorem decompressPass_step (hdec : Decodes F inflate) {clean : Prop} {all : Bytes} {B : Nat}
    (hB : ∀ s h, inflate.After Flush.Decoding s h → h.fed <+: all → h.made.length ≤ B)
    (s : Pumping inflate) (h : History) (hs : Inflating clean all s h) :
    (∃ t k, decompressPass inflate s = .again t ∧ Inflating clean all t k ∧
        (F.Decided all → unfinished B t k < unfinished B s h)) ∨
      ∃ done, decompressPass inflate s = .leave done ∧
        (done.Refused F all ∨ done.Complete F clean all) := by
  obtain ⟨hfed, hsource, hrest⟩ := hs.feeding.next
  have hmode : Flush.noFlush.Decoding := by simp [Flush.Decoding]
  have hcall := hdec.call hs.after hmode hs.allows
  have hafter := hs.after.call hmode hs.allows
  change DecoderCall F h s.nextInput.1 bufSize (inflateReply s) at hcall
  have hfedLe : h.fed ++ s.nextInput.1.take (inflateReply s).used <+: all := fed_take_le hfed _
  have hmade : (h.made ++ (inflateReply s).out).length =
      h.made.length + (inflateReply s).out.length := List.length_append
  have hdest : clean → (s.dest.write (inflateReply s).out).Faultless ∧
      (s.dest.write (inflateReply s).out).stored = h.made ++ (inflateReply s).out := by
    intro hclean
    obtain ⟨hfaultless, hstored⟩ := hs.dest hclean
    obtain ⟨hwrite, hnext⟩ := hfaultless.write (inflateReply s).out
    exact ⟨hnext, by rw [hwrite, hstored]⟩
  rcases decompressPass_cases hcall with
    ⟨hpass, herror⟩ | ⟨hpass, hfull⟩ | ⟨hpass, hend⟩ | ⟨hpass, hroom, hgoes, hused⟩
  · -- corrupt data
    refine Or.inr ⟨_, hpass, Or.inl ⟨rfl, ?_, _, hfedLe, hcall.refuses herror⟩⟩
    rcases herror with hstatus | hstatus <;> simp [hstatus]
  · -- the inner loop repeats
    exact Or.inl ⟨_, _, hpass, ⟨hafter, hs.feeding.onward _ (by simp), hs.finishing, hdest⟩,
      fun _ => unfinished_full hrest (hfull ▸ hmade).ge (hB _ _ hafter hfedLe)⟩
  · exact Or.inr ⟨_, hpass, Or.inr ⟨rfl, rfl, _, _, hfedLe, hcall.complete hend, hdest⟩⟩
  · -- nothing decided yet: back to reading
    refine Or.inl ⟨_, _, hpass, ⟨hafter, hs.feeding.onward _ fun _ => hused, hs.finishing, hdest⟩,
      fun hdecided => unfinished_room rfl hrest ?_ (hmade ▸ Nat.le_add_right ..)⟩
    intro hinner
    rcases hsource with ⟨-, hread⟩ | ⟨-, hnil⟩
    · have := hread hinner
      have := bufSize_pos
      show s.nextInput.2.rest.length < s.source.rest.length
      omega
    · -- everything was fed, so the decoder would have decided
      rw [hnil, List.append_nil] at hfed
      exact absurd hgoes (hcall.reports hroom (hfed ▸ hdecided))

theorem inflating_init (dest : OfStream) (all : Bytes) (hempty : dest.stored = []) :
    Inflating dest.Faultless all
      ({ zs := inflate.init, source := { rest := all }, dest } : Pumping inflate) {} :=
  ⟨.init, ⟨rfl, fun _ => rfl, Or.inl ⟨rfl, rfl⟩⟩, rfl, fun hclean => ⟨hclean, hempty⟩⟩

/-- **On a file that can be decided the loops leave.** -/
theorem decompressLoop_returns (hdec : Decodes F inflate) {all : Bytes}
    (hall : F.Decided all) (dest : OfStream) (hempty : dest.stored = []) :
    ∃ done, Returns (decompressPass inflate)
        { zs := inflate.init, source := { rest := all }, dest } done ∧
      (done.Refused F all ∨ done.Complete F dest.Faultless all) := by
  obtain ⟨B, hB⟩ := hdec.bounded.exists_bound all
  refine returns_of_step (unfinished B) ?_ (inflating_init dest all hempty)
  intro s h hs
  rcases decompressPass_step hdec hB s h hs with ⟨t, k, hpass, ht, hlt⟩ | hleave
  · exact Or.inl ⟨t, k, hpass, ht, hlt hall⟩
  · exact Or.inr hleave

/-- On a file that begins with a stream, and with nothing failing, they leave with
its data. -/
theorem decompressLoop_complete (hdec : Decodes F inflate) {content p x : Bytes}
    (hp : p <+: content) (hx : F.Stream p x) :
    ∃ undone, Returns (decompressPass inflate) (World.faultless.start inflate content) undone ∧
      undone.ret = true ∧ undone.dest.Faultless ∧ undone.dest.stored = x := by
  obtain ⟨undone, hreturns, hundone⟩ :=
    decompressLoop_returns hdec ⟨p, hp, Or.inl ⟨x, hx⟩⟩ {} rfl
  refine ⟨undone, hreturns, ?_⟩
  rcases hundone with ⟨-, -, q, hq, hrefused⟩ | ⟨hret, -, q, z, hq, hz, hwritten⟩
  · exact absurd hx (F.not_stream_of_refused hq hrefused p x hp)
  · obtain ⟨-, rfl⟩ := F.stream_unique_of_le hp hq hx hz
    exact ⟨hret, hwritten ⟨rfl, rfl, rfl⟩⟩

/-- **On a truncated file the loops never leave.** -/
theorem decompressLoop_diverges (hdec : Decodes F inflate) {all : Bytes}
    (hall : F.Truncated all) (dest : OfStream) (hempty : dest.stored = []) :
    Diverges (decompressPass inflate)
      { zs := inflate.init, source := { rest := all }, dest } := by
  obtain ⟨B, hB⟩ := hdec.bounded.exists_bound all
  refine diverges_of_invariant (I := fun s => ∃ h, Inflating dest.Faultless all s h) ?_
    ⟨_, inflating_init dest all hempty⟩
  rintro s ⟨h, hs⟩
  rcases decompressPass_step hdec hB s h hs with ⟨t, k, hpass, ht, -⟩ | ⟨done, -, hdone⟩
  · exact ⟨t, hpass, k, ht⟩
  · -- leaving would decide the file
    exfalso
    rcases hdone with ⟨-, -, p, hp, hrefused⟩ | ⟨-, -, p, x, hp, hstream, -⟩
    · exact hall ⟨p, hp, Or.inr hrefused⟩
    · exact hall ⟨p, hp, Or.inl ⟨x, hstream⟩⟩

/-- The call returns, with `true` exactly if the last status is `Z_STREAM_END`. -/
def Terminates (inflate : Coder) (w : World) (fs : FileSystem)
    (compressedFilename destFilename : CString) : Prop :=
  ∃ fuel out, decompressFile inflate w fs compressedFilename destFilename fuel = some out ∧
    (out.ret = true ↔ out.status = some .streamEnd)

/-- **When `decompressFile` terminates.** On a source that can be read without a
fault, `decompressFile` returns, with `true` exactly after `Z_STREAM_END`, if
and only if what its loops find in the source, if it gets to them, is not
truncated: it begins with a complete stream or with corrupt data. -/
theorem decompressFile_terminates_iff (hdec : Decodes F inflate) (w : World)
    (hreads : w.readFails = none) (fs : FileSystem) (compressedFilename destFilename : CString) :
    Terminates inflate w fs compressedFilename destFilename ↔
      ∀ content, w.sourceContent fs compressedFilename destFilename = some content →
        ¬ F.Truncated content := by
  constructor
  · rintro ⟨fuel, out, hout, -⟩ content hcontent htrunc
    have hdiv := decompressLoop_diverges hdec htrunc { room := w.room, flushed := w.flushed } rfl
    rw [decompressFile, World.onFiles_some _ hcontent, hreads, hdiv fuel] at hout
    injection hout
  · intro hcontent
    cases hfound : w.sourceContent fs compressedFilename destFilename with
    | none =>
      obtain ⟨out, hout, hret, hstatus⟩ := World.onFiles_none
        (fun source dest => loop (decompressPass inflate) 0 { zs := inflate.init, source, dest })
        hfound
      exact ⟨0, out, hout, by simp [hret, hstatus]⟩
    | some content =>
      have hdecided : F.Decided content := not_not.mp (hcontent content hfound)
      obtain ⟨done, ⟨fuel, hfuel⟩, hdone⟩ :=
        decompressLoop_returns hdec hdecided { room := w.room, flushed := w.flushed } rfl
      have hout := World.onFiles_some
        (fun source dest => loop (decompressPass inflate) fuel { zs := inflate.init, source, dest })
        hfound
      rw [hreads, hfuel, Option.map_some] at hout
      refine ⟨fuel, _, hout, ?_⟩
      rcases hdone with ⟨hret, hstatus, -⟩ | ⟨hret, hstatus, -⟩
      · simp [hret, hstatus]
      · simp [hret, hstatus]

/-- The stream of a file that does not fit one buffer, with a byte behind it: the
call terminates. -/
theorem decompressFile_terminates_sevens :
    Terminates Stored.inflate World.faultless
      (FileSystem.put (fun _ => none) "e.zlib".toList
        (Stored.encode (List.replicate 200000 7) ++ [0]))
      "e.zlib".toList "e".toList := by
  refine (decompressFile_terminates_iff Stored.inflate_decodes World.faultless rfl ..).mpr ?_
  intro content hcontent
  have heq : content = Stored.encode (List.replicate 200000 7) ++ [0] := by
    rw [World.sourceContent, if_pos ⟨rfl, rfl, rfl⟩,
      FileSystem.put_of_ne _ _ (by decide), FileSystem.put_same] at hcontent
    exact (Option.some.inj hcontent).symm
  rw [heq, Format.Truncated, not_not]
  exact ⟨_, List.prefix_append .., Or.inl ⟨_, Stored.encode_stream _⟩⟩

/-- An empty compressed file: `inflate` has nothing to read and the loops go on
for ever. -/
theorem decompressFile_hangs_on_empty :
    ¬ Terminates Stored.inflate World.faultless (FileSystem.put (fun _ => none) "e.zlib".toList [])
      "e.zlib".toList "e".toList := by
  rintro ⟨fuel, out, hout, -⟩
  have hcontent : World.faultless.sourceContent
      (FileSystem.put (fun _ => none) "e.zlib".toList []) "e.zlib".toList "e".toList = some [] := by
    rw [World.sourceContent, if_pos ⟨rfl, rfl, rfl⟩, FileSystem.put_of_ne _ _ (by decide),
      FileSystem.put_same]
    rfl
  have hdiv := decompressLoop_diverges Stored.inflate_decodes Stored.truncated_nil {} rfl
  rw [decompressFile, World.onFiles_some _ hcontent] at hout
  rw [show World.faultless.readFails = none from rfl, show World.faultless.room = none from rfl,
    show World.faultless.flushed = none from rfl, hdiv fuel] at hout
  injection hout

end Zlib
