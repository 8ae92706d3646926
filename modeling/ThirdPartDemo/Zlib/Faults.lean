import ThirdPartDemo.Zlib.Deflate
import ThirdPartDemo.Zlib.Inflate

/-!
# zlibDemo — faults of the files

Of the states of its streams `compressFile` looks only at `eof()`, and
`decompressFile` at none. A run whose source fails beyond its end therefore
makes the same calls as one in which nothing fails, whatever happens to the
destination: `Mirrors` relates the two, and the simulation rule for loops carries
the results over.

* `compressFile_terminates_iff` — a source that fails before its end never sets
  `eofbit`, so `Z_FINISH` is never passed and the loops go on for ever;
* `whole_iff` — a fault of the destination never reaches the return value.
-/

namespace Zlib

open Library

variable {F : Format} {codec deflate inflate : Coder} {w : World}

-- ---------------------------------------------------------------------------
-- The same run without faults
-- ---------------------------------------------------------------------------

/-- `u` is the state of a run in which nothing fails, `s` the one of the same run
in `w`, whose source fails beyond its end if at all. -/
structure Pumping.Mirrors (w : World) (s u : Pumping codec) : Prop where
  zs : u.zs = s.zs
  input : u.input = s.input
  inner : u.inner = s.inner
  source : u.source = s.source.reliable
  outlasts : s.source.Outlasts
  dest : s.dest.Took w.room u.dest.stored
  flushed : s.dest.flushed = w.flushed
  faultless : u.dest.Faultless

/-- The same of the results. -/
structure Finished.Mirrors (w : World) (done undone : Finished) : Prop where
  ret : undone.ret = done.ret
  dest : done.dest.Took w.room undone.dest.stored
  flushed : done.dest.flushed = w.flushed

theorem mirrors_start (codec : Coder) {content : Bytes}
    (h : ∀ k, w.readFails = some k → content.length < k) :
    (w.start codec content).Mirrors w (World.faultless.start codec content) where
  zs := rfl
  input := rfl
  inner := rfl
  source := rfl
  outlasts := h
  dest := OfStream.took_nil w.room w.flushed
  flushed := rfl
  faultless := ⟨rfl, rfl, rfl⟩

section Mirrors

variable {s u : Pumping codec}

theorem Pumping.Mirrors.nextInput (h : s.Mirrors w u) :
    u.nextInput = (s.nextInput.1, s.nextInput.2.reliable) ∧ s.nextInput.2.Outlasts := by
  unfold Pumping.nextInput
  rw [h.inner, h.input, h.source]
  split_ifs
  · exact ⟨rfl, h.outlasts⟩
  · exact h.outlasts.read bufSize

/-- Writing and the two loop conditions do the same in both runs. -/
theorem Pumping.Mirrors.endPass (h : s.Mirrors w u) {source : IfStream} (hsource : source.Outlasts)
    (input : Bytes) (r : Reply codec.State) :
    Pass.Rel (Pumping.Mirrors w) (Finished.Mirrors w) (s.endPass source input r)
      (u.endPass source.reliable input r) := by
  obtain ⟨hstored, hfaultless⟩ := h.faultless.write r.out
  have hdest := h.dest.write r.out
  have hflushed := (s.dest.write_flushed r.out).trans h.flushed
  rw [← hstored] at hdest
  unfold Pumping.endPass
  dsimp only
  split_ifs
  · exact .again ⟨rfl, rfl, rfl, rfl, hsource, hdest, hflushed, hfaultless⟩
  · exact .again ⟨rfl, rfl, rfl, rfl, hsource, hdest, hflushed, hfaultless⟩
  · exact .leave ⟨rfl, hdest, hflushed⟩

end Mirrors

/-- Both runs make the same call. -/
theorem deflateCall_mirrors {s u : Pumping deflate} (h : s.Mirrors w u) :
    deflateCall s = deflateCall u := by
  rw [deflateCall, deflateCall, nextFlush, nextFlush, h.nextInput.1, h.zs]
  rfl

theorem compressPass_mirrors (s u : Pumping deflate) (h : s.Mirrors w u) :
    Pass.Rel (Pumping.Mirrors w) (Finished.Mirrors w) (compressPass deflate s)
      (compressPass deflate u) := by
  obtain ⟨hinput, houtlasts⟩ := h.nextInput
  have hreply : nextReply u = nextReply s := by
    rw [nextReply, nextReply, nextFlush, nextFlush, hinput, h.zs]
    rfl
  rw [compressPass_eq, compressPass_eq, hreply, hinput]
  split_ifs
  · exact .leave ⟨rfl, h.dest, h.flushed⟩
  · exact h.endPass houtlasts ..

theorem decompressPass_mirrors (s u : Pumping inflate) (h : s.Mirrors w u) :
    Pass.Rel (Pumping.Mirrors w) (Finished.Mirrors w) (decompressPass inflate s)
      (decompressPass inflate u) := by
  obtain ⟨hinput, houtlasts⟩ := h.nextInput
  unfold decompressPass
  rw [hinput, h.zs]
  dsimp only
  split_ifs
  · exact .leave ⟨rfl, h.dest, h.flushed⟩
  · exact h.endPass houtlasts ..

-- ---------------------------------------------------------------------------
-- Read faults
-- ---------------------------------------------------------------------------

/-- `compressFile` returns, after finitely many calls of `deflate`, and with `true`
only after they used up the whole source. -/
def TerminatesReadingAll (deflate : Coder) (w : World) (fs : FileSystem)
    (sourceFilename compressedFilename : CString) : Prop :=
  ∃ fuel out, compressFile deflate w fs sourceFilename compressedFilename fuel = some out ∧
    (out.ret = true → ∀ content,
      w.sourceContent fs sourceFilename compressedFilename = some content →
      (compressCalls deflate w fs sourceFilename compressedFilename fuel).flatMap Call.consumed =
        content)

/-- **On a source that fails before its end the loops never leave.** The end is
not seen, so `Z_FINISH` is not passed and the stream does not end. -/
theorem compressLoop_diverges (henc : Encodes F deflate) {content : Bytes} {k : Nat}
    (hfails : w.readFails = some k) (hk : k ≤ content.length) :
    Diverges (compressPass deflate) (w.start deflate content) := by
  refine diverges_of_invariant (I := fun s => (∃ h, Calling s h) ∧ s.source.Doomed) ?_
    ⟨⟨_, calling_start w content⟩, rfl, Or.inr ⟨k, hfails, hk⟩⟩
  rintro s ⟨⟨h, hs⟩, hdoomed⟩
  have hnext : s.nextInput.2.Doomed := by
    unfold Pumping.nextInput
    split_ifs
    · exact hdoomed
    · exact hdoomed.read bufSize
  rcases compressPass_cases henc hs with
    ⟨hpass, hcalling, -⟩ | ⟨hpass, hcalling, -⟩ | ⟨-, heof, -⟩
  · exact ⟨_, hpass, ⟨_, hcalling⟩, hnext⟩
  · exact ⟨_, hpass, ⟨_, hcalling⟩, hnext⟩
  · rw [hnext.1] at heof
    injection heof

/-- The calls of a run are those of the run without faults. -/
theorem compressCalls_mirrors {fs : FileSystem} {sourceFilename compressedFilename : CString}
    {content : Bytes}
    (hcontent : w.sourceContent fs sourceFilename compressedFilename = some content)
    (hreads : ∀ k, w.readFails = some k → content.length < k) (fuel : Nat) :
    compressCalls deflate w fs sourceFilename compressedFilename fuel =
      (trail (compressPass deflate) fuel (World.faultless.start deflate content)).map
        deflateCall := by
  have hrel := trail_rel compressPass_mirrors (mirrors_start deflate hreads) fuel
  have hcalls := hrel.imp fun _ _ h => deflateCall_mirrors h
  rw [compressCalls, hcontent]
  rw [← List.forall₂_map_right_iff (f := deflateCall),
    ← List.forall₂_map_left_iff (f := deflateCall), List.forall₂_eq_eq_eq] at hcalls
  exact hcalls

/-- What a run comes to whose source can be read to its end: it leaves like the run
without faults, which wrote the stream that `deflate` makes of the source, and its
calls used up the source. -/
theorem compressLoop_result (henc : Encodes F deflate) {fs : FileSystem}
    {sourceFilename compressedFilename : CString} {content : Bytes}
    (hcontent : w.sourceContent fs sourceFilename compressedFilename = some content)
    (hreads : ∀ k, w.readFails = some k → content.length < k) :
    ∃ fuel done undone, loop (compressPass deflate) fuel (w.start deflate content) = some done ∧
      done.Mirrors w undone ∧ done.ret = true ∧ F.Stream undone.dest.stored content ∧
      deflate.StreamOf bufSize content undone.dest.stored ∧
      (compressCalls deflate w fs sourceFilename compressedFilename fuel).flatMap Call.consumed =
        content := by
  obtain ⟨undone, ⟨fuel, hfuel⟩, hret, -, hstream⟩ := compressLoop_returns henc content
  obtain ⟨done, hdone, hmirrors⟩ :=
    loop_rel_right compressPass_mirrors (mirrors_start deflate hreads) hfuel
  refine ⟨fuel, done, undone, hdone, hmirrors, hmirrors.ret.symm.trans hret, hstream,
    compressLoop_streamOf henc hfuel, ?_⟩
  rw [compressCalls_mirrors hcontent hreads, List.flatMap_map]
  exact compressLoop_collects henc hfuel

/-- **When `compressFile` terminates.** For every world, also one in which the
destination fails: `compressFile` returns, with `true` only after the whole
source was read, if and only if the source, should it fail, fails beyond the end
of what the loops find in it. -/
theorem compressFile_terminates_iff (henc : Encodes F deflate) (w : World) (fs : FileSystem)
    (sourceFilename compressedFilename : CString) :
    TerminatesReadingAll deflate w fs sourceFilename compressedFilename ↔
      ∀ content k, w.sourceContent fs sourceFilename compressedFilename = some content →
        w.readFails = some k → content.length < k := by
  constructor
  · rintro ⟨fuel, out, hout, -⟩ content k hcontent hfails
    by_contra hk
    have hdiverges := compressLoop_diverges henc hfails (Nat.le_of_not_lt hk)
    rw [compressFile_some deflate hcontent, hdiverges fuel] at hout
    injection hout
  · intro hreads
    cases hfound : w.sourceContent fs sourceFilename compressedFilename with
    | none =>
      obtain ⟨out, hout, hret, -⟩ := World.onFiles_none
        (fun source dest => loop (compressPass deflate) 0 { zs := deflate.init, source, dest })
        hfound
      refine ⟨0, out, hout, ?_⟩
      intro htrue
      rw [hret] at htrue
      injection htrue
    | some content =>
      obtain ⟨fuel, done, undone, hdone, -, -, -, -, hconsumed⟩ :=
        compressLoop_result henc hfound fun k => hreads content k hfound
      have hout := compressFile_some deflate hfound fuel
      rw [hdone, Option.map_some] at hout
      refine ⟨fuel, _, hout, ?_⟩
      intro _ content' hcontent'
      obtain rfl : content = content' := Option.some.inj (hfound.symm.trans hcontent')
      exact hconsumed

/-- A source that can be read: the call terminates. -/
theorem compressFile_terminates_byte :
    TerminatesReadingAll Stored.deflate World.faultless
      (FileSystem.put (fun _ => none) "2.mp4".toList [7]) "2.mp4".toList "2.zlib".toList := by
  refine (compressFile_terminates_iff Stored.deflate_encodes ..).mpr ?_
  intro content k _ hfails
  injection hfails

/-- A bad sector under the only byte of the source: the call never returns. -/
theorem compressFile_hangs_on_badSector :
    ¬ TerminatesReadingAll Stored.deflate { World.faultless with readFails := some 0 }
      (FileSystem.put (fun _ => none) "2.mp4".toList [7]) "2.mp4".toList "2.zlib".toList := by
  rintro ⟨fuel, out, hout, -⟩
  have hcontent : World.sourceContent { World.faultless with readFails := some 0 }
      (FileSystem.put (fun _ => none) "2.mp4".toList [7]) "2.mp4".toList "2.zlib".toList =
        some [7] :=
    sourceContent_faultless [7]
  have hdiverges := compressLoop_diverges (w := { World.faultless with readFails := some 0 })
    Stored.deflate_encodes rfl (Nat.zero_le ([7] : Bytes).length)
  rw [compressFile_some Stored.deflate hcontent, hdiverges fuel] at hout
  injection hout

-- ---------------------------------------------------------------------------
-- Write faults
-- ---------------------------------------------------------------------------

/-- The destination keeps a file of `n` bytes: neither a write nor the last flush
fails within them. -/
def World.Stores (w : World) (n : Nat) : Prop :=
  OfStream.Fits w.room n ∧ OfStream.Fits w.flushed n

/-- `compressFile` returns `true` only with the whole stream of the source in the
destination. -/
def CompressesWhole (F : Format) (deflate : Coder) (w : World) (fs : FileSystem)
    (sourceFilename compressedFilename : CString) : Prop :=
  ∀ fuel out, compressFile deflate w fs sourceFilename compressedFilename fuel = some out →
    out.ret = true →
      ∃ content y, w.sourceContent fs sourceFilename compressedFilename = some content ∧
        out.fs compressedFilename = some y ∧ F.Stream y content

/-- `decompressFile` returns `true` only with the whole data of the stream in the
destination. -/
def DecompressesWhole (F : Format) (inflate : Coder) (w : World) (fs : FileSystem)
    (compressedFilename destFilename : CString) : Prop :=
  ∀ fuel out, decompressFile inflate w fs compressedFilename destFilename fuel = some out →
    out.ret = true →
      ∃ content p x, w.sourceContent fs compressedFilename destFilename = some content ∧
        p <+: content ∧ F.Stream p x ∧ out.fs destFilename = some x

/-- What is in the destination after a run is what the run without faults wrote,
exactly if the destination stores it. -/
theorem Finished.Mirrors.onDisk {done undone : Finished} (h : done.Mirrors w undone) :
    done.dest.onDisk <+: undone.dest.stored ∧
      (done.dest.onDisk = undone.dest.stored ↔ w.Stores undone.dest.stored.length) := by
  have hdisk := h.dest.onDisk
  rw [h.flushed] at hdisk
  exact hdisk

variable {fs : FileSystem} {sourceFilename destFilename : CString}

/-- A source without read faults can be read to its end. -/
theorem World.reads_all (h : w.readFails = none) (content : Bytes) (k : Nat)
    (hk : w.readFails = some k) : content.length < k := by
  rw [h] at hk
  injection hk

/-- `compressFile` can be trusted exactly if the destination stores the stream that
`deflate` makes of the source. -/
theorem compressesWhole_iff (henc : Encodes F deflate) (hreads : w.readFails = none) :
    CompressesWhole F deflate w fs sourceFilename destFilename ↔
      ∀ content y, w.sourceContent fs sourceFilename destFilename = some content →
        deflate.StreamOf bufSize content y → w.Stores y.length := by
  constructor
  · intro hwhole content y hfound hy
    obtain ⟨fuel, done, undone, hdone, hmirrors, hret, hstream, hmade, -⟩ :=
      compressLoop_result henc hfound (w.reads_all hreads content)
    have hout := compressFile_some deflate hfound fuel
    rw [hdone, Option.map_some] at hout
    obtain ⟨content', z, hcontent', hz, hstream'⟩ := hwhole fuel _ hout hret
    obtain rfl : content = content' := Option.some.inj (hfound.symm.trans hcontent')
    obtain rfl : done.dest.onDisk = z := by
      dsimp only at hz
      rw [FileSystem.put_same] at hz
      exact Option.some.inj hz
    -- a beginning of a stream that is a stream is all of it
    obtain ⟨hpre, hiff⟩ := hmirrors.onDisk
    rw [hy.unique hmade]
    exact hiff.mp (F.stream_eq hstream hpre hstream').1
  · intro hstores fuel out hout hret
    obtain ⟨content, done, hfound, hdone, -, hdisk⟩ := compressFile_true hout hret
    obtain ⟨fuel', done', undone, hdone', hmirrors, -, hstream, hmade, -⟩ :=
      compressLoop_result henc hfound (w.reads_all hreads content)
    obtain rfl : done = done' := Returns.unique ⟨fuel, hdone⟩ ⟨fuel', hdone'⟩
    rw [hmirrors.onDisk.2.mpr (hstores content _ hfound hmade)] at hdisk
    exact ⟨content, _, hfound, hdisk, hstream⟩

/-- `decompressFile` can be trusted exactly if the destination stores the data of
the stream that the file begins with, if there is one. -/
theorem decompressesWhole_iff (hdec : Decodes F inflate) (hreads : w.readFails = none) :
    DecompressesWhole F inflate w fs sourceFilename destFilename ↔
      ∀ content p x, w.sourceContent fs sourceFilename destFilename = some content →
        p <+: content → F.Stream p x → w.Stores x.length := by
  constructor
  · intro hwhole content p x hfound hp hx
    obtain ⟨undone, ⟨fuel, hfuel⟩, hret, -, rfl⟩ := decompressLoop_complete hdec hp hx
    obtain ⟨done, hdone, hmirrors⟩ :=
      loop_rel_right decompressPass_mirrors (mirrors_start inflate (w.reads_all hreads content))
        hfuel
    have hout := decompressFile_some inflate hfound fuel
    rw [hdone, Option.map_some] at hout
    obtain ⟨content', q, z, hcontent', hq, hz, hdisk⟩ :=
      hwhole fuel _ hout (hmirrors.ret.symm.trans hret)
    obtain rfl : content = content' := Option.some.inj (hfound.symm.trans hcontent')
    obtain ⟨-, rfl⟩ := F.stream_unique_of_le hp hq hx hz
    dsimp only at hdisk
    rw [FileSystem.put_same] at hdisk
    exact hmirrors.onDisk.2.mp (Option.some.inj hdisk)
  · intro hstores fuel out hout hret
    obtain ⟨content, done, hfound, hdone, hdoneRet, hdisk⟩ := decompressFile_true hout hret
    obtain ⟨undone, hundone, hmirrors⟩ :=
      loop_rel_left decompressPass_mirrors (mirrors_start inflate (w.reads_all hreads content))
        hdone
    have hdecided : F.Decided content := by
      by_contra htruncated
      have hdiverges := decompressLoop_diverges hdec htruncated {} rfl fuel
      cases hundone.symm.trans hdiverges
    obtain ⟨undone', hreturns, hcases⟩ := decompressLoop_returns hdec hdecided {} rfl
    obtain rfl : undone = undone' := Returns.unique ⟨fuel, hundone⟩ hreturns
    rcases hcases with ⟨hfalse, -⟩ | ⟨-, -, p, x, hp, hx, hwritten⟩
    · rw [hmirrors.ret, hdoneRet] at hfalse
      injection hfalse
    · have hstored := (hwritten ⟨rfl, rfl, rfl⟩).2
      have hfits := hstores content p x hfound hp hx
      rw [← hstored] at hfits
      rw [hmirrors.onDisk.2.mpr hfits, hstored] at hdisk
      exact ⟨content, p, x, hfound, hp, hx, hdisk⟩

/-- **When success means a complete file.** For every source that can be read and
every schedule of faults of the destination: `compressFile` returns `true` only
with the whole stream in the destination if and only if the destination stores
the stream that `deflate` makes of the source, with buffers of 128 KiB;
`decompressFile` returns `true` only with the whole data there if and only if the
destination stores the data of the stream that the source begins with, if it
begins with one. -/
theorem whole_iff (henc : Encodes F deflate) (hdec : Decodes F inflate)
    (hreads : w.readFails = none) :
    (CompressesWhole F deflate w fs sourceFilename destFilename ↔
      ∀ content y, w.sourceContent fs sourceFilename destFilename = some content →
        deflate.StreamOf bufSize content y → w.Stores y.length) ∧
    (DecompressesWhole F inflate w fs sourceFilename destFilename ↔
      ∀ content p x, w.sourceContent fs sourceFilename destFilename = some content →
        p <+: content → F.Stream p x → w.Stores x.length) :=
  ⟨compressesWhole_iff henc hreads, decompressesWhole_iff hdec hreads⟩

/-- The stream of a short source, made in one call. -/
theorem streamOf_short {content y : Bytes} (hlen : content.length < bufSize)
    (hshort : (Stored.encode content).length < bufSize)
    (hy : Stored.deflate.StreamOf bufSize content y) : y = Stored.encode content := by
  have hcall : Stored.deflate.call Stored.deflate.init .finish content bufSize =
      handOut .draining content.length (Stored.encode content) bufSize := rfl
  have hout : (Stored.deflate.call Stored.deflate.init .finish content bufSize).out =
      Stored.encode content := by
    rw [hcall]
    exact List.take_of_length_le hshort.le
  have hone : Stored.deflate.StreamOf bufSize content
      ((Stored.deflate.call Stored.deflate.init .finish content bufSize).out ++ []) := by
    rw [Coder.StreamOf, pieces_end hlen]
    exact .room (by rw [hout]; exact Nat.ne_of_lt hshort) (.nil _)
  rw [hy.unique hone, hout, List.append_nil]

/-- The file `"hi"` as a stream, on a disk with room for 28 bytes: enough for its
data and for the stream that is made of the 15 bytes of the stream. -/
theorem whole_of_room :
    CompressesWhole Stored.format Stored.deflate { World.faultless with room := some 28 }
        (FileSystem.put (fun _ => none) "2.mp4".toList (Stored.encode [104, 105]))
        "2.mp4".toList "2.zlib".toList ∧
      DecompressesWhole Stored.format Stored.inflate { World.faultless with room := some 28 }
        (FileSystem.put (fun _ => none) "2.mp4".toList (Stored.encode [104, 105]))
        "2.mp4".toList "2.zlib".toList := by
  have hcontent : World.sourceContent { World.faultless with room := some 28 }
      (FileSystem.put (fun _ => none) "2.mp4".toList (Stored.encode [104, 105]))
      "2.mp4".toList "2.zlib".toList = some (Stored.encode [104, 105]) := sourceContent_faultless _
  have hlen : (Stored.encode [104, 105]).length = 15 := Stored.length_encode _
  have hstores : ∀ n, n ≤ 28 → World.Stores { World.faultless with room := some 28 } n := by
    intro n hn
    refine ⟨?_, fun k hk => by cases hk⟩
    intro k hk
    obtain rfl : 28 = k := Option.some.inj hk
    exact hn
  obtain ⟨hcompress, hdecompress⟩ := whole_iff (w := { World.faultless with room := some 28 })
    Stored.deflate_encodes Stored.inflate_decodes rfl
  refine ⟨hcompress.mpr ?_, hdecompress.mpr ?_⟩
  · intro content y hfound hy
    obtain rfl := Option.some.inj (hcontent.symm.trans hfound)
    have htwice : (Stored.encode (Stored.encode [104, 105])).length = 28 := by
      rw [Stored.length_encode, hlen]
    rw [streamOf_short (by rw [hlen]; decide) (by rw [htwice]; decide) hy, htwice]
    exact hstores 28 (le_refl _)
  · intro content p x hfound hp hx
    obtain rfl := Option.some.inj (hcontent.symm.trans hfound)
    obtain ⟨-, rfl⟩ := Stored.format.stream_eq (Stored.encode_stream _) hp hx
    exact hstores 2 (by decide)

/-- A full disk: `compressFile` returns `true` and leaves an empty file. -/
theorem compressFile_true_on_full_disk :
    ¬ (CompressesWhole Stored.format Stored.deflate { World.faultless with room := some 0 }
        (FileSystem.put (fun _ => none) "2.mp4".toList []) "2.mp4".toList "2.zlib".toList ∧
      DecompressesWhole Stored.format Stored.inflate { World.faultless with room := some 0 }
        (FileSystem.put (fun _ => none) "2.mp4".toList []) "2.mp4".toList "2.zlib".toList) := by
  rintro ⟨hwhole, -⟩
  obtain ⟨undone, ⟨fuel, hfuel⟩, -, -, hstream⟩ := compressLoop_returns Stored.deflate_encodes []
  have hcontent : World.sourceContent { World.faultless with room := some 0 }
      (FileSystem.put (fun _ => none) "2.mp4".toList []) "2.mp4".toList "2.zlib".toList = some [] :=
    sourceContent_faultless []
  have hstores := (compressesWhole_iff Stored.deflate_encodes rfl).mp hwhole [] _ hcontent
    (compressLoop_streamOf Stored.deflate_encodes hfuel)
  exact Nat.not_lt.mpr (hstores.1 0 rfl) (Stored.stream_length hstream)

end Zlib
