import ThirdPartDemo.Library.Codec
import ThirdPartDemo.Library.Fstream
import ThirdPartDemo.Library.Loop

/-!
# zlibDemo — compressing and decompressing a file

The functions `compressFile` and `decompressFile` of `zlibDemo/zlibDemo.cpp`.
zlib itself is not part of the repository and comes as a `Coder`; what the files
and the streams do in one call comes as a `World`.

Both functions nest two `do`-`while` loops, an outer one that reads a buffer and
an inner one that calls the codec until it leaves room in the output buffer.
One pass of the model is one call of the codec with the two loop conditions
after it; `inner` says whether the pass repeats the inner loop, so that it goes
on with the input it has instead of reading.

The messages on `std::cerr` and the calls of `deflateEnd` and `inflateEnd`,
which come before every return inside the loops, are left out.
-/

namespace Zlib

open Library

def bufSize : Nat := 128 * 1024

theorem bufSize_pos : 0 < bufSize := by decide

/-- What one call of `compressFile` or `decompressFile` meets besides the files. -/
structure World where
  writable : CString → Bool       -- the `std::ofstream` opens
  init : Status                   -- what `deflateInit` or `inflateInit` returns
  readFails : Option Nat          -- the bytes of the source before a read fault
  room : Option Nat               -- the bytes of the destination before a write fault
  flushed : Option Nat            -- how much is on disk when the last flush fails

/-- A world in which nothing fails. -/
structure World.Faultless (w : World) : Prop where
  writable : ∀ name, w.writable name = true
  init : w.init = .ok
  readFails : w.readFails = none
  room : w.room = none
  flushed : w.flushed = none

def World.faultless : World where
  writable _ := true
  init := .ok
  readFails := none
  room := none
  flushed := none

theorem World.faultless_faultless : World.faultless.Faultless :=
  ⟨fun _ => rfl, rfl, rfl, rfl, rfl⟩

/-- The variables of the two loops. -/
structure Pumping (codec : Coder) where
  zs : codec.State
  source : IfStream
  input : Bytes := []           -- the `avail_in` bytes at `next_in`
  dest : OfStream
  inner : Bool := false

/-- How the loops were left: the return value, the last status and the
destination. -/
structure Finished where
  ret : Bool
  status : Option Status := none
  dest : OfStream

variable {codec : Coder}

/-- The input of the next call, read unless the inner loop repeats. -/
def Pumping.nextInput (s : Pumping codec) : Bytes × IfStream :=
  if s.inner then (s.input, s.source) else s.source.read bufSize

/-- The end of a pass: write what the call made, then look at `avail_out`, then
at the status. -/
def Pumping.endPass (s : Pumping codec) (source : IfStream) (input : Bytes)
    (r : Reply codec.State) : Pass (Pumping codec) Finished :=
  let dest := s.dest.write r.out
  let zs := r.state
  let input := input.drop r.used
  if r.out.length = bufSize then .again { zs, source, input, dest, inner := true }
  else if r.status ≠ .streamEnd then .again { zs, source, input, dest, inner := false }
  else .leave { ret := true, status := some r.status, dest }

/-- One call of `deflate`. -/
def compressPass (deflate : Coder) (s : Pumping deflate) : Pass (Pumping deflate) Finished :=
  let (input, source) := s.nextInput
  let r := deflate.call s.zs (if source.eofbit then .finish else .noFlush) input bufSize
  if r.status = .streamError then
    .leave { ret := false, status := some r.status, dest := s.dest }
  else s.endPass source input r

/-- One call of `inflate`. -/
def decompressPass (inflate : Coder) (s : Pumping inflate) : Pass (Pumping inflate) Finished :=
  let (input, source) := s.nextInput
  let r := inflate.call s.zs .noFlush input bufSize
  if r.status = .needDict ∨ r.status = .dataError ∨ r.status = .memError then
    .leave { ret := false, status := some r.status, dest := s.dest }
  else s.endPass source input r

/-- What a call leaves: its return value, the last status and the files. -/
structure Outcome where
  ret : Bool
  status : Option Status
  fs : FileSystem

/-- Open both streams, run the loops on them and close them. -/
def World.onFiles (w : World) (fs : FileSystem) (sourceFilename destFilename : CString)
    (loops : IfStream → OfStream → Option Finished) : Option Outcome :=
  match fs sourceFilename, w.writable destFilename with
  | some _, true =>
    let fs := fs.put destFilename []
    -- the source as it is once the destination was truncated
    let source := { rest := (fs sourceFilename).getD [], failsAfter := w.readFails }
    let dest := { room := w.room, flushed := w.flushed }
    (if w.init = .ok then loops source dest else some { ret := false, dest }).map fun done =>
      { ret := done.ret, status := done.status, fs := fs.put destFilename done.dest.onDisk }
  | none, true => some { ret := false, status := none, fs := fs.put destFilename [] }
  | _, false => some { ret := false, status := none, fs }

/-- `compressFile` -/
def compressFile (deflate : Coder) (w : World) (fs : FileSystem)
    (sourceFilename compressedFilename : CString) (fuel : Nat) : Option Outcome :=
  w.onFiles fs sourceFilename compressedFilename fun source dest =>
    loop (compressPass deflate) fuel { zs := deflate.init, source, dest }

/-- `decompressFile` -/
def decompressFile (inflate : Coder) (w : World) (fs : FileSystem)
    (compressedFilename destFilename : CString) (fuel : Nat) : Option Outcome :=
  w.onFiles fs compressedFilename destFilename fun source dest =>
    loop (decompressPass inflate) fuel { zs := inflate.init, source, dest }

-- ---------------------------------------------------------------------------
-- Reading and the end of a pass
-- ---------------------------------------------------------------------------

/-- The source of a state at a loop head, with what is left of `all` after
`fed`: a fresh stream, or one that met the end. -/
structure Pumping.Feeding (s : Pumping codec) (fed all : Bytes) : Prop where
  fed : fed ++ s.input ++ s.source.rest = all
  outer : s.inner = false → s.input = []
  source : s.source.Fresh ∨ s.source.eofbit = true ∧ s.source.rest = []

/-- What the next call is offered. -/
theorem Pumping.Feeding.next {s : Pumping codec} {fed all : Bytes} (h : s.Feeding fed all) :
    fed ++ s.nextInput.1 ++ s.nextInput.2.rest = all ∧
      (s.nextInput.2.Fresh ∧ (s.inner = false →
          s.nextInput.2.rest.length + bufSize = s.source.rest.length) ∨
        s.nextInput.2.eofbit = true ∧ s.nextInput.2.rest = []) ∧
      s.nextInput.2.rest.length ≤ s.source.rest.length := by
  obtain ⟨hfed, houter, hsource⟩ := h
  unfold nextInput
  cases hs : s.inner with
  | true =>
    rw [if_pos rfl]
    exact ⟨hfed, hsource.imp_left fun hfresh => ⟨hfresh, by simp⟩, le_refl _⟩
  | false =>
    rw [if_neg (by simp)]
    rw [houter hs, List.append_nil] at hfed
    rcases hsource with hfresh | ⟨heof, hnil⟩
    · by_cases hfull : bufSize ≤ s.source.rest.length
      · -- a full buffer, and the end not seen yet
        obtain ⟨hread, hnext⟩ := hfresh.read_full hfull
        refine ⟨?_, Or.inl ⟨hnext, ?_⟩, ?_⟩
        · rw [hread, List.append_assoc, List.take_append_drop, hfed]
        · intro _
          rw [hread, List.length_drop]
          omega
        · rw [hread, List.length_drop]
          omega
      · rw [hfresh.read_end (by omega)]
        exact ⟨by rw [List.append_nil, hfed], Or.inr ⟨rfl, rfl⟩, Nat.zero_le _⟩
    · -- the end was met before: nothing more to read
      rw [IfStream.read_of_eofbit heof]
      exact ⟨by rw [List.append_nil, hfed], Or.inr ⟨heof, hnil⟩, le_refl _⟩

/-- The state after a call, at the head of the inner or of the outer loop. -/
def Pumping.onward (s : Pumping codec) (r : Reply codec.State) (inner : Bool) : Pumping codec where
  zs := r.state
  source := s.nextInput.2
  input := s.nextInput.1.drop r.used
  dest := s.dest.write r.out
  inner

/-- A pass that fills the output buffer repeats the inner loop. -/
theorem Pumping.endPass_full (s : Pumping codec) {r : Reply codec.State}
    (h : r.out.length = bufSize) :
    s.endPass s.nextInput.2 s.nextInput.1 r = .again (s.onward r true) := by
  rw [endPass, if_pos h]
  rfl

/-- A pass that leaves room goes back to reading unless the stream has ended. -/
theorem Pumping.endPass_room (s : Pumping codec) {r : Reply codec.State}
    (h : r.out.length < bufSize) (hstatus : r.status ≠ .streamEnd) :
    s.endPass s.nextInput.2 s.nextInput.1 r = .again (s.onward r false) := by
  rw [endPass, if_neg (Nat.ne_of_lt h), if_pos hstatus]
  rfl

theorem Pumping.endPass_end (s : Pumping codec) {r : Reply codec.State}
    (h : r.out.length < bufSize) (hstatus : r.status = .streamEnd) :
    s.endPass s.nextInput.2 s.nextInput.1 r = .leave
      { ret := true, status := some .streamEnd, dest := s.dest.write r.out } := by
  rw [endPass, if_neg (Nat.ne_of_lt h), if_neg (by simpa using hstatus), hstatus]

/-- The input left over by a call is still in front of the rest of the source. -/
theorem Pumping.Feeding.onward {s : Pumping codec} {fed all : Bytes} (h : s.Feeding fed all)
    (r : Reply codec.State) {inner : Bool}
    (hinput : inner = false → r.used = s.nextInput.1.length) :
    (s.onward r inner).Feeding (fed ++ s.nextInput.1.take r.used) all := by
  obtain ⟨hfed, hsource, -⟩ := h.next
  refine ⟨fed_append hfed r.used, ?_, hsource.imp_left And.left⟩
  intro hinner
  show s.nextInput.1.drop r.used = []
  rw [hinput hinner, List.drop_length]

-- ---------------------------------------------------------------------------
-- The measure of the loops
-- ---------------------------------------------------------------------------

/-- Passes lower this measure: every pass reads, or fills the output buffer, or
ends a repetition of the inner loop. -/
def unfinished (B : Nat) (s : Pumping codec) (h : History) : Nat :=
  2 * s.source.rest.length + 2 * (B - h.made.length) + if s.inner then 1 else 0

/-- A pass that filled the output buffer. -/
theorem unfinished_full {B : Nat} {s t : Pumping codec} {h k : History}
    (hrest : t.source.rest.length ≤ s.source.rest.length)
    (hmade : h.made.length + bufSize ≤ k.made.length) (hB : k.made.length ≤ B) :
    unfinished B t k < unfinished B s h := by
  have hpos := bufSize_pos
  unfold unfinished
  split_ifs <;> omega

/-- A pass that left room in the output buffer and goes back to reading. -/
theorem unfinished_room {B : Nat} {s t : Pumping codec} {h k : History}
    (ht : t.inner = false) (hrest : t.source.rest.length ≤ s.source.rest.length)
    (hread : s.inner = false → t.source.rest.length < s.source.rest.length)
    (hmade : h.made.length ≤ k.made.length) : unfinished B t k < unfinished B s h := by
  unfold unfinished
  rw [ht]
  cases hs : s.inner with
  | true =>
    simp only [if_true, if_false, Bool.false_eq_true]
    omega
  | false =>
    have := hread hs
    simp only [if_false, Bool.false_eq_true]
    omega

-- ---------------------------------------------------------------------------
-- The files
-- ---------------------------------------------------------------------------

/-- What the loops find in the source, if the call gets to them. -/
def World.sourceContent (w : World) (fs : FileSystem) (sourceFilename destFilename : CString) :
    Option Bytes :=
  if (fs sourceFilename).isSome ∧ w.writable destFilename ∧ w.init = .ok then
    some (((fs.put destFilename []) sourceFilename).getD [])
  else none

variable {w : World} {fs : FileSystem} {sourceFilename destFilename : CString}
  (loops : IfStream → OfStream → Option Finished)

theorem World.onFiles_some {content : Bytes}
    (h : w.sourceContent fs sourceFilename destFilename = some content) :
    w.onFiles fs sourceFilename destFilename loops =
      (loops { rest := content, failsAfter := w.readFails }
        { room := w.room, flushed := w.flushed }).map fun done =>
          { ret := done.ret, status := done.status
            fs := (fs.put destFilename []).put destFilename done.dest.onDisk } := by
  obtain ⟨⟨hsource, hdest, hinit⟩, hcontent⟩ := Option.ite_none_right_eq_some.mp h
  obtain ⟨bytes, hbytes⟩ := Option.isSome_iff_exists.mp hsource
  unfold World.onFiles
  rw [hbytes, hdest]
  dsimp only
  rw [if_pos hinit, Option.some.inj hcontent]

/-- The state in which a call enters the loops. -/
def World.start (w : World) (codec : Coder) (content : Bytes) : Pumping codec where
  zs := codec.init
  source := { rest := content, failsAfter := w.readFails }
  dest := { room := w.room, flushed := w.flushed }

/-- A call that does not get to the loops returns `false`. -/
theorem World.onFiles_none (h : w.sourceContent fs sourceFilename destFilename = none) :
    ∃ out, w.onFiles fs sourceFilename destFilename loops = some out ∧ out.ret = false ∧
      out.status = none := by
  unfold World.sourceContent at h
  unfold World.onFiles
  cases hsource : fs sourceFilename with
  | none => cases hdest : w.writable destFilename <;> exact ⟨_, rfl, rfl, rfl⟩
  | some bytes =>
    cases hdest : w.writable destFilename with
    | false => exact ⟨_, rfl, rfl, rfl⟩
    | true =>
      have hinit : w.init ≠ .ok := by
        intro hinit
        simp [hsource, hdest, hinit] at h
      dsimp only
      rw [if_neg hinit]
      exact ⟨_, rfl, rfl, rfl⟩

/-- The two functions from the loops on. -/
theorem compressFile_some (deflate : Coder) {content : Bytes}
    (h : w.sourceContent fs sourceFilename destFilename = some content) (fuel : Nat) :
    compressFile deflate w fs sourceFilename destFilename fuel =
      (loop (compressPass deflate) fuel (w.start deflate content)).map fun done =>
        { ret := done.ret, status := done.status
          fs := (fs.put destFilename []).put destFilename done.dest.onDisk } :=
  World.onFiles_some _ h

theorem decompressFile_some (inflate : Coder) {content : Bytes}
    (h : w.sourceContent fs sourceFilename destFilename = some content) (fuel : Nat) :
    decompressFile inflate w fs sourceFilename destFilename fuel =
      (loop (decompressPass inflate) fuel (w.start inflate content)).map fun done =>
        { ret := done.ret, status := done.status
          fs := (fs.put destFilename []).put destFilename done.dest.onDisk } :=
  World.onFiles_some _ h

/-- A call that returns `true` got to the loops. -/
theorem World.onFiles_true {out : Outcome}
    (hout : w.onFiles fs sourceFilename destFilename loops = some out) (hret : out.ret = true) :
    ∃ content done, w.sourceContent fs sourceFilename destFilename = some content ∧
      loops { rest := content, failsAfter := w.readFails }
        { room := w.room, flushed := w.flushed } = some done ∧
      done.ret = true ∧ out.fs destFilename = some done.dest.onDisk := by
  cases hfound : w.sourceContent fs sourceFilename destFilename with
  | none =>
    obtain ⟨out', hout', hret', -⟩ := World.onFiles_none loops hfound
    obtain rfl : out = out' := Option.some.inj (hout.symm.trans hout')
    rw [hret] at hret'
    cases hret'
  | some content =>
    rw [World.onFiles_some loops hfound, Option.map_eq_some_iff] at hout
    obtain ⟨done, hdone, rfl⟩ := hout
    exact ⟨content, done, rfl, hdone, hret, FileSystem.put_same ..⟩

theorem compressFile_true {deflate : Coder} {fuel : Nat} {out : Outcome}
    (hout : compressFile deflate w fs sourceFilename destFilename fuel = some out)
    (hret : out.ret = true) :
    ∃ content done, w.sourceContent fs sourceFilename destFilename = some content ∧
      loop (compressPass deflate) fuel (w.start deflate content) = some done ∧
      done.ret = true ∧ out.fs destFilename = some done.dest.onDisk :=
  World.onFiles_true _ hout hret

theorem decompressFile_true {inflate : Coder} {fuel : Nat} {out : Outcome}
    (hout : decompressFile inflate w fs sourceFilename destFilename fuel = some out)
    (hret : out.ret = true) :
    ∃ content done, w.sourceContent fs sourceFilename destFilename = some content ∧
      loop (decompressPass inflate) fuel (w.start inflate content) = some done ∧
      done.ret = true ∧ out.fs destFilename = some done.dest.onDisk :=
  World.onFiles_true _ hout hret

theorem World.Faultless.start (hw : w.Faultless) (codec : Coder) (content : Bytes) :
    w.start codec content = World.faultless.start codec content := by
  rw [World.start, hw.readFails, hw.room, hw.flushed]
  rfl

end Zlib
