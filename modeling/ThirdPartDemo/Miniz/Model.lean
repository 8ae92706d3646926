import ThirdPartDemo.Library.Codec
import ThirdPartDemo.Library.Loop
import ThirdPartDemo.Library.Stdio

/-!
# minizDemo — compressing and decompressing a file

The functions `compressFile` and `decompressFile` of `minizDemo/minizDemo.cpp`.
The miniz library is used through its header only and comes as a `Coder`; what
the C streams do comes as a `World`.

The two functions were copied from one another. Both check the size of the
source, open the destination and run one loop: fill the input buffer when it is
empty, call the codec, and write the output buffer when it is full or the
stream has ended. `pass` is one round of this loop, and the two functions differ
in the flush mode of the call and in what they do after the loop.

An outcome records the calls that acquire and release something, in order, and
the files once the buffers of the C streams are flushed. The messages on the
standard output are left out.
-/

namespace Miniz

open Library

def bufSize : Nat := 1024 * 1024

def intMax : Nat := 2147483647

def exitSuccess : Int := 0

def exitFailure : Int := 1

theorem bufSize_pos : 0 < bufSize := by decide

theorem exitFailure_ne : exitFailure ≠ exitSuccess := by decide

/-- What one call of `compressFile` or `decompressFile` meets besides the files. -/
structure World where
  longMax : Nat
  intMax_le : intMax ≤ longMax
  writable : CString → Bool       -- `fopen` with "wb" succeeds
  init : Status                   -- what `deflateInit` or `inflateInit` returns
  theEnd : Status                 -- what `deflateEnd` or `inflateEnd` returns
  reads : Faults
  writes : Faults
  flushed : Option Nat            -- how much is on disk when `fclose` returns `EOF`

/-- A world in which nothing fails. -/
structure World.Faultless (w : World) : Prop where
  writable : ∀ name, w.writable name = true
  init : w.init = .ok
  theEnd : w.theEnd = .ok
  reads : w.reads = Faults.never
  writes : w.writes = Faults.never
  flushed : w.flushed = none

def World.faultless : World where
  longMax := intMax
  intMax_le := le_refl _
  writable _ := true
  init := .ok
  theEnd := .ok
  reads := Faults.never
  writes := Faults.never
  flushed := none

theorem World.faultless_faultless : World.faultless.Faultless :=
  ⟨fun _ => rfl, rfl, rfl, rfl, rfl, rfl⟩

-- ---------------------------------------------------------------------------
-- The loop
-- ---------------------------------------------------------------------------

/-- The variables of the loop. -/
structure Pumping (codec : Coder) where
  stream : codec.State
  pInfile : ReadFile
  pOutfile : WriteFile
  input : Bytes := []           -- the `avail_in` bytes at `next_in`
  output : Bytes := []          -- the bytes of `s_outbuf` before `next_out`
  infile_remaining : Nat

/-- How the loop was left: by its `break`, or by a `return`. -/
structure Finished where
  ended : Bool
  pOutfile : WriteFile

variable {codec : Coder}

def Pumping.availOut (s : Pumping codec) : Nat := bufSize - s.output.length

/-- Fill the input buffer if it is empty. -/
def Pumping.refill (s : Pumping codec) : Except Finished (Pumping codec) :=
  if s.input = [] then
    let n := min bufSize s.infile_remaining
    let (chunk, pInfile) := fread s.pInfile n
    if chunk.length ≠ n then .error { ended := false, pOutfile := s.pOutfile }
    else .ok { s with pInfile, input := chunk, infile_remaining := s.infile_remaining - n }
  else .ok s

/-- The buffers after a call. -/
def Pumping.after (s : Pumping codec) (r : Reply codec.State) : Pumping codec :=
  { s with stream := r.state, input := s.input.drop r.used, output := s.output ++ r.out }

/-- Write the output buffer if it is full or the stream has ended. -/
def Pumping.flushOutput (s : Pumping codec) (status : Status) : Except Finished (Pumping codec) :=
  if status = .streamEnd ∨ s.availOut = 0 then
    let (n, pOutfile) := fwrite s.pOutfile s.output
    if n ≠ s.output.length then .error { ended := false, pOutfile }
    else .ok { s with pOutfile, output := [] }
  else .ok s

/-- The status check at the end of a pass. -/
def Pumping.endPass (s : Pumping codec) (status : Status) : Pass (Pumping codec) Finished :=
  if status = .streamEnd then .leave { ended := true, pOutfile := s.pOutfile }
  else if status ≠ .ok then .leave { ended := false, pOutfile := s.pOutfile }
  else .again s

/-- One pass of the loop, with the flush mode that belongs to `infile_remaining`. -/
def pass (codec : Coder) (flush : Nat → Flush) (s : Pumping codec) :
    Pass (Pumping codec) Finished :=
  match s.refill with
  | .error done => .leave done
  | .ok s =>
    let r := codec.call s.stream (flush s.infile_remaining) s.input s.availOut
    match (s.after r).flushOutput r.status with
    | .error done => .leave done
    | .ok s => s.endPass r.status

/-- The flush mode of `deflate`. -/
def flushMode (infile_remaining : Nat) : Flush :=
  if infile_remaining ≠ 0 then .noFlush else .finish

def compressPass (deflate : Coder) : Pumping deflate → Pass (Pumping deflate) Finished :=
  pass deflate flushMode

def decompressPass (inflate : Coder) : Pumping inflate → Pass (Pumping inflate) Finished :=
  pass inflate fun _ => .syncFlush

-- ---------------------------------------------------------------------------
-- One pass without I/O faults
-- ---------------------------------------------------------------------------

/-- A pass in which both the refill and the flush succeed. -/
theorem pass_eq {flush : Nat → Flush} {s t u : Pumping codec} {r : Reply codec.State}
    (hrefill : s.refill = .ok t)
    (hr : r = codec.call t.stream (flush t.infile_remaining) t.input t.availOut)
    (hflush : (t.after r).flushOutput r.status = .ok u) :
    pass codec flush s = u.endPass r.status := by
  unfold pass
  rw [hrefill]
  dsimp only
  rw [← hr, hflush]

/-- Where the bytes are at the head of a pass: the source `all` is what was fed,
what is in the input buffer and what is unread; what was made is what was
written and what is in the output buffer. -/
structure Pumping.Carries (s : Pumping codec) (all fed made : Bytes) : Prop where
  fed : fed ++ s.input ++ s.pInfile.rest = all
  remaining : s.infile_remaining = s.pInfile.rest.length
  made : s.pOutfile.written ++ s.output = made
  room : s.output.length < bufSize
  reads : s.pInfile.faults = Faults.never
  writes : s.pOutfile.faults = Faults.never

variable {all fed made : Bytes}

theorem Pumping.Carries.availOut_pos {s : Pumping codec} (hs : s.Carries all fed made) :
    0 < s.availOut := by
  have := hs.room
  unfold availOut
  omega

/-- With nothing unread, the input buffer is the last that will be fed. -/
theorem Pumping.Carries.fed_eq {s : Pumping codec} (hs : s.Carries all fed made)
    (hremaining : s.infile_remaining = 0) : fed ++ s.input = all := by
  have hnil : s.pInfile.rest = [] := by
    rw [← List.length_eq_zero_iff, ← hs.remaining, hremaining]
  have hfed := hs.fed
  rwa [hnil, List.append_nil] at hfed

/-- Refilling moves bytes from the file to an empty input buffer. Afterwards
there is some input, unless the file is used up. -/
theorem Pumping.Carries.refill {s : Pumping codec} (hs : s.Carries all fed made) :
    ∃ t, s.refill = .ok t ∧ t.Carries all fed made ∧ t.stream = s.stream ∧
      (t.input ≠ [] ∨ t.infile_remaining = 0) ∧
      (s.infile_remaining = 0 → t.infile_remaining = 0 ∧ t.input = s.input) ∧
      s.input <+: t.input := by
  obtain ⟨hfed, hremaining, hmade, hroom, hreads, hwrites⟩ := hs
  unfold Pumping.refill
  by_cases hinput : s.input = []
  · have hmin : min bufSize s.infile_remaining ≤ s.pInfile.rest.length := by omega
    have hlen : (s.pInfile.rest.take (min bufSize s.infile_remaining)).length =
        min bufSize s.infile_remaining := List.length_take_of_le hmin
    rw [if_pos hinput]
    dsimp only
    rw [fread_of_faultless hreads, if_neg (not_not.mpr hlen)]
    refine ⟨_, rfl, ⟨?_, ?_, hmade, hroom, hreads, hwrites⟩, rfl, ?_, ?_, ?_⟩
    · rw [hinput, List.append_nil] at hfed
      rw [List.append_assoc, List.take_append_drop, hfed]
    · rw [List.length_drop, hremaining]
    · by_cases hzero : s.infile_remaining = 0
      · right
        show s.infile_remaining - min bufSize s.infile_remaining = 0
        omega
      · left
        have := bufSize_pos
        rw [← List.length_pos_iff, hlen]
        omega
    · intro hzero
      rw [hzero, Nat.min_zero, List.take_zero, hinput]
      exact ⟨rfl, rfl⟩
    · rw [hinput]
      exact List.nil_prefix
  · rw [if_neg hinput]
    exact ⟨s, rfl, ⟨hfed, hremaining, hmade, hroom, hreads, hwrites⟩, rfl, Or.inl hinput,
      fun hzero => ⟨hzero, rfl⟩, List.prefix_rfl⟩

/-- A call and the flush after it move bytes from the input buffer through the
codec to the output buffer or the file. A stream that has ended is flushed. -/
theorem Pumping.Carries.after {s : Pumping codec} (hs : s.Carries all fed made)
    (r : Reply codec.State) :
    ∃ t, (s.after r).flushOutput r.status = .ok t ∧
      t.Carries all (fed ++ s.input.take r.used) (made ++ r.out) ∧ t.stream = r.state ∧
      t.input = s.input.drop r.used ∧ t.infile_remaining = s.infile_remaining ∧
      (r.status = .streamEnd → t.pOutfile.written = made ++ r.out) := by
  obtain ⟨hfed, hremaining, hmade, hroom, hreads, hwrites⟩ := hs
  have hmade' : s.pOutfile.written ++ (s.output ++ r.out) = made ++ r.out := by
    rw [← List.append_assoc, hmade]
  unfold Pumping.flushOutput Pumping.after
  split_ifs with hflush
  · rw [fwrite_of_faultless hwrites]
    dsimp only
    rw [if_neg (not_not.mpr rfl)]
    refine ⟨_, rfl, ⟨fed_append hfed r.used, hremaining, ?_, bufSize_pos, hreads, hwrites⟩, rfl,
      rfl, rfl, fun _ => hmade'⟩
    rw [List.append_nil, hmade']
  · obtain ⟨hgoes, hspace⟩ := not_or.mp hflush
    refine ⟨_, rfl, ⟨fed_append hfed r.used, hremaining, hmade', ?_, hreads, hwrites⟩, rfl, rfl,
      rfl, fun hend => absurd hend hgoes⟩
    unfold Pumping.availOut at hspace
    dsimp only at hspace ⊢
    omega

-- ---------------------------------------------------------------------------
-- The functions
-- ---------------------------------------------------------------------------

inductive File where
  | pInfile
  | pOutfile
  deriving DecidableEq

/-- The calls that acquire or release something. `fopen` and `init` are recorded
when they succeed. -/
inductive Event where
  | fopen (file : File)
  | fclose (file : File)
  | fcloseNull
  | init
  | theEnd
  deriving DecidableEq

structure Outcome where
  ret : Int
  events : List Event
  fs : FileSystem

/-- What follows the loop: the value returned, the events, and the bytes of the
destination. -/
structure Exit where
  ret : Int
  events : List Event := []
  written : Bytes

/-- The size of a file in a `long`, or the error value. -/
def World.ftell (w : World) (content : Bytes) : Int :=
  if content.length ≤ w.longMax then content.length else -1

/-- Open the files, initialise the codec and run the loop on them. -/
def World.onFiles (w : World) (fs : FileSystem) (sourceFilename destFilename : CString)
    (loops : Pumping codec → Option Finished) (exit : Finished → Exit) : Option Outcome :=
  match fs sourceFilename with
  | none => some { ret := -1, events := [], fs }
  | some content =>
    if w.ftell content < 0 ∨ intMax < w.ftell content then
      some { ret := exitFailure, events := [.fopen .pInfile], fs }
    else if w.writable destFilename = false then
      some { ret := -1, events := [.fopen .pInfile, .fcloseNull], fs }
    else
      let fs := fs.put destFilename []
      if w.init ≠ .ok then
        some { ret := exitFailure, events := [.fopen .pInfile, .fopen .pOutfile], fs }
      else
        -- the source as it is once the destination was truncated
        let pInfile := { rest := (fs sourceFilename).getD [], faults := w.reads }
        (loops { stream := codec.init, pInfile, pOutfile := { faults := w.writes },
                 infile_remaining := content.length }).map fun done =>
          { ret := (exit done).ret
            events := [.fopen .pInfile, .fopen .pOutfile, .init] ++ (exit done).events
            fs := fs.put destFilename (exit done).written }

/-- The state in which the loop is entered when nothing fails. -/
def loopStart (codec : Coder) (content : Bytes) : Pumping codec where
  stream := codec.init
  pInfile := { rest := content, faults := Faults.never }
  pOutfile := { faults := Faults.never }
  infile_remaining := content.length

/-- The state in which the loop is entered, if the call gets to it. -/
def World.loopEntry (w : World) (codec : Coder) (fs : FileSystem)
    (sourceFilename destFilename : CString) : Option (Pumping codec) :=
  match fs sourceFilename with
  | none => none
  | some content =>
    if intMax < content.length ∨ w.writable destFilename = false ∨ w.init ≠ .ok then none
    else
      some
        { stream := codec.init
          pInfile := { rest := (fs.put destFilename [] sourceFilename).getD [], faults := w.reads }
          pOutfile := { faults := w.writes }
          infile_remaining := content.length }

/-- After the loop of `compressFile`: `deflateEnd`, then both files are closed. -/
def compressExit (w : World) (done : Finished) : Exit :=
  let written := done.pOutfile.written
  if done.ended = false then { ret := exitFailure, written }
  else if w.theEnd ≠ .ok then { ret := exitFailure, events := [.theEnd], written }
  else
    let events := [.theEnd, .fclose .pInfile, .fclose .pOutfile]
    match w.flushed with
    | some k => { ret := exitFailure, events, written := written.take k }
    | none => { ret := exitSuccess, events, written }

/-- After the loop of `decompressFile`: `inflateEnd`, and neither file is closed. -/
def decompressExit (w : World) (done : Finished) : Exit :=
  let written := done.pOutfile.written
  if done.ended = false then { ret := exitFailure, written }
  else if w.theEnd ≠ .ok then { ret := exitFailure, events := [.theEnd], written }
  else { ret := exitSuccess, events := [.theEnd], written }

def compressFile (deflate : Coder) (w : World) (fs : FileSystem)
    (sourceFilename destFilename : CString) (fuel : Nat) : Option Outcome :=
  w.onFiles fs sourceFilename destFilename (loop (compressPass deflate) fuel) (compressExit w)

def decompressFile (inflate : Coder) (w : World) (fs : FileSystem)
    (sourceFilename destFilename : CString) (fuel : Nat) : Option Outcome :=
  w.onFiles fs sourceFilename destFilename (loop (decompressPass inflate) fuel) (decompressExit w)

-- ---------------------------------------------------------------------------
-- The admission check and the files
-- ---------------------------------------------------------------------------

variable {w : World} {fs : FileSystem} {sourceFilename destFilename : CString} {content : Bytes}
  (loops : Pumping codec → Option Finished) (exit : Finished → Exit)

/-- The check refuses exactly the files of more than `INT_MAX` bytes, those
included whose size is no `long`. -/
theorem World.ftell_refused (w : World) (content : Bytes) :
    (w.ftell content < 0 ∨ (intMax : Int) < w.ftell content) ↔ intMax < content.length := by
  have hle := w.intMax_le
  unfold World.ftell
  split_ifs with hlong
  · omega
  · constructor
    · intro _
      omega
    · intro _
      exact Or.inl (by decide)

/-- A source that is too large is not touched, nor is the destination. -/
theorem World.onFiles_tooLarge (hsource : fs sourceFilename = some content)
    (hlen : intMax < content.length) :
    w.onFiles fs sourceFilename destFilename loops exit =
      some { ret := exitFailure, events := [.fopen .pInfile], fs } := by
  unfold World.onFiles
  rw [hsource]
  dsimp only
  rw [if_pos ((w.ftell_refused content).mpr hlen)]

/-- A call from the loop on. -/
theorem World.onFiles_some {s : Pumping codec}
    (h : w.loopEntry codec fs sourceFilename destFilename = some s) :
    w.onFiles fs sourceFilename destFilename loops exit =
      (loops s).map fun done =>
        { ret := (exit done).ret
          events := [.fopen .pInfile, .fopen .pOutfile, .init] ++ (exit done).events
          fs := (fs.put destFilename []).put destFilename (exit done).written } := by
  unfold World.loopEntry at h
  unfold World.onFiles
  cases hsource : fs sourceFilename with
  | none =>
    rw [hsource] at h
    cases h
  | some content =>
    rw [hsource] at h
    dsimp only at h ⊢
    split_ifs at h with hcases
    obtain ⟨hlen, hwritable, hinit⟩ := not_or.mp hcases |>.imp_right not_or.mp
    cases h
    rw [if_neg ((w.ftell_refused content).not.mpr hlen), if_neg hwritable, if_neg hinit]

/-- With nothing failing and distinct names, the loop gets the source as it is. -/
theorem World.Faultless.loopEntry (hw : w.Faultless) (hne : sourceFilename ≠ destFilename)
    (hsource : fs sourceFilename = some content) (hlen : content.length ≤ intMax) :
    w.loopEntry codec fs sourceFilename destFilename = some (loopStart codec content) := by
  unfold World.loopEntry
  rw [hsource]
  dsimp only
  rw [if_neg (by simp [hw.writable, hw.init, Nat.not_lt.mpr hlen]), FileSystem.put_of_ne _ _ hne,
    hsource, Option.getD_some, hw.reads, hw.writes]
  rfl

theorem World.Faultless.onFiles (hw : w.Faultless) (hne : sourceFilename ≠ destFilename)
    (hsource : fs sourceFilename = some content) (hlen : content.length ≤ intMax) :
    w.onFiles fs sourceFilename destFilename loops exit =
      (loops (loopStart codec content)).map fun done =>
        { ret := (exit done).ret
          events := [.fopen .pInfile, .fopen .pOutfile, .init] ++ (exit done).events
          fs := (fs.put destFilename []).put destFilename (exit done).written } :=
  World.onFiles_some loops exit (hw.loopEntry hne hsource hlen)

/-- What the exits do with nothing failing. -/
theorem World.Faultless.compressExit (hw : w.Faultless) {done : Finished}
    (hdone : done.ended = true) :
    compressExit w done = { ret := exitSuccess, written := done.pOutfile.written
                            events := [.theEnd, .fclose .pInfile, .fclose .pOutfile] } := by
  unfold Miniz.compressExit
  rw [hdone, if_neg (by decide), if_neg (not_not.mpr hw.theEnd), hw.flushed]

theorem World.Faultless.decompressExit (hw : w.Faultless) {done : Finished}
    (hdone : done.ended = true) :
    decompressExit w done = { ret := exitSuccess, events := [.theEnd]
                              written := done.pOutfile.written } := by
  unfold Miniz.decompressExit
  rw [hdone, if_neg (by decide), if_neg (not_not.mpr hw.theEnd)]

end Miniz
