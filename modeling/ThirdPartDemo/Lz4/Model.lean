import ThirdPartDemo.Library.Loop
import ThirdPartDemo.Library.Stdio

/-!
# LZ4Demo — compress, decompress, verify

The functions of `LZ4Demo/LZ4Demo.cpp`: `compress_file`, `decompress_file`,
`compareFiles` and `main`, which runs them in turn on the three files
`argv[1]`, `argv[1].lz4` and `argv[1].lz4.dec`.

The LZ4 file library is not part of the repository. What it does in one run is
given by `Lz4Calls`: which calls fail, which bytes a frame has, and what the
calls of `LZ4F_read` return on a file with given content. A frame none of whose
writes failed has the bytes `frame data`; a frame with a failed write, a failed
close or an incomplete flush has arbitrary bytes (`wreck`).

A buffer that `malloc` returns is taken to be there, and a NULL stream stops the
program at the `assert` of the function that gets it.
-/

namespace Lz4

open Library

/-- `CHUNK_SIZE` -/
abbrev CHUNK_SIZE : Nat := 16 * 1024

/-- A value for which `LZ4F_isError` holds: as a `size_t` it is far above any
byte count. -/
structure ErrorCode where
  value : Nat
  large : CHUNK_SIZE < value

/-- What a call of `LZ4F_read` returns, with the bytes it stores in the buffer. -/
inductive ReadCall where
  | error (code : ErrorCode)
  | data (chunk : Bytes) (fits : chunk.length ≤ CHUNK_SIZE)

/-- The return value of `LZ4F_read`, as a `size_t`. -/
def ReadCall.ret : ReadCall → Nat
  | .error code => code.value
  | .data chunk _ => chunk.length

/-- The behaviour of the LZ4 file library in one run. -/
structure Lz4Calls where
  writeOpen : Bool            -- `LZ4F_writeOpen` succeeds
  write : Nat → Bool          -- the `i`-th `LZ4F_write` succeeds
  writeClose : Bool           -- `LZ4F_writeClose` succeeds
  frame : Bytes → Bytes       -- the bytes of a complete frame
  wreck : Bytes               -- what is on disk when a frame is not complete
  readOpen : Bytes → Bool     -- `LZ4F_readOpen` succeeds on a file
  read : Bytes → Nat → ReadCall   -- the `i`-th `LZ4F_read` on a file
  readClose : Bool            -- `LZ4F_readClose` succeeds

/-! ## `compress_file` -/

/-- The variables of `compress_file` between two passes of its loop. -/
structure Compressing where
  f_in : ReadFile
  taken : Bytes := []      -- the bytes of the successful `LZ4F_write` calls
  calls : Nat := 0         -- how many `LZ4F_write` calls were made

/-- How the loop of `compress_file` was left: at the end of the input, or by one
of the two jumps to `out`. -/
inductive CompressExit where
  | nothingToRead
  | freadError
  | writeError
  deriving DecidableEq, Repr

/-- One pass of the loop of `compress_file`. -/
def compressPass (lz4 : Lz4Calls) (s : Compressing) :
    Pass Compressing (CompressExit × Compressing) :=
  let (buf, f_in) := fread s.f_in CHUNK_SIZE
  if f_in.error then .leave (.freadError, { s with f_in })
  else if buf.length = 0 then .leave (.nothingToRead, { s with f_in })
  else if lz4.write s.calls then
    .again { f_in, taken := s.taken ++ buf, calls := s.calls + 1 }
  else .leave (.writeError, { s with f_in, calls := s.calls + 1 })

/-- What `compress_file` returns and what it did: how its loop ended and the
bytes that successful `LZ4F_write` calls took. -/
structure Compressed where
  ret : Nat
  exit : Option CompressExit
  taken : Bytes

/-- `compress_file` -/
def compress_file (lz4 : Lz4Calls) (f_in : ReadFile) (fuel : Nat) : Option Compressed :=
  if lz4.writeOpen then
    (loop (compressPass lz4) fuel { f_in }).map fun (exit, s) =>
      -- out:
      { ret := if lz4.writeClose then 0 else 1, exit := some exit, taken := s.taken }
  else some { ret := 1, exit := none, taken := [] }

/-- The bytes on disk after the compress stage; `flushed` says whether the
`fclose` of the output wrote its buffer out. -/
def Compressed.onDisk (lz4 : Lz4Calls) (flushed : Bool) (c : Compressed) : Bytes :=
  if c.ret = 0 ∧ c.exit ≠ some .writeError ∧ flushed then lz4.frame c.taken else lz4.wreck

/-! ## `decompress_file` -/

/-- The variables of `decompress_file` between two passes of its loop. -/
structure Decompressing where
  f_out : WriteFile
  calls : Nat := 0

/-- One pass of the loop of `decompress_file`; it leaves with the value of `ret`. -/
def decompressPass (reads : Nat → ReadCall) (s : Decompressing) :
    Pass Decompressing (Nat × WriteFile) :=
  match reads s.calls with
  | .error code => .leave (code.value, s.f_out)
  | .data chunk _ =>
    if chunk.length = 0 then .leave (0, s.f_out)
    else
      let (n, f_out) := fwrite s.f_out chunk
      if n ≠ chunk.length then .leave (chunk.length, f_out)
      else .again { f_out, calls := s.calls + 1 }

/-- `decompress_file`: its return value and the output stream it leaves. -/
def decompress_file (lz4 : Lz4Calls) (f_in : Bytes) (f_out : WriteFile) (fuel : Nat) :
    Option (Nat × WriteFile) :=
  if lz4.readOpen f_in then
    (loop (decompressPass (lz4.read f_in)) fuel { f_out }).map fun (ret, f_out) =>
      -- out:
      if lz4.readClose then (if ret ≠ 0 then 1 else 0, f_out) else (1, f_out)
  else some (1, f_out)

/-! ## `compareFiles` -/

/-- `memcmp` of two buffers of the same length. -/
def memcmp : Bytes → Bytes → Int
  | a :: as, b :: bs => if a = b then memcmp as bs else (a.toNat : Int) - b.toNat
  | _, _ => 0

/-- The size of the two buffers of `compareFiles`. -/
abbrev compareBlock : Nat := 1024

/-- One pass of the loop of `compareFiles`, which it enters with `result == 0`. -/
def comparePass (s : ReadFile × ReadFile) : Pass (ReadFile × ReadFile) Int :=
  let (b0, fp0) := fread s.1 compareBlock
  let (b1, fp1) := fread s.2 compareBlock
  let result : Int := if b0.length ≠ b1.length then 1 else 0
  if b0.length = 0 ∨ b1.length = 0 then .leave result
  else
    let result := if result = 0 then memcmp b0 b1 else result
    if result = 0 then .again (fp0, fp1) else .leave result

/-- `compareFiles` -/
def compareFiles (fp0 fp1 : ReadFile) (fuel : Nat) : Option Int :=
  loop comparePass fuel (fp0, fp1)

/-! ## `main` -/

/-- `snprintf(name, 256, format, argv[1])` for a format that ends in `suffix`:
the text is cut to what fits in front of the terminating NUL. -/
def snprintf256 (argv1 suffix : CString) : CString :=
  (argv1 ++ suffix).take 255

def inpFilename (argv1 : CString) : CString := snprintf256 argv1 []
def lz4Filename (argv1 : CString) : CString := snprintf256 argv1 ".lz4".toList
def decFilename (argv1 : CString) : CString := snprintf256 argv1 ".lz4.dec".toList

/-- Everything that one run of `main` meets besides its argument and the files:
the faults of its streams and the behaviour of the LZ4 file library. -/
structure World where
  writable : CString → Bool     -- `fopen(name, "wb")` succeeds
  inpReads : Faults             -- the freads of `compress_file`
  lz4 : Lz4Calls
  lz4Flushed : Bool             -- the compress stage's `fclose(outFp)` succeeds
  decWrites : Faults            -- the fwrites of `decompress_file`
  decFlushed : Option Nat       -- bytes on disk when the last flush fails
  verifyInp : Faults            -- the freads of `compareFiles`
  verifyDec : Faults

/-- `fopen(name, "wb")`: the file system afterwards, with the file truncated, or
`none` for NULL. -/
def World.fopenW (w : World) (fs : FileSystem) (name : CString) : Option FileSystem :=
  if w.writable name then some (fs.put name []) else none

/-- The files that one stage of `main` opened. -/
structure Opened where
  reading : List CString
  writing : List CString
  deriving DecidableEq, Repr

/-- How a stage of `main` ends. -/
inductive Outcome where
  | goOn                   -- the next stage follows
  | exit (code : Int)      -- `return code`
  | abort                  -- an `assert` on a NULL stream fails
  deriving DecidableEq, Repr

/-- A finished stage: its outcome, the files it opened and the file system. -/
structure Stage where
  outcome : Outcome
  opened : Opened
  fs : FileSystem

/-- A stage that opens `inp` for reading and then `out` for writing, and hands
the content that the input has with both open to `body`, which gives the
outcome and the content that it leaves in `out`. -/
def World.inOutStage (w : World) (inp out : CString) (fs : FileSystem)
    (body : Bytes → Option (Outcome × Bytes)) : Option Stage :=
  match fs inp, w.fopenW fs out with
  | some _, some fs =>
    (body ((fs inp).getD [])).map fun (outcome, content) =>
      { outcome, opened := ⟨[inp], [out]⟩, fs := fs.put out content }
  | some _, none => some { outcome := .abort, opened := ⟨[inp], []⟩, fs }
  | none, some fs => some { outcome := .abort, opened := ⟨[], [out]⟩, fs }
  | none, none => some { outcome := .abort, opened := ⟨[], []⟩, fs }

/-- The compress stage. -/
def compressStage (w : World) (argv1 : CString) (fs : FileSystem) (fuel : Nat) :
    Option Stage :=
  w.inOutStage (inpFilename argv1) (lz4Filename argv1) fs fun content =>
    (compress_file w.lz4 { rest := content, faults := w.inpReads } fuel).map fun c =>
      (if c.ret ≠ 0 then .exit 1 else .goOn, c.onDisk w.lz4 w.lz4Flushed)

/-- The decompress stage. -/
def decompressStage (w : World) (argv1 : CString) (fs : FileSystem) (fuel : Nat) :
    Option Stage :=
  w.inOutStage (lz4Filename argv1) (decFilename argv1) fs fun content =>
    (decompress_file w.lz4 content { faults := w.decWrites } fuel).map fun (ret, f_out) =>
      (if ret ≠ 0 then .exit 1 else .goOn,
        match w.decFlushed with
        | none => f_out.written
        | some k => f_out.written.take k)

/-- The two streams of the verify stage, as `fopen` returns them. -/
def verifyStreams (w : World) (argv1 : CString) (fs : FileSystem) :
    Option (ReadFile × ReadFile) :=
  match fs (inpFilename argv1), fs (decFilename argv1) with
  | some inp, some dec =>
    some ({ rest := inp, faults := w.verifyInp }, { rest := dec, faults := w.verifyDec })
  | _, _ => none

/-- A finished run of `main`: its exit code (`none` after a failed `assert`),
whether it printed `verify : OK`, the files each stage opened, and the file
system. -/
structure Run where
  code : Option Int
  verified : Bool
  opened : List Opened
  fs : FileSystem

/-- The verify stage, after the stages that opened `before`. -/
def verifyStage (w : World) (argv1 : CString) (before : List Opened) (fs : FileSystem)
    (fuel : Nat) : Option Run :=
  let opened := before ++ [⟨[inpFilename argv1, decFilename argv1], []⟩]
  match verifyStreams w argv1 fs with
  | none => some { code := none, verified := false, opened, fs }
  | some (inpFp, decFp) =>
    (compareFiles inpFp decFp fuel).map fun cmp =>
      if cmp ≠ 0 then { code := some cmp, verified := false, opened, fs }
      else { code := some 0, verified := true, opened, fs }

/-- Go on to the next stage, or end the run where a stage ended it. -/
def Stage.andThen (s : Stage) (before : List Opened) (next : Option Run) : Option Run :=
  match s.outcome with
  | .goOn => next
  | .exit code =>
    some { code := some code, verified := false, opened := before ++ [s.opened], fs := s.fs }
  | .abort =>
    some { code := none, verified := false, opened := before ++ [s.opened], fs := s.fs }

/-- `main`, called with the argument `argv[1]`. -/
def main (w : World) (argv1 : CString) (fs : FileSystem) (fuel : Nat) : Option Run :=
  (compressStage w argv1 fs fuel).bind fun s₁ =>
    s₁.andThen [] <|
      (decompressStage w argv1 s₁.fs fuel).bind fun s₂ =>
        s₂.andThen [s₁.opened] <|
          verifyStage w argv1 [s₁.opened, s₂.opened] s₂.fs fuel

/-! ## A world without faults -/

/-- The header of an LZ4 frame with a content checksum. -/
def frameHeader : Bytes := [0x04, 0x22, 0x4D, 0x18, 0x64, 0x40, 0xA7]

/-- The data as it is, behind the header and four bytes for the size of the block,
and in front of the end mark and the checksum. Size and checksum are left 0. -/
def storedFrame (data : Bytes) : Bytes :=
  frameHeader ++ [0, 0, 0, 0] ++ data ++ [0, 0, 0, 0, 0, 0, 0, 0]

/-- A lossless library whose frames store the data. It opens a file only if it can
read the 19 bytes of the largest header, and finds a frame header there. -/
def Lz4Calls.plain : Lz4Calls where
  writeOpen := true
  write _ := true
  writeClose := true
  frame := storedFrame
  wreck := []
  readOpen content := decide (19 ≤ content.length) && content.take 7 == frameHeader
  read content i :=
    .data ((((content.drop 11).take (content.length - 19)).drop (i * CHUNK_SIZE)).take CHUNK_SIZE)
      (List.length_take_le ..)
  readClose := true

/-- A world in which nothing fails. -/
def World.faultless : World where
  writable _ := true
  inpReads := .never
  lz4 := .plain
  lz4Flushed := true
  decWrites := .never
  decFlushed := none
  verifyInp := .never
  verifyDec := .never

/-! ## How a run proceeds -/

variable {w : World} {argv1 : CString} {fs : FileSystem} {fuel : Nat}

/-- What a stage between two files does: it opens no other file, and leaves
every file but its output as it was. -/
theorem inOutStage_spec {inp out : CString} {body : Bytes → Option (Outcome × Bytes)}
    {s : Stage} (h : w.inOutStage inp out fs body = some s) :
    (∀ name ∈ s.opened.reading, name = inp) ∧ (∀ name ∈ s.opened.writing, name = out) ∧
      ∀ name, name ≠ out → s.fs name = fs name := by
  unfold World.inOutStage World.fopenW at h
  cases hinp : fs inp with
  | none =>
    cases hw : w.writable out <;> simp only [hinp, hw] at h <;> cases h <;>
      simp +contextual [FileSystem.put_of_ne]
  | some content =>
    cases hw : w.writable out with
    | false =>
      simp only [hinp, hw] at h
      cases h
      simp
    | true =>
      simp only [hinp, hw, if_true, Option.map_eq_some_iff] at h
      obtain ⟨⟨outcome, bytes⟩, -, rfl⟩ := h
      simp +contextual [FileSystem.put_of_ne]

/-- A stage that does not go on ends the run as it stands. -/
theorem andThen_stop {s : Stage} {before : List Opened} {next : Option Run} {run : Run}
    (hstop : s.outcome ≠ .goOn) (h : s.andThen before next = some run) :
    run.verified = false ∧ run.opened = before ++ [s.opened] ∧ run.fs = s.fs := by
  unfold Stage.andThen at h
  cases ho : s.outcome with
  | goOn => exact absurd ho hstop
  | exit code =>
    rw [ho] at h
    cases h
    exact ⟨rfl, rfl, rfl⟩
  | abort =>
    rw [ho] at h
    cases h
    exact ⟨rfl, rfl, rfl⟩

theorem andThen_goOn {s : Stage} (hgo : s.outcome = .goOn) (before : List Opened)
    (next : Option Run) : s.andThen before next = next := by
  rw [Stage.andThen, hgo]

/-- A run of `main` ends in the compress stage, in the decompress stage or in
the verify stage. -/
theorem main_cases {run : Run} (h : main w argv1 fs fuel = some run) :
    ∃ s₁, compressStage w argv1 fs fuel = some s₁ ∧
      (run.verified = false ∧ run.opened = [s₁.opened] ∧ run.fs = s₁.fs ∨
        s₁.outcome = .goOn ∧ ∃ s₂, decompressStage w argv1 s₁.fs fuel = some s₂ ∧
          (run.verified = false ∧ run.opened = [s₁.opened, s₂.opened] ∧ run.fs = s₂.fs ∨
            s₂.outcome = .goOn ∧
              verifyStage w argv1 [s₁.opened, s₂.opened] s₂.fs fuel = some run)) := by
  rw [main] at h
  obtain ⟨s₁, hs₁, h⟩ := Option.bind_eq_some_iff.mp h
  refine ⟨s₁, hs₁, ?_⟩
  by_cases hgo₁ : s₁.outcome = .goOn
  · right
    rw [andThen_goOn hgo₁] at h
    obtain ⟨s₂, hs₂, h⟩ := Option.bind_eq_some_iff.mp h
    refine ⟨hgo₁, s₂, hs₂, ?_⟩
    by_cases hgo₂ : s₂.outcome = .goOn
    · rw [andThen_goOn hgo₂] at h
      exact Or.inr ⟨hgo₂, h⟩
    · exact Or.inl (andThen_stop hgo₂ h)
  · exact Or.inl (andThen_stop hgo₁ h)

/-- The verify stage opens its two files for reading and writes nothing. -/
theorem verifyStage_spec {before : List Opened} {run : Run}
    (h : verifyStage w argv1 before fs fuel = some run) :
    run.opened = before ++ [⟨[inpFilename argv1, decFilename argv1], []⟩] ∧
      run.fs = fs := by
  unfold verifyStage at h
  cases hv : verifyStreams w argv1 fs with
  | none =>
    rw [hv] at h
    cases h
    exact ⟨rfl, rfl⟩
  | some streams =>
    simp only [hv, Option.map_eq_some_iff] at h
    obtain ⟨cmp, -, rfl⟩ := h
    split <;> exact ⟨rfl, rfl⟩

end Lz4
