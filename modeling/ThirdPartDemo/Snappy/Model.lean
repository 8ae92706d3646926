import ThirdPartDemo.Library.Fstream
import ThirdPartDemo.Library.SnappyLiteral

/-!
# snappyDemo — compressing and decompressing a file in one go

The functions `compressFile` and `decompressFile` of `snappyDemo/snappyDemo.cpp`.
Each reads the whole input into a string, calls Snappy once and writes the result.

Snappy is not part of the repository and comes as `SnappyCalls`, with `Lossless` for
what `snappy.h` says of it; what the streams do in one call comes as a `World`.
The messages on `std::cerr` are left out.
-/

namespace Snappy

open Library OfStream

/-- The two functions of Snappy that the demo calls. -/
structure SnappyCalls where
  Compress : Bytes → Bytes
  Uncompress : Bytes → Option Bytes       -- `none` when it returns false

/-- Snappy is lossless for the format `F`: what it compresses is a block of that
data, and it uncompresses the blocks and nothing else. -/
structure SnappyCalls.Lossless (F : Format) (snappy : SnappyCalls) : Prop where
  compress : ∀ data, F.Stream (snappy.Compress data) data
  uncompress : ∀ {block data}, snappy.Uncompress block = some data ↔ F.Stream block data

/-- What one call of `compressFile` or `decompressFile` meets besides the files. -/
structure World where
  writable : CString → Bool       -- the `std::ofstream` opens
  readFails : Option Nat          -- the bytes of the input before a read fault
  room : Option Nat               -- the bytes of the output before a write fault
  flushed : Option Nat            -- how much is on disk when `close` fails to flush

/-- What a call leaves: its return value and the files. -/
structure Outcome where
  ret : Bool
  fs : FileSystem

/-- The end of both functions: open the output, write the string and close it. -/
def World.writeOutput (w : World) (fs : FileSystem) (output_filename : CString)
    (data : Bytes) : Outcome :=
  if w.writable output_filename then
    let output : OfStream := { room := w.room, flushed := w.flushed }
    { ret := true, fs := fs.put output_filename (output.write data).onDisk }
  else { ret := false, fs }

/-- `compressFile` -/
def compressFile (snappy : SnappyCalls) (w : World) (fs : FileSystem)
    (input_filename output_filename : CString) : Outcome :=
  match fs input_filename with
  | none => { ret := false, fs }
  | some content =>
    let input : IfStream := { rest := content, failsAfter := w.readFails }
    let input_data := input.chars
    let compressed := snappy.Compress input_data
    w.writeOutput fs output_filename compressed

/-- `decompressFile` -/
def decompressFile (snappy : SnappyCalls) (w : World) (fs : FileSystem)
    (input_filename output_filename : CString) : Outcome :=
  match fs input_filename with
  | none => { ret := false, fs }
  | some content =>
    let input : IfStream := { rest := content, failsAfter := w.readFails }
    let compressed := input.chars
    match snappy.Uncompress compressed with
    | none => { ret := false, fs }
    | some decompressed => w.writeOutput fs output_filename decompressed

-- ---------------------------------------------------------------------------
-- What the pieces do
-- ---------------------------------------------------------------------------

/-- What a call reads of its input. -/
def World.reads (w : World) (content : Bytes) : Bytes := upTo w.readFails content

variable {snappy : SnappyCalls} {w : World} {fs : FileSystem}
  {input_filename output_filename : CString} {content data : Bytes}

theorem compressFile_some (h : fs input_filename = some content) :
    compressFile snappy w fs input_filename output_filename =
      w.writeOutput fs output_filename (snappy.Compress (w.reads content)) := by
  rw [compressFile, h]
  rfl

theorem decompressFile_none (h : fs input_filename = some content)
    (hread : snappy.Uncompress (w.reads content) = none) :
    decompressFile snappy w fs input_filename output_filename = { ret := false, fs } := by
  rw [decompressFile, h]
  dsimp only
  rw [show IfStream.chars { rest := content, failsAfter := w.readFails } = w.reads content from rfl,
    hread]

theorem decompressFile_some (h : fs input_filename = some content)
    (hread : snappy.Uncompress (w.reads content) = some data) :
    decompressFile snappy w fs input_filename output_filename =
      w.writeOutput fs output_filename data := by
  rw [decompressFile, h]
  dsimp only
  rw [show IfStream.chars { rest := content, failsAfter := w.readFails } = w.reads content from rfl,
    hread]

/-- An output that cannot be opened is left alone. -/
theorem World.writeOutput_refused (h : w.writable output_filename = false) (data : Bytes) :
    w.writeOutput fs output_filename data = { ret := false, fs } := by
  rw [writeOutput, if_neg (by simp [h])]

/-- An output that can be opened holds a beginning of what was to be written, and all
of it exactly if neither the write nor the flush comes up short. -/
theorem World.writeOutput_opened (h : w.writable output_filename = true) (fs : FileSystem)
    (data : Bytes) :
    (w.writeOutput fs output_filename data).ret = true ∧
      ∃ onDisk, (w.writeOutput fs output_filename data).fs = fs.put output_filename onDisk ∧
        onDisk <+: data ∧
        (onDisk = data ↔ Fits w.room data.length ∧ Fits w.flushed data.length) := by
  have htook := ((took_nil w.room w.flushed).write data).onDisk
  rw [List.nil_append, write_flushed] at htook
  rw [writeOutput, if_pos h]
  exact ⟨rfl, _, rfl, htook⟩

/-- Snappy as far as blocks of one literal go. -/
def SnappyCalls.literal : SnappyCalls where
  Compress := Literal.compress
  Uncompress := Literal.uncompress

theorem SnappyCalls.literal_lossless : SnappyCalls.literal.Lossless Literal.format :=
  ⟨fun _ => rfl, Literal.uncompress_eq_some⟩

/-- A world in which nothing fails. -/
def World.faultless : World where
  writable _ := true
  readFails := none
  room := none
  flushed := none

end Snappy
