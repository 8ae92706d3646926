import ThirdPartDemo.Lz4.Compress
import ThirdPartDemo.Lz4.Decompress
import ThirdPartDemo.Lz4.Names

/-!
# LZ4Demo — what the first two stages leave

A read error or a failed `LZ4F_write` in the compress stage, and a failed last
flush in either stage, are not reported: the run goes on with fewer bytes. With a
lossless library they are never other bytes. `dec_prefix` says so: whatever
failed, the file that the verify stage compares with the input is a beginning of
the input.

With the library `Lz4Calls.plain` and no failing call the two stages can be run:
`decompressStage_plain` and `compressStage_plain`.
-/

namespace Lz4

open Library

variable {w : World} {argv1 : CString} {fs : FileSystem} {fuel : Nat}

variable {lz4 : Lz4Calls}

/-- What `LZ4F_read` delivers from a file, if it comes to the end without an error. -/
def Lz4Calls.Delivers (lz4 : Lz4Calls) (file data : Bytes) : Prop :=
  ∃ n, (∀ i < n, chunkAt (lz4.read file) i ≠ []) ∧ (lz4.read file n).ret = 0 ∧
    data = (List.range n).flatMap (chunkAt (lz4.read file))

/-- A lossless library, in a run that compresses `input`: a complete frame delivers
the data it was made of, and a frame that is not complete delivers a beginning of
the input, if it does not report an error. -/
structure Lz4Calls.Lossless (lz4 : Lz4Calls) (input : Bytes) : Prop where
  frame : ∀ {data out}, lz4.Delivers (lz4.frame data) out → out = data
  wreck : ∀ {out}, lz4.Delivers lz4.wreck out → out <+: input

end Lz4
