import ThirdPartDemo.Library.FileSystem
import ThirdPartDemo.Library.Heap

/-!
# libZipDemo — packing and unpacking an archive

The functions `compress` and `decompress` of `libZipDemo/libZipDemo.cpp`.

The libzip library is not part of the repository. For `compress` the model
follows its documented ownership rule: `zip_source_buffer(.., 0)` keeps a
reference to the caller's memory, and `zip_close` reads through it. The vectors
of the loop live in a `Heap`, one block an iteration, so that the heap at
`zip_close` tells which references are still good; bytes read through the others
come from `memory`, of which nothing is known.

For `decompress` an archive is the list of its entries, each with the results of
the calls that the loop makes on it. The messages on `std::cerr` are left out.
-/

namespace LibZip

open Library

-- ---------------------------------------------------------------------------
-- compress
-- ---------------------------------------------------------------------------

/-- A `zip_source_t` made by `zip_source_buffer` with `freep` 0: a reference. -/
structure Source where
  data : Nat      -- the address of the caller's block
  size : Nat
  deriving DecidableEq, Repr

/-- The archive under construction: entry names with their sources. -/
abbrev Zip := List (CString × Source)

/-- `zip_file_add` with `ZIP_FL_OVERWRITE`: replace the entry of that name, or
append one. -/
def zip_file_add (zip : Zip) (name : CString) (source : Source) : Zip :=
  match zip with
  | [] => [(name, source)]
  | entry :: rest =>
    if entry.1 = name then (name, source) :: rest
    else entry :: zip_file_add rest name source

/-- Which libzip calls of `compress` succeed. -/
structure ZipCalls where
  zip_open : Bool
  zip_source_buffer : Nat → Bool     -- in the `i`-th pass of the loop
  zip_file_add : Nat → Bool

/-- Every call of `compress` succeeds. -/
structure ZipCalls.AllSucceed (calls : ZipCalls) : Prop where
  zip_open : calls.zip_open = true
  zip_source_buffer : ∀ i, calls.zip_source_buffer i = true
  zip_file_add : ∀ i, calls.zip_file_add i = true

/-- The variables of `compress` between two passes of its loop. -/
structure Packing where
  heap : Heap Bytes := {}
  zip : Zip := []
  passes : Nat := 0

/-- One pass of the loop of `compress`. -/
def compressPass (calls : ZipCalls) (fs : FileSystem) (s : Packing) (filename : CString) :
    Packing :=
  -- a stream that did not open has an empty range of characters
  let content := (fs filename).getD []
  let (buffer, heap) := s.heap.alloc content
  let zip :=
    if calls.zip_source_buffer s.passes then
      if calls.zip_file_add s.passes then
        zip_file_add s.zip filename { data := buffer, size := content.length }
      else s.zip
    else s.zip
  -- the vector is destroyed at the end of the pass
  { heap := heap.free buffer, zip, passes := s.passes + 1 }

/-- The bytes that dead memory holds: address of the block, offset in it. -/
abbrev Memory := Nat → Nat → UInt8

/-- What `zip_close` reads from a source. -/
def readSource (heap : Heap Bytes) (memory : Memory) (source : Source) : Bytes :=
  match heap.lookup source.data with
  | some content => content.take source.size
  | none => (List.range source.size).map (memory source.data)

/-- `zip_close`: the entries of the archive it writes. -/
def zip_close (heap : Heap Bytes) (memory : Memory) (zip : Zip) : List (CString × Bytes) :=
  zip.map fun entry => (entry.1, readSource heap memory entry.2)

/-- The loop of `compress`. -/
def compressLoop (calls : ZipCalls) (fs : FileSystem) (filenames : List CString) : Packing :=
  filenames.foldl (compressPass calls fs) {}

/-- `compress`: the archive that it leaves, `none` when `zip_open` fails. -/
def compress (calls : ZipCalls) (fs : FileSystem) (memory : Memory) (filenames : List CString) :
    Option (List (CString × Bytes)) :=
  if calls.zip_open then
    let s := compressLoop calls fs filenames
    some (zip_close s.heap memory s.zip)
  else none

-- ---------------------------------------------------------------------------
-- decompress
-- ---------------------------------------------------------------------------

/-- The fields of a `zip_stat_t` that `decompress` uses. -/
structure ZipStat where
  name : CString
  size : Nat
  deriving DecidableEq, Repr

/-- An archive entry, with the results of the calls that the loop makes on it. -/
structure Entry where
  name : CString
  data : Bytes                -- its uncompressed data
  zip_fopen_index : Bool      -- the handle is not NULL
  zip_stat_index : Int
  zstat : ZipStat             -- what the variable `zstat` holds after the call
  zip_fread : Int
  stored : Bytes              -- the bytes that `zip_fread` put into the buffer
  stat_eq : zip_stat_index = 0 → zstat = { name, size := data.length }
  stored_eq : 0 ≤ zip_fread → stored = data.take zip_fread.toNat

/-- The content of the vector `buffer` when it is written. -/
def Entry.buffer (entry : Entry) : Bytes :=
  (entry.stored ++ List.replicate entry.zstat.size 0).take entry.zstat.size

/-- What `decompress` did so far. -/
structure Unpacking where
  fs : FileSystem
  opened : List CString := []     -- the files opened for writing
  freadNull : Bool := false       -- `zip_fread` was called on a NULL handle

def outputPath (outputFolder : CString) (entry : Entry) : CString :=
  outputFolder ++ '/' :: entry.zstat.name

/-- One pass of the loop of `decompress`; `writable` says which paths an
`std::ofstream` can open. -/
def decompressPass (writable : CString → Bool) (outputFolder : CString) (s : Unpacking)
    (entry : Entry) : Unpacking :=
  let s := { s with freadNull := s.freadNull || !entry.zip_fopen_index }
  if writable (outputPath outputFolder entry) then
    { s with fs := s.fs.put (outputPath outputFolder entry) entry.buffer
             opened := s.opened ++ [outputPath outputFolder entry] }
  else s

/-- `decompress`; `archive` is `none` when `zip_open` fails. -/
def decompress (archive : Option (List Entry)) (writable : CString → Bool)
    (outputFolder : CString) (fs : FileSystem) : Unpacking :=
  match archive with
  | none => { fs }
  | some entries => entries.foldl (decompressPass writable outputFolder) { fs }

end LibZip
