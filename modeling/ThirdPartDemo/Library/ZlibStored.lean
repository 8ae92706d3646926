import Mathlib.Tactic.Ring
import ThirdPartDemo.Library.BatchCodec

/-!
# Library — zlib streams of stored blocks

The part of the zlib format that data without redundancy needs: the two header
bytes, stored blocks of at most 65535 bytes, an empty final block and the Adler
checksum. The stream of the empty file is the one that zlib itself makes.
`Stored.encode` writes such streams, `Stored.recognizer` reads them, and
`Stored.encode_stream` says that the two fit.
-/

namespace Library.Stored

-- ---------------------------------------------------------------------------
-- The stream of a file
-- ---------------------------------------------------------------------------

/-- The low and the high byte of a 16-bit number. -/
def le16 (n : Nat) : Bytes := [UInt8.ofNat (n % 256), UInt8.ofNat (n / 256)]

def be32 (n : Nat) : Bytes :=
  [UInt8.ofNat (n / 16777216), UInt8.ofNat (n / 65536 % 256), UInt8.ofNat (n / 256 % 256),
    UInt8.ofNat (n % 256)]

/-- The Adler-32 checksum. -/
def adler32 (data : Bytes) : Nat :=
  let sums := data.foldl (fun sums b =>
    let low := (sums.1 + b.toNat) % 65521
    (low, (sums.2 + low) % 65521)) (1, 0)
  sums.2 * 65536 + sums.1

def header : Bytes := [0x78, 0x9c]

/-- The header of a stored block, which is not the final one. -/
def blockHeader (size : Nat) : Bytes := 0 :: (le16 size ++ le16 (65535 - size))

def blocks (data : Bytes) : Bytes :=
  if h : data = [] then []
  else
    have : (data.drop 65535).length < data.length := by
      have := List.length_pos_iff.mpr h
      rw [List.length_drop]
      omega
    blockHeader (data.take 65535).length ++ data.take 65535 ++ blocks (data.drop 65535)
termination_by data.length

/-- What follows the stored blocks: an empty final block and the checksum. -/
def trailer (data : Bytes) : Bytes := 0 :: be32 (adler32 data)

def encode (data : Bytes) : Bytes := header ++ (blocks data ++ 3 :: trailer data)

/-- The eight bytes that zlib makes of an empty file. -/
example : encode [] = [0x78, 0x9c, 3, 0, 0, 0, 0, 1] := by
  simp [encode, blocks, header]
  decide

-- ---------------------------------------------------------------------------
-- Reading a stream
-- ---------------------------------------------------------------------------

/-- What comes next in a stream. -/
inductive Expects where
  | header (bytes : Bytes)
  | block
  | size (got : Bytes)
  | data (left : Nat)
  | trailer (bytes : Bytes)

/-- What comes next, and the data so far. -/
structure Reading where
  expects : Expects
  data : Bytes := []

/-- The size of a block from the four bytes of `LEN` and `NLEN`. -/
def blockSize : Bytes → Option Nat
  | [a, b, c, d] =>
    let len := a.toNat + 256 * b.toNat
    if len + (c.toNat + 256 * d.toNat) = 65535 then some len else none
  | _ => none

def step (s : Reading) (b : UInt8) : Reading ⊕ Option Bytes :=
  match s.expects with
  | .header (e :: es) =>
    if b = e then .inl { s with expects := if es = [] then .block else .header es } else .inr none
  | .header [] => .inr none
  | .block =>
    if b = 0 then .inl { s with expects := .size [] }
    else if b = 3 then .inl { s with expects := .trailer (trailer s.data) }
    else .inr none
  | .size got =>
    if got.length < 3 then .inl { s with expects := .size (got ++ [b]) }
    else
      match blockSize (got ++ [b]) with
      | some size => .inl { s with expects := if size = 0 then .block else .data size }
      | none => .inr none
  | .data left =>
    .inl { expects := if left ≤ 1 then .block else .data (left - 1), data := s.data ++ [b] }
  | .trailer (e :: es) =>
    if b = e then
      if es = [] then .inr (some s.data) else .inl { s with expects := .trailer es }
    else .inr none
  | .trailer [] => .inr none

def recognizer : Recognizer where
  State := Reading
  start := { expects := .header header }
  step := step

/-- The format of zlib streams with stored blocks. -/
def format : Format := recognizer.format

def deflate : Coder := batchEncoder encode
def inflate : Coder := batchDecoder recognizer

-- ---------------------------------------------------------------------------
-- The recognizer reads what the encoder writes
-- ---------------------------------------------------------------------------

theorem scan_data {chunk : Bytes} (hne : chunk ≠ []) (data t : Bytes) :
    recognizer.scan { expects := .data chunk.length, data } (chunk ++ t) =
      recognizer.scan { expects := .block, data := data ++ chunk } t := by
  induction chunk generalizing data with
  | nil => exact absurd rfl hne
  | cons b chunk ih =>
    cases chunk with
    | nil => rfl
    | cons c chunk =>
      have hstep : recognizer.step { expects := .data (b :: c :: chunk).length, data } b =
          .inl { expects := .data (c :: chunk).length, data := data ++ [b] } := by
        simp [recognizer, step]
      rw [List.cons_append, Recognizer.scan_inl hstep, ih (List.cons_ne_nil c chunk),
        List.append_assoc]
      rfl

theorem blockSize_le16 {size : Nat} (h : size ≤ 65535) :
    blockSize (le16 size ++ le16 (65535 - size)) = some size := by
  have hlow : ∀ n, (UInt8.ofNat (n % 256)).toNat = n % 256 := by
    intro n
    rw [UInt8.toNat_ofNat']
    omega
  have hhigh : ∀ n, n ≤ 65535 → (UInt8.ofNat (n / 256)).toNat = n / 256 := by
    intro n hn
    rw [UInt8.toNat_ofNat']
    omega
  simp only [le16, List.cons_append, List.nil_append, blockSize, hlow, hhigh size h,
    hhigh (65535 - size) (by omega)]
  rw [if_pos (by omega)]
  congr 1
  omega

theorem scan_block {chunk : Bytes} (hne : chunk ≠ []) (hsize : chunk.length ≤ 65535)
    (data t : Bytes) :
    recognizer.scan { expects := .block, data } (blockHeader chunk.length ++ chunk ++ t) =
      recognizer.scan { expects := .block, data := data ++ chunk } t := by
  have hpos : chunk.length ≠ 0 := by simpa using hne
  rw [blockHeader, List.append_assoc]
  -- five bytes of block header, then the data
  have hhead : ∀ a b c d : UInt8, blockSize [a, b, c, d] = some chunk.length →
      recognizer.scan { expects := .block, data } (0 :: [a, b, c, d] ++ (chunk ++ t)) =
        recognizer.scan { expects := .data chunk.length, data } (chunk ++ t) := by
    intro a b c d hblock
    simp [Recognizer.scan, recognizer, step, hblock, hpos]
  rw [← scan_data hne data t]
  exact hhead _ _ _ _ (blockSize_le16 hsize)

theorem scan_blocks (rest data t : Bytes) :
    recognizer.scan { expects := .block, data } (blocks rest ++ t) =
      recognizer.scan { expects := .block, data := data ++ rest } t := by
  fun_induction blocks rest generalizing data with
  | case1 => rw [List.nil_append, List.append_nil]
  | case2 rest hne hlt ih =>
    have hchunk : rest.take 65535 ≠ [] := by
      rw [← List.length_pos_iff, List.length_take]
      have := List.length_pos_iff.mpr hne
      omega
    rw [List.append_assoc, scan_block hchunk (List.length_take_le ..), ih, List.append_assoc,
      List.take_append_drop]

theorem scan_trailer {bytes : Bytes} (hne : bytes ≠ []) (data : Bytes) :
    recognizer.scan { expects := .trailer bytes, data } bytes = .decided (some data) [] := by
  induction bytes with
  | nil => exact absurd rfl hne
  | cons b bytes ih =>
    cases bytes with
    | nil => exact Recognizer.scan_inr (by simp [recognizer, step]) []
    | cons c bytes =>
      have hstep : recognizer.step { expects := .trailer (b :: c :: bytes), data } b =
          .inl { expects := .trailer (c :: bytes), data } := by
        simp [recognizer, step]
      rw [Recognizer.scan_inl hstep]
      exact ih (List.cons_ne_nil c bytes)

/-- **What the encoder writes is a stream of what it was given.** -/
theorem encode_stream (data : Bytes) : format.Stream (encode data) data := by
  show recognizer.scan { expects := .header header } (encode data) = _
  have hheader : ∀ t, recognizer.scan { expects := .header header } (header ++ t) =
      recognizer.scan { expects := .block } t := by
    intro t
    simp [header, Recognizer.scan, recognizer, step]
  have hfinal : recognizer.step { expects := .block, data } 3 =
      .inl { expects := .trailer (trailer data), data } := by
    simp [recognizer, step]
  rw [encode, hheader, scan_blocks, List.nil_append, Recognizer.scan_inl hfinal]
  exact scan_trailer (List.cons_ne_nil _ _) data

-- ---------------------------------------------------------------------------
-- Lengths
-- ---------------------------------------------------------------------------

/-- A byte adds at most one byte to the data, and a stream that is complete has
the data read so far. -/
theorem step_spec (s : Reading) (b : UInt8) :
    (∃ t, step s b = .inl t ∧ t.data.length ≤ s.data.length + 1) ∨
      step s b = .inr none ∨ step s b = .inr (some s.data) := by
  unfold step
  split
  · split_ifs <;> simp
  · simp
  · split_ifs <;> simp
  · split_ifs
    · simp
    · split <;> simp
  · simp
  · split_ifs <;> simp
  · simp

/-- The data of a stream is shorter than what was read for it. -/
theorem scan_length {s : Reading} {bytes rest x : Bytes}
    (h : recognizer.scan s bytes = .decided (some x) rest) :
    x.length < s.data.length + bytes.length := by
  induction bytes generalizing s with
  | nil => cases h
  | cons b bytes ih =>
    rcases step_spec s b with ⟨t, ht, hlen⟩ | hnone | hsome
    · rw [Recognizer.scan_inl (show recognizer.step s b = _ from ht)] at h
      have := ih h
      rw [List.length_cons]
      omega
    · rw [Recognizer.scan_inr (show recognizer.step s b = _ from hnone)] at h
      cases h
    · rw [Recognizer.scan_inr (show recognizer.step s b = _ from hsome)] at h
      cases h
      rw [List.length_cons]
      omega

/-- Stored blocks only make a file longer. -/
theorem stream_length {y x : Bytes} (h : format.Stream y x) : x.length < y.length := by
  have hlen := scan_length (show recognizer.scan recognizer.start y = _ from h)
  exact hlen.trans_eq (by simp [recognizer])

theorem blocks_length (data : Bytes) :
    (blocks data).length = data.length + 5 * ((data.length + 65534) / 65535) := by
  fun_induction blocks data with
  | case1 => simp
  | case2 data hne hlt ih =>
    have hpos := List.length_pos_iff.mpr hne
    simp only [List.length_append, List.length_take, List.length_drop, blockHeader, le16,
      List.length_cons, List.length_nil] at ih ⊢
    omega

/-- Every block has a header of five bytes. -/
theorem length_encode (data : Bytes) :
    (encode data).length = data.length + 5 * ((data.length + 65534) / 65535) + 8 := by
  simp only [encode, header, trailer, be32, List.length_append, List.length_cons, List.length_nil,
    blocks_length]
  omega

theorem encode_length (data : Bytes) :
    data.length < (encode data).length ∧ (encode data).length ≤ 6 * data.length + 8 := by
  rw [length_encode]
  omega

-- ---------------------------------------------------------------------------
-- The codec
-- ---------------------------------------------------------------------------

theorem deflate_encodes : Encodes format deflate := by
  refine batchEncoder_encodes encode_stream (fun n => 6 * n + 8) ?_ fun data =>
    (encode_length data).2
  intro a b hab
  dsimp only
  omega

theorem inflate_decodes : Decodes format inflate :=
  batchDecoder_decodes fun _ _ hstream => (stream_length hstream).le

/-- An empty file is the beginning of every stream and not a stream itself. -/
theorem truncated_nil : format.Truncated [] := Recognizer.not_decided_of_more rfl

end Library.Stored
