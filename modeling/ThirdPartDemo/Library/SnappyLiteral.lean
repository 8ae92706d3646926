import Mathlib.Data.Nat.Digits.Defs
import ThirdPartDemo.Library.Codec

/-!
# Library — Snappy blocks of one literal

A compressed block of the Snappy format is the length of the data, in groups of
seven bits, and then the elements that make up the data. The encoder here emits the
data as a single literal, as Snappy itself does for a few bytes, and the decoder
takes nothing else.

A block says its length first, so no block is the beginning of another one
(`compress_unique`), and it ends with the data (`drop_compress`).
-/

namespace Library.Literal

/-- Groups of seven bits, the lowest first; all but the last have the top bit set. -/
def groups : Nat → Nat → Bytes
  | 0, n => [UInt8.ofNat n]
  | fuel + 1, n =>
    if n < 128 then [UInt8.ofNat n] else UInt8.ofNat (n % 128 + 128) :: groups fuel (n / 128)

/-- The header of a block: the length of its data. -/
def varint (n : Nat) : Bytes := groups n n

/-- The number that a block begins with. -/
def readVarint : Bytes → Option Nat
  | [] => none
  | b :: bytes =>
    if b.toNat < 128 then some b.toNat
    else (readVarint bytes).map fun n => b.toNat - 128 + 128 * n

/-- The tag of a literal of `m + 1` bytes. -/
def literalTag (m : Nat) : Bytes :=
  if m < 60 then [UInt8.ofNat (4 * m)]
  else
    let bytes := (Nat.digits 256 m).map UInt8.ofNat
    UInt8.ofNat (4 * (59 + bytes.length)) :: bytes

/-- Everything in front of the data. -/
def front (n : Nat) : Bytes := varint n ++ if n = 0 then [] else literalTag (n - 1)

def compress (data : Bytes) : Bytes := front data.length ++ data

/-- The data, if the bytes are a block; `none` for corrupt ones. -/
def uncompress (bytes : Bytes) : Option Bytes :=
  match readVarint bytes with
  | none => none
  | some n =>
    let data := bytes.drop (bytes.length - n)
    if compress data = bytes then some data else none

theorem readVarint_groups {fuel n : Nat} (h : n ≤ fuel) (t : Bytes) :
    readVarint (groups fuel n ++ t) = some n := by
  induction fuel generalizing n with
  | zero =>
    obtain rfl : n = 0 := Nat.le_zero.mp h
    rfl
  | succ fuel ih =>
    unfold groups
    split_ifs with hsmall
    · have hbyte : (UInt8.ofNat n).toNat = n :=
        UInt8.toNat_ofNat_of_lt (show n < 256 by omega)
      rw [List.singleton_append, readVarint, hbyte, if_pos hsmall]
    · have hbyte : (UInt8.ofNat (n % 128 + 128)).toNat = n % 128 + 128 :=
        UInt8.toNat_ofNat_of_lt (show n % 128 + 128 < 256 by omega)
      rw [List.cons_append, readVarint, hbyte, if_neg (by omega), ih (by omega), Option.map_some]
      congr 1
      omega

theorem readVarint_compress (data t : Bytes) :
    readVarint (compress data ++ t) = some data.length := by
  rw [compress, front, varint, List.append_assoc, List.append_assoc,
    readVarint_groups (le_refl _)]

theorem drop_compress (data : Bytes) :
    (compress data).drop ((compress data).length - data.length) = data := by
  rw [compress, List.length_append, Nat.add_sub_cancel, List.drop_left]

/-- No block is the beginning of another one. -/
theorem compress_unique {x y : Bytes} (h : compress x <+: compress y) : x = y := by
  have hlen : x.length = y.length := by
    obtain ⟨t, ht⟩ := h
    have hx := readVarint_compress x t
    have hy := readVarint_compress y []
    rw [List.append_nil, ← ht, hx] at hy
    exact Option.some.inj hy
  have heq : compress x = compress y := h.eq_of_length (by simp [compress, hlen])
  rw [← drop_compress x, ← drop_compress y, heq, hlen]

/-- The blocks and their data. -/
def format : Format where
  Stream block data := block = compress data
  Refused _ := False
  stream_unique := by
    rintro p q x y rfl rfl h
    have hxy := compress_unique h
    exact ⟨by rw [hxy], hxy⟩
  not_refused _ h := h.elim

theorem uncompress_eq_some {block data : Bytes} :
    uncompress block = some data ↔ block = compress data := by
  constructor
  · intro h
    unfold uncompress at h
    cases hn : readVarint block with
    | none =>
      rw [hn] at h
      cases h
    | some n =>
      rw [hn] at h
      obtain ⟨hblock, hdata⟩ := Option.ite_none_right_eq_some.mp h
      rw [← Option.some.inj hdata, hblock]
  · rintro rfl
    have hn := readVarint_compress data []
    rw [List.append_nil] at hn
    rw [uncompress, hn]
    dsimp only
    rw [drop_compress, if_pos rfl]

end Library.Literal
