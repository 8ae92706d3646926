import Mathlib.Data.List.TakeDrop
import ThirdPartDemo.Library.FileSystem

/-!
# Library — C++ file streams

`std::ifstream` and `std::ofstream` with their state flags, as far as `read`,
`gcount`, `eof` and `write` go. A read on a stream that is not good delivers
nothing. A read that meets the end of the file sets `eofbit` and `failbit`; one
that meets a fault sets `badbit` and no `eofbit`. A write on a bad stream stores
nothing, and what is still buffered when the stream is destroyed may be lost.
-/

namespace Library

structure IfStream where
  rest : Bytes
  failsAfter : Option Nat := none     -- the bytes that can still be read before a fault
  eofbit : Bool := false
  failbit : Bool := false
  badbit : Bool := false

structure OfStream where
  stored : Bytes := []
  room : Option Nat := none           -- the bytes that can still be written before a fault
  flushed : Option Nat := none        -- how much is on disk when the last flush fails
  badbit : Bool := false

namespace IfStream

def good (f : IfStream) : Bool := !(f.eofbit || f.failbit || f.badbit)

/-- `read(buf, n)`: the bytes that `gcount` counts, and the stream afterwards. -/
def read (f : IfStream) (n : Nat) : Bytes × IfStream :=
  if f.good then
    let whole :=
      if f.rest.length < n then (f.rest, { f with rest := [], eofbit := true, failbit := true })
      else (f.rest.take n, { f with rest := f.rest.drop n, failsAfter := f.failsAfter.map (· - n) })
    match f.failsAfter with
    | none => whole
    | some k =>
      if k < n ∧ k ≤ f.rest.length then
        (f.rest.take k, { f with rest := f.rest.drop k, failbit := true, badbit := true })
      else whole
  else ([], { f with failbit := true })

/-- A stream on which no read fails and the end was not met yet. -/
structure Fresh (f : IfStream) : Prop where
  good : f.good = true
  faultless : f.failsAfter = none

/-- Short of the end, a read takes a full buffer and the stream stays fresh. -/
theorem Fresh.read_full {f : IfStream} (h : f.Fresh) {n : Nat} (hn : n ≤ f.rest.length) :
    f.read n = (f.rest.take n, { f with rest := f.rest.drop n }) ∧ (f.read n).2.Fresh := by
  obtain ⟨hgood, hfault⟩ := h
  have hread : f.read n = (f.rest.take n, { f with rest := f.rest.drop n }) := by
    rw [IfStream.read, if_pos hgood, hfault]
    simp [Nat.not_lt.mpr hn]
  rw [hread]
  exact ⟨rfl, hgood, hfault⟩

/-- The read that meets the end takes what is left. -/
theorem Fresh.read_end {f : IfStream} (h : f.Fresh) {n : Nat} (hn : f.rest.length < n) :
    f.read n = (f.rest, { f with rest := [], eofbit := true, failbit := true }) := by
  rw [IfStream.read, if_pos h.good, h.faultless]
  simp [hn]

/-- Past the end a read delivers nothing. -/
theorem read_of_eofbit {f : IfStream} (h : f.eofbit = true) (n : Nat) :
    f.read n = ([], { f with failbit := true }) := by
  rw [IfStream.read, if_neg (by simp [good, h])]

theorem Fresh.eofbit {f : IfStream} (h : f.Fresh) : f.eofbit = false := by
  have hgood := h.good
  unfold IfStream.good at hgood
  cases heof : f.eofbit with
  | false => rfl
  | true => simp [heof] at hgood

/-- The stream that never breaks off. -/
def reliable (f : IfStream) : IfStream := { f with failsAfter := none }

/-- The fault of the stream lies beyond its end. -/
def Outlasts (f : IfStream) : Prop := ∀ k, f.failsAfter = some k → f.rest.length < k

/-- Such a fault is never met. -/
theorem Outlasts.read_eq {f : IfStream} (h : f.Outlasts) (n : Nat) :
    f.read n =
      if f.good then
        if f.rest.length < n then (f.rest, { f with rest := [], eofbit := true, failbit := true })
        else
          (f.rest.take n, { f with rest := f.rest.drop n, failsAfter := f.failsAfter.map (· - n) })
      else ([], { f with failbit := true }) := by
  unfold IfStream.read
  cases hfault : f.failsAfter with
  | none => rfl
  | some k =>
    have hk := h k hfault
    dsimp only
    rw [if_neg (show ¬ (k < n ∧ k ≤ f.rest.length) by omega)]

/-- So the stream reads like one that never breaks off. -/
theorem Outlasts.read {f : IfStream} (h : f.Outlasts) (n : Nat) :
    f.reliable.read n = ((f.read n).1, (f.read n).2.reliable) ∧ (f.read n).2.Outlasts := by
  have hreliable : f.reliable.Outlasts := fun k hk => by cases hk
  rw [hreliable.read_eq, h.read_eq, show f.reliable.good = f.good from rfl,
    show f.reliable.rest = f.rest from rfl]
  split_ifs with hgood hshort
  · refine ⟨rfl, ?_⟩
    intro k hk
    exact Nat.zero_lt_of_lt (h k hk)
  · refine ⟨rfl, ?_⟩
    intro k hk
    obtain ⟨j, hj, rfl⟩ := Option.map_eq_some_iff.mp hk
    have := h j hj
    show (f.rest.drop n).length < j - n
    rw [List.length_drop]
    omega
  · exact ⟨rfl, h⟩

/-- The stream fails before its end is met, or has failed. -/
def Doomed (f : IfStream) : Prop :=
  f.eofbit = false ∧ (f.good = false ∨ ∃ k, f.failsAfter = some k ∧ k ≤ f.rest.length)

/-- No read on such a stream meets the end. -/
theorem Doomed.read {f : IfStream} (h : f.Doomed) (n : Nat) : (f.read n).2.Doomed := by
  obtain ⟨heof, hcases⟩ := h
  unfold IfStream.read
  by_cases hgood : f.good = true
  · obtain ⟨k, hfault, hk⟩ := hcases.resolve_left (by simp [hgood])
    rw [if_pos hgood, hfault]
    dsimp only
    by_cases hbreaks : k < n
    · rw [if_pos ⟨hbreaks, hk⟩]
      exact ⟨heof, Or.inl (by simp [good])⟩
    · rw [if_neg (by omega), if_neg (by omega)]
      refine ⟨heof, Or.inr ⟨k - n, rfl, ?_⟩⟩
      show k - n ≤ (f.rest.drop n).length
      rw [List.length_drop]
      omega
  · rw [if_neg hgood]
    exact ⟨heof, Or.inl (by simp [good])⟩

end IfStream

namespace OfStream

/-- `write(buf, n)` -/
def write (f : OfStream) (buf : Bytes) : OfStream :=
  if f.badbit then f
  else
    match f.room with
    | none => { f with stored := f.stored ++ buf }
    | some k =>
      if buf.length ≤ k then { f with stored := f.stored ++ buf, room := some (k - buf.length) }
      else { f with stored := f.stored ++ buf.take k, badbit := true }

/-- The content of the file once the stream is destroyed. -/
def onDisk (f : OfStream) : Bytes :=
  match f.flushed with
  | none => f.stored
  | some k => f.stored.take k

/-- A limit on a number of bytes, if there is one, is kept. -/
def Fits (limit : Option Nat) (n : Nat) : Prop := ∀ k, limit = some k → n ≤ k

theorem not_fits {limit : Option Nat} {n : Nat} :
    ¬ Fits limit n ↔ ∃ k, limit = some k ∧ k < n := by
  simp [Fits]

/-- The first bytes, as many as the limit allows. -/
def upTo (limit : Option Nat) (bytes : Bytes) : Bytes :=
  match limit with
  | none => bytes
  | some k => bytes.take k

theorem upTo_le (limit : Option Nat) (bytes : Bytes) : upTo limit bytes <+: bytes := by
  cases limit with
  | none => exact List.prefix_refl bytes
  | some k => exact List.take_prefix k bytes

/-- All the bytes are stored exactly if the limit is kept. -/
theorem upTo_eq_self {limit : Option Nat} {bytes : Bytes} :
    upTo limit bytes = bytes ↔ Fits limit bytes.length := by
  cases limit with
  | none => simp [upTo, Fits]
  | some k => simp [upTo, Fits]

/-- What a stream with room for `room` bytes holds after `offered` was written. -/
structure Took (f : OfStream) (room : Option Nat) (offered : Bytes) : Prop where
  stored : f.stored = upTo room offered
  good : f.badbit = false → f.room = room.map (· - offered.length) ∧ Fits room offered.length
  bad : f.badbit = true → ¬ Fits room offered.length

theorem took_nil (room flushed : Option Nat) :
    ({ room, flushed } : OfStream).Took room [] := by
  have hfits : Fits room ([] : Bytes).length := fun k _ => Nat.zero_le k
  refine ⟨(upTo_eq_self.mpr hfits).symm, ?_, fun h => by cases h⟩
  intro _
  refine ⟨?_, hfits⟩
  show room = room.map (· - 0)
  cases room <;> rfl

/-- A write for which there is room. -/
theorem write_fits {f : OfStream} (hgood : f.badbit = false) {buf : Bytes}
    (hfits : Fits f.room buf.length) :
    f.write buf =
      { f with stored := f.stored ++ buf, room := f.room.map (· - buf.length) } := by
  unfold OfStream.write
  rw [hgood, if_neg (by simp)]
  cases hroom : f.room with
  | none => rfl
  | some k =>
    dsimp only
    rw [if_pos (hfits k hroom)]
    rfl

/-- A write for which there is not. -/
theorem write_short {f : OfStream} (hgood : f.badbit = false) {buf : Bytes} {k : Nat}
    (hroom : f.room = some k) (hk : k < buf.length) :
    f.write buf = { f with stored := f.stored ++ buf.take k, badbit := true } := by
  unfold OfStream.write
  rw [hgood, if_neg (by simp), hroom]
  dsimp only
  rw [if_neg (Nat.not_le_of_lt hk)]

theorem Took.write {f : OfStream} {room : Option Nat} {offered : Bytes} (h : f.Took room offered)
    (buf : Bytes) : (f.write buf).Took room (offered ++ buf) := by
  obtain ⟨hstored, hgood, hbad⟩ := h
  have hlen : (offered ++ buf).length = offered.length + buf.length := List.length_append
  by_cases hf : f.badbit = true
  · -- nothing is stored any more
    obtain ⟨k, rfl, hk⟩ := not_fits.mp (hbad hf)
    rw [OfStream.write, if_pos hf]
    refine ⟨?_, ?_, ?_⟩
    · rw [hstored, upTo, upTo, List.take_append_of_le_length (Nat.le_of_lt hk)]
    · intro hfalse
      rw [hf] at hfalse
      cases hfalse
    · intro _
      exact not_fits.mpr ⟨k, rfl, by omega⟩
  have hf' : f.badbit = false := by simpa using hf
  obtain ⟨hroom, hfits⟩ := hgood hf'
  have hall : upTo room offered = offered := upTo_eq_self.mpr hfits
  by_cases hbuf : Fits f.room buf.length
  · have hboth : Fits room (offered ++ buf).length := by
      intro k hk
      have hle := hfits k hk
      have := hbuf (k - offered.length) (by rw [hroom, hk]; rfl)
      omega
    rw [write_fits hf' hbuf]
    refine ⟨?_, ?_, fun htrue => absurd htrue hf⟩
    · rw [upTo_eq_self.mpr hboth, hstored, hall]
    · intro _
      refine ⟨?_, hboth⟩
      show f.room.map (· - buf.length) = room.map (· - (offered ++ buf).length)
      rw [hroom, hlen, Option.map_map]
      congr 1
      funext k
      exact Nat.sub_sub ..
  · -- the first write that comes up short
    obtain ⟨j, hj, hlt⟩ := not_fits.mp hbuf
    rw [hroom] at hj
    obtain ⟨k, rfl, rfl⟩ := Option.map_eq_some_iff.mp hj
    have hle := hfits k rfl
    rw [write_short hf' (hroom.trans hj) hlt]
    refine ⟨?_, by simp, ?_⟩
    · rw [hstored, hall, upTo, List.take_append, List.take_of_length_le hle]
    · intro _
      exact not_fits.mpr ⟨k, rfl, by omega⟩

theorem write_flushed (f : OfStream) (buf : Bytes) : (f.write buf).flushed = f.flushed := by
  unfold OfStream.write
  split_ifs
  · rfl
  · cases f.room with
    | none => rfl
    | some k =>
      dsimp only
      split_ifs <;> rfl

/-- What is on disk in the end is all that was written exactly if both limits are
kept, and a beginning of it otherwise. -/
theorem Took.onDisk {f : OfStream} {room : Option Nat} {offered : Bytes}
    (h : f.Took room offered) :
    f.onDisk <+: offered ∧
      (f.onDisk = offered ↔ Fits room offered.length ∧ Fits f.flushed offered.length) := by
  have hdisk : f.onDisk = upTo f.flushed (upTo room offered) := by
    rw [← h.stored]
    rfl
  have hpre := (upTo_le f.flushed (upTo room offered)).trans (upTo_le room offered)
  rw [hdisk]
  refine ⟨hpre, ?_, ?_⟩
  · intro heq
    have hlen := (upTo_le f.flushed (upTo room offered)).length_le
    rw [heq] at hlen
    have hall : upTo room offered = offered :=
      (upTo_le room offered).eq_of_length_le hlen
    rw [hall] at heq
    exact ⟨upTo_eq_self.mp hall, upTo_eq_self.mp heq⟩
  · rintro ⟨hroom, hflushed⟩
    rw [upTo_eq_self.mpr hroom, upTo_eq_self.mpr hflushed]

/-- A stream on which no write fails. -/
structure Faultless (f : OfStream) : Prop where
  room : f.room = none
  flushed : f.flushed = none
  badbit : f.badbit = false

theorem Faultless.write {f : OfStream} (h : f.Faultless) (buf : Bytes) :
    (f.write buf).stored = f.stored ++ buf ∧ (f.write buf).Faultless := by
  obtain ⟨hroom, hflushed, hbad⟩ := h
  have hwrite : f.write buf = { f with stored := f.stored ++ buf } := by
    rw [OfStream.write, hroom]
    simp [hbad]
  rw [hwrite]
  exact ⟨rfl, hroom, hflushed, hbad⟩

theorem Faultless.onDisk {f : OfStream} (h : f.Faultless) : f.onDisk = f.stored := by
  rw [OfStream.onDisk, h.flushed]

end OfStream

/-- The characters between two `std::istreambuf_iterator`s. The iterator takes a read
fault for the end of the file, and no flag of the stream shows it. -/
def IfStream.chars (f : IfStream) : Bytes := OfStream.upTo f.failsAfter f.rest

end Library
