import Mathlib.Data.List.Basic
import ThirdPartDemo.Library.FileSystem

/-!
# Library — C streams with injected faults

A `FILE` open for reading or for writing, and the calls a program makes on it.
Every stream carries its own schedule of faults: `faults i = some k` makes the
`i`-th call from now break off after `k` bytes. A read that breaks off sets the
stream's error flag; a read that meets the end of the file first comes up short
without setting it. A later call carries on where the last one stopped.

The facts that callers use are `fread_append` (nothing is lost or invented),
`fread_whole` and `fwrite_whole` (a call that does not break off does all it was
asked to do) and, for streams without faults, `fread_of_faultless`.
-/

namespace Library

/-- A schedule of faults: the byte count after which a call breaks off. -/
abbrev Faults := Nat → Option Nat

/-- No call ever breaks off. -/
def Faults.never : Faults := fun _ => none

/-- The schedule seen by the calls after the next one. -/
def Faults.next (f : Faults) : Faults := fun i => f (i + 1)

/-- A `FILE` open for reading. -/
structure ReadFile where
  rest : Bytes
  faults : Faults
  error : Bool := false

/-- A `FILE` open for writing. -/
structure WriteFile where
  written : Bytes := []
  faults : Faults

/-- `fread(buf, 1, n, f)`: the bytes delivered, and the stream afterwards. -/
def fread (f : ReadFile) (n : Nat) : Bytes × ReadFile :=
  let whole := (f.rest.take n, { f with rest := f.rest.drop n, faults := f.faults.next })
  match f.faults 0 with
  | none => whole
  | some k =>
    if k < n ∧ k ≤ f.rest.length then
      (f.rest.take k, { rest := f.rest.drop k, faults := f.faults.next, error := true })
    else whole

/-- `fwrite(buf, 1, n, f)`: the count returned, and the stream afterwards. -/
def fwrite (f : WriteFile) (buf : Bytes) : Nat × WriteFile :=
  let whole := (buf.length, { written := f.written ++ buf, faults := f.faults.next })
  match f.faults 0 with
  | none => whole
  | some k =>
    if k < buf.length then
      (k, { written := f.written ++ buf.take k, faults := f.faults.next })
    else whole

/-! ## Reading -/

/-- What a read delivers and what it leaves make up what was there. -/
theorem fread_append (f : ReadFile) (n : Nat) :
    (fread f n).1 ++ (fread f n).2.rest = f.rest := by
  unfold fread
  cases f.faults 0 with
  | none => simp
  | some k =>
    dsimp only
    split_ifs <;> simp

theorem fread_faults (f : ReadFile) (n : Nat) : (fread f n).2.faults = f.faults.next := by
  unfold fread
  cases f.faults 0 with
  | none => rfl
  | some k =>
    dsimp only
    split_ifs <;> rfl

/-- The next read, of `n` bytes, breaks off. -/
def ReadFile.BreaksOff (f : ReadFile) (n : Nat) : Prop :=
  ∃ k, f.faults 0 = some k ∧ k < n ∧ k ≤ f.rest.length

theorem fread_of_breaksOff {f : ReadFile} {n : Nat} (h : f.BreaksOff n) :
    (fread f n).2.error = true := by
  obtain ⟨k, hk, hlt, hle⟩ := h
  unfold fread
  rw [hk]
  dsimp only
  rw [if_pos ⟨hlt, hle⟩]

/-- A read that does not break off delivers what is there. -/
theorem fread_whole {f : ReadFile} {n : Nat} (h : ¬ f.BreaksOff n) :
    fread f n = (f.rest.take n, { f with rest := f.rest.drop n, faults := f.faults.next }) := by
  unfold fread
  cases hk : f.faults 0 with
  | none => rfl
  | some k =>
    have hnot : ¬ (k < n ∧ k ≤ f.rest.length) := fun hbreaks => h ⟨k, hk, hbreaks⟩
    dsimp only
    rw [if_neg hnot]

/-- A read that fails before its first byte delivers nothing and sets the error flag. -/
theorem fread_fails {f : ReadFile} {n : Nat} (hn : 0 < n) (h : f.faults 0 = some 0) :
    fread f n = ([], { f with faults := f.faults.next, error := true }) := by
  unfold fread
  rw [h]
  dsimp only
  rw [if_pos ⟨hn, Nat.zero_le _⟩]
  rfl

/-- Any other read that delivers nothing is at the end of the file. -/
theorem fread_eq_nil {f : ReadFile} {n : Nat} (hn : 0 < n) (h : f.faults 0 ≠ some 0)
    (hnil : (fread f n).1 = []) : f.rest = [] ∧ (fread f n).2.error = f.error := by
  by_cases hbreaks : f.BreaksOff n
  · obtain ⟨k, hk, hlt, hle⟩ := hbreaks
    unfold fread at hnil
    rw [hk] at hnil
    dsimp only at hnil
    rw [if_pos ⟨hlt, hle⟩, List.take_eq_nil_iff] at hnil
    rcases hnil with rfl | hrest
    · exact absurd hk h
    · rw [hrest, List.length_nil, Nat.le_zero] at hle
      exact absurd (hle ▸ hk) h
  · rw [fread_whole hbreaks] at hnil ⊢
    exact ⟨(List.take_eq_nil_iff.mp hnil).resolve_left (Nat.ne_of_gt hn), rfl⟩

/-- Without faults a read delivers what is there, up to the count asked for. -/
theorem fread_of_faultless {f : ReadFile} (h : f.faults = Faults.never) (n : Nat) :
    fread f n = (f.rest.take n, { f with rest := f.rest.drop n }) := by
  unfold fread
  rw [h]
  rfl

theorem fread_length_le (f : ReadFile) (n : Nat) : (fread f n).1.length ≤ n := by
  unfold fread
  cases f.faults 0 with
  | none => exact List.length_take_le ..
  | some k =>
    dsimp only
    split_ifs
    · rw [List.length_take]
      omega
    · exact List.length_take_le ..

/-- The stream after `i` reads of `n` bytes. -/
def ReadFile.afterReads (f : ReadFile) (n : Nat) : Nat → ReadFile
  | 0 => f
  | i + 1 => (fread f n).2.afterReads n i

/-- What the first `i` reads of `n` bytes deliver. -/
def ReadFile.seen (f : ReadFile) (n : Nat) : Nat → Bytes
  | 0 => []
  | i + 1 => (fread f n).1 ++ (fread f n).2.seen n i

/-- Reads of `n` bytes deliver fewer only at the end of the file. -/
def ReadFile.ShortAtEnd (f : ReadFile) (n : Nat) : Prop :=
  ∀ i, (fread (f.afterReads n i) n).1.length < n → (fread (f.afterReads n i) n).2.rest = []

/-- Such a read delivers what is there, and the ones after it do so too. -/
theorem ReadFile.ShortAtEnd.read {f : ReadFile} {n : Nat} (h : f.ShortAtEnd n) :
    (fread f n).1 = f.rest.take n ∧ (fread f n).2.ShortAtEnd n := by
  refine ⟨?_, fun i => h (i + 1)⟩
  have happ := fread_append f n
  rcases Nat.lt_or_eq_of_le (fread_length_le f n) with hshort | hfull
  · have hrest : (fread f n).2.rest = [] := h 0 hshort
    rw [hrest, List.append_nil] at happ
    rw [← happ, List.take_of_length_le (Nat.le_of_lt hshort)]
  · rw [← happ, List.take_left' hfull]

theorem ReadFile.shortAtEnd_of_faultless {f : ReadFile} (h : f.faults = Faults.never) (n : Nat) :
    f.ShortAtEnd n := by
  intro i
  induction i generalizing f with
  | zero =>
    rw [ReadFile.afterReads, fread_of_faultless h]
    intro hshort
    rw [List.length_take] at hshort
    exact List.drop_eq_nil_of_le (by omega)
  | succ i ih =>
    rw [ReadFile.afterReads, fread_of_faultless h]
    exact ih h

/-! ## Writing -/

/-- The next write, of `n` bytes, breaks off. -/
def WriteFile.BreaksOff (f : WriteFile) (n : Nat) : Prop :=
  ∃ k, f.faults 0 = some k ∧ k < n

/-- A write that breaks off returns a smaller count. -/
theorem fwrite_of_breaksOff {f : WriteFile} {buf : Bytes} (h : f.BreaksOff buf.length) :
    (fwrite f buf).1 < buf.length := by
  obtain ⟨k, hk, hlt⟩ := h
  unfold fwrite
  rw [hk]
  dsimp only
  rw [if_pos hlt]
  exact hlt

/-- A write that does not break off takes everything. -/
theorem fwrite_whole {f : WriteFile} {buf : Bytes} (h : ¬ f.BreaksOff buf.length) :
    fwrite f buf =
      (buf.length, { written := f.written ++ buf, faults := f.faults.next }) := by
  unfold fwrite
  cases hk : f.faults 0 with
  | none => rfl
  | some k =>
    have hnot : ¬ k < buf.length := fun hlt => h ⟨k, hk, hlt⟩
    dsimp only
    rw [if_neg hnot]

/-- Without faults a write takes everything. -/
theorem fwrite_of_faultless {f : WriteFile} (h : f.faults = Faults.never) (buf : Bytes) :
    fwrite f buf = (buf.length, { f with written := f.written ++ buf }) := by
  unfold fwrite
  rw [h]
  rfl

end Library
