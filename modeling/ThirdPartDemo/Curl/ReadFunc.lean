import ThirdPartDemo.Library.Loop
import ThirdPartDemo.Library.Stdio

/-!
# curlDemo — the read callback of the upload

`readfunc` of `curlDemo/curlDemo.cpp` and the calls that libcurl makes of it. The
callback asks `ferror` before its `fread` and not after it. So an error that strikes
after some bytes of a call shows in the next one, but an error that strikes before
the first byte makes the call return 0, which libcurl takes for the end of the file.

* `sendPass_cases` — what one call of libcurl comes to;
* `delivered_append_rest` — the bytes delivered so far and what is left make up the
  file from the start offset on;
* `readfunc_honest_iff` — a read error never passes for the end of the file exactly
  when no `fread` of the run fails before its first byte.
-/

namespace Curl

open Library

def CURL_READFUNC_ABORT : Nat := 0x10000000

/-- `readfunc`: its return value, the bytes it stores at `ptr` and the stream. -/
def readfunc (size nmemb : Nat) (stream : ReadFile) : Nat × Bytes × ReadFile :=
  if stream.error then (CURL_READFUNC_ABORT, [], stream)
  else
    let (buf, stream) := fread stream (size * nmemb)
    -- fread counts whole items
    let n := buf.length / size * size
    (n, buf, stream)

/-- What libcurl keeps between two calls of the read callback. -/
structure Sending where
  file : ReadFile
  delivered : Bytes := []
  calls : Nat := 0

/-- The end of an upload's reading: what the last call returned, the bytes
delivered before it, and the stream. -/
structure Sent where
  ret : Nat
  delivered : Bytes
  file : ReadFile

/-- One call of the callback, with room for `nmemb i` bytes in the `i`-th call. -/
def sendPass (nmemb : Nat → Nat) (s : Sending) : Pass Sending Sent :=
  let (n, buf, file) := readfunc 1 (nmemb s.calls) s.file
  if n = 0 ∨ n = CURL_READFUNC_ABORT then .leave { ret := n, delivered := s.delivered, file }
  else .again { file, delivered := s.delivered ++ buf.take n, calls := s.calls + 1 }

/-- The local file, opened and set to the offset `start`. -/
def openedAt (localFile : Bytes) (start : Nat) (faults : Faults) : ReadFile where
  rest := localFile.drop start
  faults

/-- The bytes are delivered in order and without a gap, the end is reported only when
all of them were, and a run in which a read error strikes ends with
`CURL_READFUNC_ABORT`. -/
structure ReadsHonestly (nmemb : Nat → Nat) (file : ReadFile) : Prop where
  ordered : ∀ s, Reaches (sendPass nmemb) { file } s → s.delivered <+: file.rest
  ends : ∃ r, Returns (sendPass nmemb) { file } r
  whole : ∀ r, Returns (sendPass nmemb) { file } r → r.ret = 0 → r.delivered = file.rest
  aborts : ∀ r, Returns (sendPass nmemb) { file } r → r.file.error = true →
    r.ret = CURL_READFUNC_ABORT

/-- The next `fread` fails before it delivers a byte, in a stream without errors so
far. -/
def FailsAtOnce (f : ReadFile) : Prop := f.error = false ∧ f.faults 0 = some 0

variable {nmemb : Nat → Nat} {s t : Sending} {file : ReadFile}

-- ---------------------------------------------------------------------------
-- One call
-- ---------------------------------------------------------------------------

/-- A stream with an error makes libcurl abort. -/
theorem sendPass_error (h : s.file.error = true) :
    sendPass nmemb s =
      .leave { ret := CURL_READFUNC_ABORT, delivered := s.delivered, file := s.file } := by
  rw [sendPass, readfunc, if_pos h]
  rfl

/-- What a call on a stream without an error comes to: with no byte it ends the run
with 0; with as many as `CURL_READFUNC_ABORT` says it aborts; otherwise what it has
read is delivered. -/
theorem sendPass_cases (nmemb : Nat → Nat) (h : s.file.error = false) :
    let read := fread s.file (nmemb s.calls)
    (read.1 = [] ∧
      sendPass nmemb s = .leave { ret := 0, delivered := s.delivered, file := read.2 }) ∨
    (read.1.length = CURL_READFUNC_ABORT ∧ sendPass nmemb s =
      .leave { ret := CURL_READFUNC_ABORT, delivered := s.delivered, file := read.2 }) ∨
    (read.1 ≠ [] ∧
      sendPass nmemb s =
        .again { file := read.2, delivered := s.delivered ++ read.1, calls := s.calls + 1 }) := by
  intro read
  have hread : readfunc 1 (nmemb s.calls) s.file = (read.1.length, read.1, read.2) := by
    rw [readfunc, if_neg (by simp [h]), Nat.one_mul]
    dsimp only
    rw [Nat.div_one, Nat.mul_one]
  unfold sendPass
  rw [hread]
  dsimp only
  by_cases hnil : read.1 = []
  · refine Or.inl ⟨hnil, ?_⟩
    rw [hnil]
    rfl
  · have hlen : read.1.length ≠ 0 := by simpa using hnil
    by_cases habort : read.1.length = CURL_READFUNC_ABORT
    · refine Or.inr (Or.inl ⟨habort, ?_⟩)
      rw [if_pos (Or.inr habort), habort]
    · refine Or.inr (Or.inr ⟨hnil, ?_⟩)
      rw [if_neg (by simp [hlen, habort]), List.take_length]

/-- A call that is followed by another one delivers what it takes from the file. -/
theorem sendPass_again (h : sendPass nmemb s = .again t) :
    s.file.error = false ∧ t.file = (fread s.file (nmemb s.calls)).2 ∧
      t.delivered = s.delivered ++ (fread s.file (nmemb s.calls)).1 ∧
      (fread s.file (nmemb s.calls)).1 ≠ [] := by
  cases herror : s.file.error with
  | true =>
    rw [sendPass_error herror] at h
    injection h
  | false =>
    rcases sendPass_cases nmemb herror with ⟨-, hpass⟩ | ⟨-, hpass⟩ | ⟨hne, hpass⟩
    · rw [hpass] at h
      injection h
    · rw [hpass] at h
      injection h
    · rw [hpass] at h
      injection h with h
      subst h
      exact ⟨rfl, rfl, rfl, hne⟩

/-- A call that ends the run delivers nothing more. Unless its `fread` fails at once,
it aborts, or it is at the end of a file without errors. -/
theorem sendPass_leave {r : Sent} (hn : 0 < nmemb s.calls) (hnot : ¬ FailsAtOnce s.file)
    (h : sendPass nmemb s = .leave r) :
    r.delivered = s.delivered ∧
      (r.ret = CURL_READFUNC_ABORT ∨ r.ret = 0 ∧ s.file.rest = [] ∧ r.file.error = false) := by
  cases herror : s.file.error with
  | true =>
    rw [sendPass_error herror] at h
    injection h with h
    subst h
    exact ⟨rfl, Or.inl rfl⟩
  | false =>
    have hfault : s.file.faults 0 ≠ some 0 := fun hfault => hnot ⟨herror, hfault⟩
    rcases sendPass_cases nmemb herror with ⟨hnil, hpass⟩ | ⟨-, hpass⟩ | ⟨-, hpass⟩
    · rw [hpass] at h
      injection h with h
      subst h
      obtain ⟨hrest, hflag⟩ := fread_eq_nil hn hfault hnil
      exact ⟨rfl, Or.inr ⟨rfl, hrest, hflag.trans herror⟩⟩
    · rw [hpass] at h
      injection h with h
      subst h
      exact ⟨rfl, Or.inl rfl⟩
    · rw [hpass] at h
      injection h

-- ---------------------------------------------------------------------------
-- The run
-- ---------------------------------------------------------------------------

/-- The bytes delivered so far and what is left of the file make up the file. -/
theorem delivered_append_rest (h : Reaches (sendPass nmemb) { file } s) :
    s.delivered ++ s.file.rest = file.rest := by
  refine h.invariant (I := fun s => s.delivered ++ s.file.rest = file.rest) ?_ rfl
  intro s t hs hpass
  obtain ⟨-, hfile, hdelivered, -⟩ := sendPass_again hpass
  rw [hfile, hdelivered, List.append_assoc, fread_append, hs]

/-- libcurl stops asking: every call that is followed by another one takes something
from the file. -/
theorem sendLoop_returns (nmemb : Nat → Nat) (file : ReadFile) :
    ∃ r, Returns (sendPass nmemb) { file } r := by
  have h : ∃ r, Returns (sendPass nmemb) { file } r ∧ True := by
    refine returns_of_step (I := fun _ (_ : Unit) => True) (fun s _ => s.file.rest.length) ?_
      (g := ()) trivial
    intro s _ _
    cases hpass : sendPass nmemb s with
    | leave r => exact Or.inr ⟨r, rfl, trivial⟩
    | again t =>
      obtain ⟨-, hfile, -, hne⟩ := sendPass_again hpass
      have happ := congrArg List.length (fread_append s.file (nmemb s.calls))
      have hpos := List.length_pos_iff.mpr hne
      rw [List.length_append] at happ
      refine Or.inl ⟨t, (), rfl, trivial, ?_⟩
      rw [hfile]
      omega
  obtain ⟨r, hr, -⟩ := h
  exact ⟨r, hr⟩

/-- **When a read error never passes for the end of the file.** For every local file,
every start offset, every sequence of buffer sizes and every schedule of read
errors: the run is honest if and only if no `fread` that it comes to fails before it
delivered a byte. -/
theorem readfunc_honest_iff (localFile : Bytes) (start : Nat) (faults : Faults)
    (hn : ∀ i, 0 < nmemb i) :
    ReadsHonestly nmemb (openedAt localFile start faults) ↔
      ∀ s, Reaches (sendPass nmemb) { file := openedAt localFile start faults } s →
        ¬ FailsAtOnce s.file := by
  constructor
  · rintro hhonest s hreach ⟨herror, hfault⟩
    have hread := fread_fails (hn s.calls) hfault
    rcases sendPass_cases nmemb herror with ⟨-, hpass⟩ | ⟨hlen, -⟩ | ⟨hne, -⟩
    · have habort := hhonest.aborts _ (hreach.returns (.leave hpass)) (by rw [hread])
      cases habort
    · rw [hread] at hlen
      cases hlen
    · rw [hread] at hne
      exact hne rfl
  · intro hnever
    refine ⟨?_, sendLoop_returns nmemb _, ?_, ?_⟩
    · intro s hreach
      exact ⟨_, delivered_append_rest hreach⟩
    · intro r hr hzero
      obtain ⟨s, hreach, hlast⟩ := hr.exists_last
      obtain ⟨hdelivered, habort | ⟨-, hrest, -⟩⟩ :=
        sendPass_leave (hn s.calls) (hnever s hreach) hlast
      · rw [hzero] at habort
        cases habort
      · rw [hdelivered, ← delivered_append_rest hreach, hrest, List.append_nil]
    · intro r hr herror
      obtain ⟨s, hreach, hlast⟩ := hr.exists_last
      obtain ⟨-, habort | ⟨-, -, hflag⟩⟩ := sendPass_leave (hn s.calls) (hnever s hreach) hlast
      · exact habort
      · rw [herror] at hflag
        cases hflag

/-- A schedule in which every error comes after some bytes of its call. -/
theorem not_failsAtOnce_of_faults (h : ∀ i, file.faults i ≠ some 0)
    (hreach : Reaches (sendPass nmemb) { file } s) : ¬ FailsAtOnce s.file := by
  have hfaults : ∀ i, s.file.faults i ≠ some 0 := by
    refine hreach.invariant (I := fun s => ∀ i, s.file.faults i ≠ some 0) ?_ h
    intro s t hs hpass i
    obtain ⟨-, hfile, -, -⟩ := sendPass_again hpass
    rw [hfile, fread_faults]
    exact hs (i + 1)
  rintro ⟨-, hfault⟩
  exact hfaults 0 hfault

/-- Three bytes in buffers of two, with an error after the third one. -/
theorem readfunc_honest_late :
    ReadsHonestly (fun _ => 2) (openedAt [1, 2, 3] 0 fun i => if i = 1 then some 1 else none) := by
  refine (readfunc_honest_iff _ _ _ fun _ => by decide).mpr fun s hreach => ?_
  refine not_failsAtOnce_of_faults ?_ hreach
  intro i
  unfold openedAt
  dsimp only
  split_ifs <;> simp

/-- Three bytes in buffers of two, with an error in front of the third one: the second
call returns 0 and the upload ends as if it were complete. -/
theorem readfunc_ends_early :
    ¬ ReadsHonestly (fun _ => 2)
      (openedAt [1, 2, 3] 0 fun i => if i = 1 then some 0 else none) := by
  intro hhonest
  have hwhole := hhonest.whole { ret := 0, delivered := [1, 2], file := _ } ⟨2, rfl⟩ rfl
  exact absurd hwhole (by decide)

end Curl
