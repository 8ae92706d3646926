import ThirdPartDemo.Curl.Upload
import ThirdPartDemo.Library.Transition

/-!
# curlDemo — the resuming download

`FtpDownload` of `curlDemo/curlDemo.cpp`. It asks `stat` for the length of the
local file, opens the file in append mode and lets libcurl deliver the remote
file from that length on. The call itself keeps nothing: the only memory between
two calls is the local file.

* `FtpDownload_resumes` — as long as `stat` tells the truth and the local file
  is a prefix of the remote one, it stays one and grows, and a call that
  returns 1 completes it;
* `FtpDownload_overwrites_iff` — a file that is no such prefix is not replaced,
  whatever the comment above the function says.

Local writes do not fail. The size that `getContentLengthFunc` stores is not
used and left out.
-/

namespace Curl

open Library

/-- How libcurl ends a download. -/
inductive Retrieval where
  | refused (error : CURLerror)                -- fails before delivering anything
  | broken (bytes : Nat) (error : CURLerror)   -- fails with that many bytes delivered
  | complete

/-- What one call of `FtpDownload` meets. -/
structure Fetch where
  stat : Option Nat       -- `st_size`, if `stat` returns 0
  fopen : Bool            -- the stream is not NULL
  retrieval : Retrieval

/-- `curl_easy_perform` as a download from the offset `resume_from` on, to a file
in append mode. Behind the end of the remote file there is nothing to deliver, and
the transfer fails or completes without it: a server that tells no size does not
notice. -/
def performDownload (remote : Bytes) (resume_from : Int) (retrieval : Retrieval) (file : Bytes) :
    CURLcode × Bytes :=
  match retrieval with
  | .refused error => (error.code, file)
  | .broken bytes error => (error.code, file ++ (remote.drop resume_from.toNat).take bytes)
  | .complete => (CURLE_OK, file ++ remote.drop resume_from.toNat)

/-- `FtpDownload`: its return value and the local file it leaves. -/
def FtpDownload (fetch : Fetch) (remote : Bytes) (file : Option Bytes) : Nat × Option Bytes :=
  let local_file_len : Int := (fetch.stat.map Int.ofNat).getD (-1)
  let use_resume := fetch.stat.isSome
  if fetch.fopen then
    -- "ab+" creates a file that is not there
    let (ret, file) := performDownload remote (if use_resume then local_file_len else 0)
      fetch.retrieval (file.getD [])
    (if ret = CURLE_OK then 1 else 0, some file)
  else (0, file)

/-- One call in a sequence of calls in which `stat` tells the truth: it fails for
an absent file and gives the size of an existing one. -/
def downloadStep (remote : Bytes) (file : Option Bytes) (fetch : Fetch) : Option (Option Bytes) :=
  if fetch.stat = file.map List.length then some (FtpDownload fetch remote file).2 else none

-- ---------------------------------------------------------------------------
-- One call
-- ---------------------------------------------------------------------------

variable {remote : Bytes} {file : Option Bytes} {fetch : Fetch}

/-- The offset: the size that `stat` gives, and 0 when it fails. -/
theorem resume_from_eq (stat : Option Nat) :
    (if stat.isSome then (stat.map Int.ofNat).getD (-1) else 0) = (stat.getD 0 : Nat) := by
  cases stat <;> rfl

/-- A call whose stream opened is the transfer from the offset on. -/
theorem FtpDownload_opened (hopen : fetch.fopen = true) :
    FtpDownload fetch remote file =
      let result := performDownload remote (fetch.stat.getD 0 : Nat) fetch.retrieval (file.getD [])
      (if result.1 = CURLE_OK then 1 else 0, some result.2) := by
  rw [FtpDownload, resume_from_eq, if_pos hopen]

/-- What a transfer does: append a part of what the remote file has from the offset
on, all of it if the transfer succeeds. -/
theorem performDownload_cases (remote : Bytes) (r : Nat) (retrieval : Retrieval) (old : Bytes) :
    ∃ part, part <+: remote.drop r ∧
      (performDownload remote r retrieval old).2 = old ++ part ∧
      ((performDownload remote r retrieval old).1 = CURLE_OK → part = remote.drop r) := by
  unfold performDownload
  cases retrieval with
  | refused error =>
    exact ⟨[], List.nil_prefix, (List.append_nil old).symm, fun hok => absurd hok error.ne_ok⟩
  | broken bytes error =>
    exact ⟨_, List.take_prefix _ _, rfl, fun hok => absurd hok error.ne_ok⟩
  | complete => exact ⟨_, List.prefix_rfl, rfl, fun _ => rfl⟩

/-- What a call does, in the same terms. -/
theorem FtpDownload_cases (fetch : Fetch) (remote : Bytes) (file : Option Bytes) :
    (FtpDownload fetch remote file).1 ≠ 1 ∧
      (FtpDownload fetch remote file).2.getD [] = file.getD [] ∨
    ∃ part, part <+: remote.drop (fetch.stat.getD 0) ∧
      (FtpDownload fetch remote file).2 = some (file.getD [] ++ part) ∧
      ((FtpDownload fetch remote file).1 = 1 → part = remote.drop (fetch.stat.getD 0)) := by
  by_cases hopen : fetch.fopen = true
  · right
    rw [FtpDownload_opened hopen]
    have hone : ∀ code : CURLcode, (if code = CURLE_OK then 1 else 0) = 1 ↔ code = CURLE_OK := by
      intro code
      split_ifs <;> simp [*]
    dsimp only
    simp only [hone, Option.some_inj]
    exact performDownload_cases ..
  · left
    rw [FtpDownload, if_neg hopen]
    exact ⟨Nat.zero_ne_one, rfl⟩

/-- A prefix and a part of what comes after it are a prefix. -/
theorem append_part_le {seen part : Bytes} (hseen : seen <+: remote)
    (hpart : part <+: remote.drop seen.length) : seen ++ part <+: remote := by
  obtain ⟨rest, rfl⟩ := hseen
  rw [List.drop_left] at hpart
  exact (List.prefix_append_right_inj seen).mpr hpart

/-- **One call** on a prefix, with the true length: the file stays a prefix, does
not lose anything, and is complete if the call returns 1. -/
theorem FtpDownload_step (hfile : file.getD [] <+: remote)
    (hstat : fetch.stat = file.map List.length) :
    (FtpDownload fetch remote file).2.getD [] <+: remote ∧
      (file.getD []).length ≤ ((FtpDownload fetch remote file).2.getD []).length ∧
      ((FtpDownload fetch remote file).1 = 1 →
        (FtpDownload fetch remote file).2 = some remote) := by
  have hlen : fetch.stat.getD 0 = (file.getD []).length := by
    rw [hstat]
    cases file <;> rfl
  rcases FtpDownload_cases fetch remote file with ⟨hret, hsame⟩ | ⟨part, hpart, hfile', hall⟩
  · rw [hsame]
    exact ⟨hfile, Nat.le_refl _, fun h => absurd h hret⟩
  · rw [hlen] at hpart hall
    rw [hfile', Option.getD_some]
    refine ⟨append_part_le hfile hpart, by simp, ?_⟩
    intro hret
    obtain ⟨rest, hrest⟩ := hfile
    rw [hall hret, ← hrest, List.drop_left]

-- ---------------------------------------------------------------------------
-- Any number of calls
-- ---------------------------------------------------------------------------

theorem downloads_invariant {start : Option Bytes} (hstart : start.getD [] <+: remote)
    {calls : List Fetch} (hrun : run (downloadStep remote) start calls = some file) :
    file.getD [] <+: remote := by
  refine run_invariant (I := fun file => file.getD [] <+: remote) ?_ hrun hstart
  intro file fetch file' hfile hstep
  obtain ⟨hstat, heq⟩ := Option.ite_none_right_eq_some.mp hstep
  rw [← Option.some.inj heq]
  exact (FtpDownload_step hfile hstat).1

/-- **Resumed downloads keep a prefix.** From a local file that is absent or a
prefix of the remote one, after any number of calls: the next call leaves a
prefix at least as long as before, and the whole remote file if it returns 1. -/
theorem FtpDownload_resumes {start : Option Bytes} (hstart : start.getD [] <+: remote)
    {calls : List Fetch} (hrun : run (downloadStep remote) start calls = some file)
    (hstat : fetch.stat = file.map List.length) :
    (FtpDownload fetch remote file).2.getD [] <+: remote ∧
      (file.getD []).length ≤ ((FtpDownload fetch remote file).2.getD []).length ∧
      ((FtpDownload fetch remote file).1 = 1 →
        (FtpDownload fetch remote file).2 = some remote) :=
  FtpDownload_step (downloads_invariant hstart hrun) hstat

/-- A first call that is cut after one byte, then one that completes the file. -/
theorem FtpDownload_resumes_cut :
    (FtpDownload ⟨some 1, true, .complete⟩ [97, 98, 99] (some [97])).2.getD [] <+: [97, 98, 99] ∧
      1 ≤ ((FtpDownload ⟨some 1, true, .complete⟩ [97, 98, 99] (some [97])).2.getD []).length ∧
      ((FtpDownload ⟨some 1, true, .complete⟩ [97, 98, 99] (some [97])).1 = 1 →
        (FtpDownload ⟨some 1, true, .complete⟩ [97, 98, 99] (some [97])).2 =
          some [97, 98, 99]) :=
  FtpDownload_resumes (show Option.getD none [] <+: [97, 98, 99] from List.nil_prefix)
    (show run (downloadStep [97, 98, 99]) none
      [⟨none, true, .broken 1 ⟨CURLE_GOT_NOTHING, by decide⟩⟩] = some (some [97]) from rfl) rfl

-- ---------------------------------------------------------------------------
-- Files that are no prefix
-- ---------------------------------------------------------------------------

/-- Whatever happens to the transfer, a call that returns 1 leaves the remote
file. -/
def Overwrites (stat : Option Nat) (remote : Bytes) (file : Option Bytes) : Prop :=
  ∀ fetch : Fetch, fetch.stat = stat → (FtpDownload fetch remote file).1 = 1 →
    (FtpDownload fetch remote file).2 = some remote

/-- What is behind the end of the remote file does not count. -/
theorem append_drop_eq_iff_min {seen : Bytes} {r : Nat} :
    seen ++ remote.drop r = remote ↔ seen <+: remote ∧ min r remote.length = seen.length := by
  have hdrop : remote.drop r = remote.drop (min r remote.length) := by
    rcases Nat.le_total r remote.length with hle | hge
    · rw [Nat.min_eq_left hle]
    · rw [Nat.min_eq_right hge, List.drop_of_length_le hge, List.drop_length]
  rw [hdrop, append_drop_eq_iff (Nat.min_le_right ..)]

/-- **When a download replaces what was there.** For every local file, every
outcome of `stat` and every remote file: the calls that return 1 leave the remote
file if and only if the local file is a prefix of the remote one, and the offset
(the size that `stat` gives, 0 when it fails), cut off at the end of the remote
file, is its length. -/
theorem FtpDownload_overwrites_iff (stat : Option Nat) (remote : Bytes) (file : Option Bytes) :
    Overwrites stat remote file ↔
      file.getD [] <+: remote ∧ min (stat.getD 0) remote.length = (file.getD []).length := by
  rw [← append_drop_eq_iff_min]
  constructor
  · intro hoverwrites
    -- a transfer that completes
    have hcall : FtpDownload ⟨stat, true, .complete⟩ remote file =
        (1, some (file.getD [] ++ remote.drop (stat.getD 0))) := by
      rw [FtpDownload_opened rfl]
      rfl
    have hsame := hoverwrites ⟨stat, true, .complete⟩ rfl (by rw [hcall])
    rw [hcall] at hsame
    exact Option.some.inj hsame
  · rintro hfront fetch rfl hret
    rcases FtpDownload_cases fetch remote file with ⟨hnot, -⟩ | ⟨part, -, hfile, hall⟩
    · exact absurd hret hnot
    · rw [hfile, hall hret, hfront]

/-- The old file `X` and the remote file `ab`: the call returns 1 and leaves `Xb`. -/
theorem FtpDownload_splices : ¬ Overwrites (some 1) [97, 98] (some [88]) := by
  intro hoverwrites
  have hsame := hoverwrites ⟨some 1, true, .complete⟩ rfl rfl
  exact absurd hsame (by decide)

end Curl
