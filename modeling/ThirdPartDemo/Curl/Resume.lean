import ThirdPartDemo.Curl.Header

/-!
# curlDemo — when a resumed upload is the local file

A resumed pass appends the local file from `uploaded_len` on, and `uploaded_len`
is whatever the last `Content-Length` line said, or 0. The remote file stays a
prefix of the local file only as long as every pass that stores something starts
where the remote file ends. `InStep` follows the attempts with two numbers'
worth of knowledge: how many bytes of the local file the server holds, and
whether `uploaded_len` is that number.

* `uploadPass_resumed` — what one resumed pass does to the remote file;
* `uploadLoop_extends` — resumed passes only append, so what went wrong once
  stays wrong;
* `uploadLoop_exact_iff` — the resumed passes end with the local file exactly
  when they are in step;
* `FtpUpload_exact_iff` — the same for the whole call, whose first pass may
  leave the old remote file in place.
-/

namespace Curl

open Library

section

variable {localFile : Bytes}

-- ---------------------------------------------------------------------------
-- The uploaded file
-- ---------------------------------------------------------------------------

/-- Every byte of the uploaded file knows its own offset. -/
theorem sent_of_getElem? {i : Nat} {b : RemoteByte}
    (h : (uploaded localFile)[i]? = some b) : b.sent = some i := by
  rw [uploaded, List.getElem?_map, Option.map_eq_some_iff] at h
  obtain ⟨⟨value, j⟩, hget, rfl⟩ := h
  rw [List.getElem?_zipIdx, Option.map_eq_some_iff] at hget
  obtain ⟨value', -, heq⟩ := hget
  cases heq
  rw [Nat.zero_add]

theorem getElem?_of_initial {l m : List RemoteByte} (h : l <+: m) {i : Nat} {b : RemoteByte}
    (hget : l[i]? = some b) : m[i]? = some b := by
  obtain ⟨t, rfl⟩ := h
  obtain ⟨hlt, -⟩ := List.getElem?_eq_some_iff.mp hget
  rw [List.getElem?_append_left hlt, hget]

/-- A chunk that starts before the end of what is held is not a continuation. -/
theorem not_prefix_of_behind {known held bytes : Nat} (hlt : known < held)
    (hheld : held ≤ localFile.length) (hbytes : 0 < bytes) :
    ¬ (uploaded localFile).take held ++ ((uploaded localFile).drop known).take bytes <+:
        uploaded localFile := by
  intro hfront
  have hlen := length_uploaded localFile
  -- the byte after the held ones is the one sent from `known`
  have hknown : known < (uploaded localFile).length := by omega
  have hget : ((uploaded localFile).take held ++
      ((uploaded localFile).drop known).take bytes)[held]? = some (uploaded localFile)[known] := by
    rw [List.getElem?_append_right (by rw [List.length_take]; omega), List.length_take, hlen,
      Nat.min_eq_left hheld, Nat.sub_self, List.getElem?_take_of_lt hbytes, List.getElem?_drop,
      Nat.add_zero, List.getElem?_eq_getElem hknown]
  have hheldGet := getElem?_of_initial hfront hget
  have hsent := sent_of_getElem? hheldGet
  rw [sent_of_getElem? (List.getElem?_eq_getElem hknown)] at hsent
  have := Option.some.inj hsent
  omega

/-- A byte from before the call is never part of the uploaded file. -/
theorem not_prefix_of_stored {old : Bytes} (hne : old ≠ []) :
    ¬ stored old <+: uploaded localFile := by
  intro hfront
  obtain ⟨value, rest, rfl⟩ := List.exists_cons_of_ne_nil hne
  have hget : (stored (value :: rest))[0]? = some ⟨value, none⟩ := rfl
  have hsent := sent_of_getElem? (getElem?_of_initial hfront hget)
  cases hsent

end

-- ---------------------------------------------------------------------------
-- One resumed pass
-- ---------------------------------------------------------------------------

/-- What a resumed pass comes to: no transfer is made after a failed query. -/
def Attempt.resumed (attempt : Attempt) : Transfer :=
  match attempt.query.error with
  | some error => .refused error
  | none => attempt.transfer

/-- The pass ends with `CURLE_OK`. -/
def Attempt.Completes (attempt : Attempt) : Prop := attempt.resumed = .complete

/-- `uploaded_len` after the query of a pass. -/
def lenAfter (LONG_MAX : Nat) (query : Query) (s : Upload) : Int :=
  match s.remote with
  | some remote => if query.sizeLine then (min remote.length LONG_MAX : Nat) else s.uploaded_len
  | none => s.uploaded_len

/-- The result of a transfer that starts at the offset `known` and appends. -/
def appended (localFile : Bytes) (known : Nat) (remote : Option (List RemoteByte)) :
    Transfer → CURLcode × Option (List RemoteByte)
  | .refused error => (error.code, remote)
  | .broken bytes error =>
    (error.code, some (remote.getD [] ++ ((uploaded localFile).drop known).take bytes))
  | .complete => (CURLE_OK, some (remote.getD [] ++ (uploaded localFile).drop known))

variable (LONG_MAX : Nat) (localFile : Bytes)

theorem performQuery_eq (query : Query) (s : Upload) :
    performQuery LONG_MAX query s =
      { s with uploaded_len := lenAfter LONG_MAX query s
               ret := (query.error.map CURLerror.code).getD CURLE_OK } := by
  unfold performQuery lenAfter
  cases s.remote with
  | none => rfl
  | some remote => simp only [getContentLengthFunc_line]

theorem lenAfter_nonneg {s : Upload} (h : 0 ≤ s.uploaded_len) (query : Query) :
    0 ≤ lenAfter LONG_MAX query s := by
  unfold lenAfter
  cases s.remote with
  | none => exact h
  | some remote =>
    dsimp only
    split_ifs
    · exact Int.natCast_nonneg _
    · exact h

/-- **One resumed pass** appends the local file from the offset `uploaded_len`. -/
theorem uploadPass_resumed {s : Upload} (hc : s.c ≠ 0) (hlen : 0 ≤ s.uploaded_len)
    (attempt : Attempt) :
    let t := uploadPass LONG_MAX localFile attempt s
    t.c = s.c + 1 ∧ t.uploaded_len = lenAfter LONG_MAX attempt.query s ∧
      (t.ret, t.remote) = appended localFile (lenAfter LONG_MAX attempt.query s).toNat s.remote
        attempt.resumed := by
  have hquery : ∀ h, lenAfter LONG_MAX attempt.query { s with curlhandle := h } =
      lenAfter LONG_MAX attempt.query s := fun _ => rfl
  have hnonneg : ¬ lenAfter LONG_MAX attempt.query s < 0 :=
    Int.not_lt.mpr (lenAfter_nonneg LONG_MAX hlen attempt.query)
  unfold uploadPass uploadBody Attempt.resumed
  rw [if_pos hc]
  simp only [curl_easy_perform, if_true, performQuery_eq, hquery]
  cases herror : attempt.query.error with
  | some error =>
    -- the query failed: `continue`
    simp [error.ne_ok, appended]
  | none =>
    simp only [Option.map_none, Option.getD_none, ne_eq, not_true_eq_false, if_false,
      Upload.fseek, hnonneg, Bool.false_eq_true]
    cases attempt.transfer <;> simp [performUpload, appended]

/-- A pass leaves with `CURLE_OK` when it completes, and otherwise with an error. -/
theorem appended_ret (known : Nat) (remote : Option (List RemoteByte)) (transfer : Transfer) :
    (appended localFile known remote transfer).1 = CURLE_OK ↔ transfer = .complete := by
  cases transfer with
  | refused error => simp [appended, error.ne_ok]
  | broken bytes error => simp [appended, error.ne_ok]
  | complete => simp [appended]

/-- A pass only appends. -/
theorem appended_extends (known : Nat) (remote : Option (List RemoteByte))
    (transfer : Transfer) :
    remote.getD [] <+: (appended localFile known remote transfer).2.getD [] := by
  cases transfer with
  | refused error => exact List.prefix_refl _
  | broken bytes error => exact List.prefix_append ..
  | complete => exact List.prefix_append ..

-- ---------------------------------------------------------------------------
-- The resumed passes
-- ---------------------------------------------------------------------------

/-- The loop head of a resumed pass. -/
structure Resuming (s : Upload) : Prop where
  resumed : s.c ≠ 0
  failed : s.ret ≠ CURLE_OK
  len_nonneg : 0 ≤ s.uploaded_len

theorem Resuming.next {s : Upload} (h : Resuming s) {attempt : Attempt}
    (hnot : ¬ attempt.Completes) : Resuming (uploadPass LONG_MAX localFile attempt s) := by
  obtain ⟨hc, hlen, hres⟩ :=
    uploadPass_resumed LONG_MAX localFile h.resumed h.len_nonneg attempt
  refine ⟨by omega, ?_, hlen ▸ lenAfter_nonneg LONG_MAX h.len_nonneg _⟩
  have hret := congrArg Prod.fst hres
  dsimp only at hret
  rw [hret, ne_eq, appended_ret]
  exact hnot

theorem uploadLoop_failed {s : Upload} (h : s.ret ≠ CURLE_OK) (attempt : Attempt)
    (attempts : List Attempt) :
    uploadLoop LONG_MAX localFile (attempt :: attempts) s =
      uploadLoop LONG_MAX localFile attempts (uploadPass LONG_MAX localFile attempt s) := by
  rw [uploadLoop, if_pos h]

theorem uploadLoop_ok {s : Upload} (h : s.ret = CURLE_OK) (attempts : List Attempt) :
    uploadLoop LONG_MAX localFile attempts s = s := by
  cases attempts with
  | nil => rfl
  | cons attempt attempts => rw [uploadLoop, if_neg (by simpa using h)]

/-- A resumed pass that completes. -/
theorem Resuming.completes {s : Upload} (h : Resuming s) {attempt : Attempt}
    (hdone : attempt.Completes) :
    (uploadPass LONG_MAX localFile attempt s).ret = CURLE_OK ∧
      (uploadPass LONG_MAX localFile attempt s).remote = some (s.remote.getD [] ++
        (uploaded localFile).drop (lenAfter LONG_MAX attempt.query s).toNat) := by
  obtain ⟨-, -, hres⟩ := uploadPass_resumed LONG_MAX localFile
    h.resumed h.len_nonneg attempt
  rw [show attempt.resumed = .complete from hdone, appended, Prod.mk.injEq] at hres
  exact hres

/-- The resumed passes succeed when one of them completes. -/
theorem uploadLoop_ret (attempts : List Attempt) {s : Upload} (h : Resuming s) :
    (uploadLoop LONG_MAX localFile attempts s).ret = CURLE_OK ↔
      ∃ attempt ∈ attempts, attempt.Completes := by
  induction attempts generalizing s with
  | nil => simpa [uploadLoop] using h.failed
  | cons attempt attempts ih =>
    rw [uploadLoop_failed _ _ h.failed]
    by_cases hdone : attempt.Completes
    · have hok := (h.completes LONG_MAX localFile hdone).1
      rw [uploadLoop_ok _ _ hok]
      exact iff_of_true hok ⟨attempt, List.mem_cons_self, hdone⟩
    · rw [ih (h.next LONG_MAX localFile hdone)]
      simp [hdone]

/-- **Resumed passes only append.** -/
theorem uploadLoop_extends (attempts : List Attempt) {s : Upload} (h : Resuming s) :
    s.remote.getD [] <+: (uploadLoop LONG_MAX localFile attempts s).remote.getD [] := by
  induction attempts generalizing s with
  | nil => exact List.prefix_refl _
  | cons attempt attempts ih =>
    rw [uploadLoop_failed _ _ h.failed]
    have hpass : s.remote.getD [] <+:
        (uploadPass LONG_MAX localFile attempt s).remote.getD [] := by
      obtain ⟨-, -, hres⟩ := uploadPass_resumed LONG_MAX localFile
        h.resumed h.len_nonneg attempt
      rw [show (uploadPass LONG_MAX localFile attempt s).remote = _ from congrArg Prod.snd hres]
      exact appended_extends ..
    by_cases hdone : attempt.Completes
    · rw [uploadLoop_ok _ _ (h.completes LONG_MAX localFile hdone).1]
      exact hpass
    · exact hpass.trans (ih (h.next LONG_MAX localFile hdone))

variable {localFile : Bytes}

/-- Once the remote file is not a prefix of the local file, it never is it. -/
theorem uploadLoop_ne_uploaded (attempts : List Attempt) {s : Upload} (h : Resuming s)
    (hbad : ¬ s.remote.getD [] <+: uploaded localFile) :
    (uploadLoop LONG_MAX localFile attempts s).remote ≠ some (uploaded localFile) := by
  intro heq
  have hext := uploadLoop_extends LONG_MAX localFile attempts h
  rw [heq] at hext
  exact hbad hext

-- ---------------------------------------------------------------------------
-- In step
-- ---------------------------------------------------------------------------

/-- The attempts at the resumed passes keep the remote file in step with a local
file of `size` bytes, of which the server holds the first `held`: every transfer
that stores something, and the one that completes, comes when `uploaded_len` is
the number of bytes held. `fresh` says whether it is; a size line makes it so
unless the size is more than a `long` holds, and stored bytes unmake it. -/
def InStep (LONG_MAX size : Nat) : Bool → Nat → List Attempt → Prop
  | _, _, [] => True
  | fresh, held, attempt :: attempts =>
    let fresh := if attempt.query.sizeLine then decide (held ≤ LONG_MAX) else fresh
    match attempt.resumed with
    | .refused _ => InStep LONG_MAX size fresh held attempts
    | .broken bytes _ =>
      if bytes = 0 then InStep LONG_MAX size fresh held attempts
      else fresh = true ∧
        InStep LONG_MAX size (decide (held = size)) (min (held + bytes) size) attempts
    | .complete => fresh = true

/-- The loop head of a resumed pass with the first `held` bytes of the local
file on the server. -/
structure Held (localFile : Bytes) (fresh : Bool) (held : Nat) (s : Upload) : Prop
    extends Resuming s where
  held_le : held ≤ localFile.length
  remote : s.remote.getD [] = (uploaded localFile).take held
  len_le : s.uploaded_len ≤ held
  fresh_iff : fresh = true ↔ s.uploaded_len = held

/-- The query of a pass makes `uploaded_len` fresh as `InStep` says. -/
theorem Held.query {fresh : Bool} {held : Nat} {s : Upload} (h : Held localFile fresh held s)
    (query : Query) :
    lenAfter LONG_MAX query s ≤ held ∧
      ((if query.sizeLine then decide (held ≤ LONG_MAX) else fresh) = true ↔
        lenAfter LONG_MAX query s = held) := by
  obtain ⟨⟨-, -, hnonneg⟩, hheld, hremote, hle, hfresh⟩ := h
  have hlength := congrArg List.length hremote
  rw [List.length_take, length_uploaded, Nat.min_eq_left hheld] at hlength
  unfold lenAfter
  cases hs : s.remote with
  | none =>
    -- without a remote file nothing is held, and `uploaded_len` is 0 already
    have hzero : held = 0 := by simpa [hs] using hlength.symm
    subst hzero
    have hlen : s.uploaded_len = 0 := by omega
    simp [hlen, hfresh.mpr hlen]
  | some remote =>
    have hsize : remote.length = held := by simpa [hs] using hlength
    simp only [hsize]
    by_cases hline : query.sizeLine = true
    · simp only [hline, if_true, decide_eq_true_eq]
      omega
    · simp only [hline, if_false, Bool.false_eq_true]
      exact ⟨hle, hfresh⟩

/-- After a pass that stored nothing. -/
theorem Held.keep {fresh : Bool} {held : Nat} {s : Upload} (h : Held localFile fresh held s)
    {attempt : Attempt} (hnot : ¬ attempt.Completes)
    (hremote : (uploadPass LONG_MAX localFile attempt s).remote.getD [] = s.remote.getD []) :
    Held localFile (if attempt.query.sizeLine then decide (held ≤ LONG_MAX) else fresh) held
      (uploadPass LONG_MAX localFile attempt s) := by
  obtain ⟨-, hlen, -⟩ := uploadPass_resumed LONG_MAX localFile
    h.resumed h.len_nonneg attempt
  obtain ⟨hle, hfresh⟩ := h.query LONG_MAX attempt.query
  exact ⟨h.toResuming.next LONG_MAX localFile hnot, h.held_le, hremote.trans h.remote,
    hlen ▸ hle, hlen ▸ hfresh⟩

/-- After a pass whose chunk continues what is held. -/
theorem Held.append {fresh : Bool} {held : Nat} {s : Upload} (h : Held localFile fresh held s)
    {attempt : Attempt} {bytes : Nat} (hnot : ¬ attempt.Completes) (hbytes : bytes ≠ 0)
    (hlen : lenAfter LONG_MAX attempt.query s = held)
    (hremote : (uploadPass LONG_MAX localFile attempt s).remote.getD [] =
      (uploaded localFile).take (held + bytes)) :
    Held localFile (decide (held = localFile.length)) (min (held + bytes) localFile.length)
      (uploadPass LONG_MAX localFile attempt s) := by
  obtain ⟨-, hlen', -⟩ := uploadPass_resumed LONG_MAX localFile
    h.resumed h.len_nonneg attempt
  have hheld := h.held_le
  refine ⟨h.toResuming.next LONG_MAX localFile hnot, by omega, ?_, ?_, ?_⟩
  · rw [hremote, ← length_uploaded localFile, ← List.take_eq_take_min]
  · rw [hlen', hlen]
    omega
  · rw [hlen', hlen, decide_eq_true_eq]
    omega

/-- A completing pass leaves the local file just when it starts where the held bytes
end. -/
theorem Held.completes_exact {fresh : Bool} {held : Nat} {s : Upload}
    (h : Held localFile fresh held s) {attempt : Attempt} (hattempt : attempt.Completes) :
    (uploadPass LONG_MAX localFile attempt s).remote = some (uploaded localFile) ↔
      lenAfter LONG_MAX attempt.query s = held := by
  obtain ⟨-, -, hres⟩ := uploadPass_resumed LONG_MAX localFile
    h.resumed h.len_nonneg attempt
  obtain ⟨hle, -⟩ := h.query LONG_MAX attempt.query
  have hnonneg := lenAfter_nonneg LONG_MAX h.len_nonneg attempt.query
  have hheld := h.held_le
  have hremote := congrArg Prod.snd hres
  rw [show attempt.resumed = .complete from hattempt, appended, h.remote] at hremote
  dsimp only at hremote
  rw [hremote, Option.some_inj]
  -- what is added follows the held bytes just when it starts behind them
  have hoffset : (lenAfter LONG_MAX attempt.query s).toNat ≤ (uploaded localFile).length := by
    rw [length_uploaded]
    omega
  rw [append_drop_eq_iff hoffset, and_iff_right (List.take_prefix _ _), List.length_take,
    length_uploaded]
  omega

/-- **The resumed passes end with the local file exactly when they are in step.** -/
theorem uploadLoop_exact_iff (attempts : List Attempt) {fresh : Bool} {held : Nat} {s : Upload}
    (h : Held localFile fresh held s) (hdone : ∃ attempt ∈ attempts, attempt.Completes) :
    (uploadLoop LONG_MAX localFile attempts s).remote = some (uploaded localFile) ↔
      InStep LONG_MAX localFile.length fresh held attempts := by
  induction attempts generalizing s fresh held with
  | nil => simp at hdone
  | cons attempt attempts ih =>
    obtain ⟨-, -, hres⟩ := uploadPass_resumed LONG_MAX localFile
      h.resumed h.len_nonneg attempt
    obtain ⟨hle, hfresh⟩ := h.query LONG_MAX attempt.query
    have hnonneg := lenAfter_nonneg LONG_MAX h.len_nonneg attempt.query
    have hremote := congrArg Prod.snd hres
    rw [uploadLoop_failed _ _ h.failed, InStep]
    dsimp only at hremote ⊢
    cases hattempt : attempt.resumed with
    | refused error =>
      have hnot : ¬ attempt.Completes := by simp [Attempt.Completes, hattempt]
      rw [hattempt] at hremote
      exact ih (h.keep LONG_MAX hnot (congrArg (·.getD []) hremote)) (by simpa [hnot] using hdone)
    | broken bytes error =>
      have hnot : ¬ attempt.Completes := by simp [Attempt.Completes, hattempt]
      have hrest : ∃ a ∈ attempts, a.Completes := by simpa [hnot] using hdone
      have hnext := h.toResuming.next LONG_MAX localFile hnot
      rw [hattempt, appended, h.remote] at hremote
      dsimp only at hremote ⊢
      by_cases hzero : bytes = 0
      · rw [if_pos hzero]
        refine ih (h.keep LONG_MAX hnot ?_) hrest
        rw [hremote, hzero, h.remote, List.take_zero, List.append_nil, Option.getD_some]
      rw [if_neg hzero]
      by_cases heq : lenAfter LONG_MAX attempt.query s = held
      · -- the chunk continues what is held
        rw [heq, Int.toNat_natCast, ← List.take_add] at hremote
        have hstep := h.append LONG_MAX hnot hzero heq (by rw [hremote, Option.getD_some])
        exact (ih hstep hrest).trans (iff_and_self.mpr fun _ => hfresh.mpr heq)
      · -- the chunk starts behind what is held
        refine iff_of_false (uploadLoop_ne_uploaded LONG_MAX attempts hnext ?_)
          (fun hstep => heq (hfresh.mp hstep.1))
        rw [hremote, Option.getD_some]
        exact not_prefix_of_behind (by omega) h.held_le (Nat.pos_of_ne_zero hzero)
    | complete =>
      have hcompletes : attempt.Completes := hattempt
      obtain ⟨hok, -⟩ := h.toResuming.completes LONG_MAX localFile hcompletes
      dsimp only
      rw [uploadLoop_ok _ _ hok, h.completes_exact LONG_MAX hcompletes, hfresh]

-- ---------------------------------------------------------------------------
-- The whole call
-- ---------------------------------------------------------------------------

/-- If the call returns 1, the remote file is the local file, every byte of it
once and in order. -/
def UploadExact (LONG_MAX : Nat) (attempts : Nat → Attempt) (localFile : Bytes)
    (old : Option Bytes) (tries : Int) : Prop :=
  let result := FtpUpload LONG_MAX attempts (some localFile) (old.map stored) tries
  result.1 = 1 → result.2 = some (uploaded localFile)

/-- The attempts of a call keep the remote file in step, if the call gets to a
transfer that completes: the first transfer completes, or it leaves nothing of
an old file and the resumed passes are in step with what it stored. -/
def CallInStep (LONG_MAX size : Nat) (old : Option Bytes) : List Attempt → Prop
  | [] => True
  | attempt :: attempts =>
    match attempt.transfer with
    | .complete => True
    | .refused _ => (∃ a ∈ attempts, a.Completes) →
      old.getD [] = [] ∧ InStep LONG_MAX size true 0 attempts
    | .broken bytes _ => (∃ a ∈ attempts, a.Completes) →
      InStep LONG_MAX size (decide (min bytes size = 0)) (min bytes size) attempts

/-- The remote file after the first pass, which replaces it as far as it gets. -/
def afterFirst (localFile : Bytes) (remote : Option (List RemoteByte)) :
    Transfer → Option (List RemoteByte)
  | .refused _ => remote
  | .broken bytes _ => some ((uploaded localFile).take bytes)
  | .complete => some (uploaded localFile)

theorem uploadPass_first (localFile : Bytes) (remote : Option (List RemoteByte))
    (attempt : Attempt) :
    let t := uploadPass LONG_MAX localFile attempt { remote }
    t.c = 1 ∧ t.uploaded_len = 0 ∧ (t.ret = CURLE_OK ↔ attempt.transfer = .complete) ∧
      t.remote = afterFirst localFile remote attempt.transfer := by
  cases htransfer : attempt.transfer with
  | refused error =>
    simp [uploadPass, uploadBody, curl_easy_perform, performUpload, afterFirst, htransfer,
      error.ne_ok]
  | broken bytes error =>
    simp [uploadPass, uploadBody, curl_easy_perform, performUpload, afterFirst, htransfer,
      error.ne_ok]
  | complete =>
    simp [uploadPass, uploadBody, curl_easy_perform, performUpload, afterFirst, htransfer]

/-- After a first transfer that did not touch the remote file. -/
theorem exact_iff_of_refused {localFile : Bytes} {old : Option Bytes} {t : Upload}
    (ht : Resuming t) (hlen : t.uploaded_len = 0) (hremote : t.remote = old.map stored)
    {attempts : List Attempt} (hdone : ∃ attempt ∈ attempts, attempt.Completes) :
    (uploadLoop LONG_MAX localFile attempts t).remote = some (uploaded localFile) ↔
      old.getD [] = [] ∧ InStep LONG_MAX localFile.length true 0 attempts := by
  by_cases hold : old.getD [] = []
  · -- there was nothing to survive
    have hheld : Held localFile true 0 t := by
      refine ⟨ht, by omega, ?_, by omega, by simp [hlen]⟩
      rw [hremote]
      cases old with
      | none => rfl
      | some bytes => simpa [stored] using hold
    rw [uploadLoop_exact_iff _ _ hheld hdone]
    exact ⟨fun h => ⟨hold, h⟩, fun h => h.2⟩
  · -- the old file is still there and only gets longer
    refine iff_of_false (uploadLoop_ne_uploaded _ _ ht ?_) fun h => hold h.1
    rw [hremote]
    cases old with
    | none => exact absurd rfl hold
    | some bytes => exact not_prefix_of_stored hold

/-- After a first transfer that broke off with `bytes` bytes stored. -/
theorem exact_iff_of_broken {localFile : Bytes} {bytes : Nat} {t : Upload}
    (ht : Resuming t) (hlen : t.uploaded_len = 0)
    (hremote : t.remote = some ((uploaded localFile).take bytes))
    {attempts : List Attempt} (hdone : ∃ attempt ∈ attempts, attempt.Completes) :
    (uploadLoop LONG_MAX localFile attempts t).remote = some (uploaded localFile) ↔
      InStep LONG_MAX localFile.length (decide (min bytes localFile.length = 0))
        (min bytes localFile.length) attempts := by
  have hheld : Held localFile (decide (min bytes localFile.length = 0))
      (min bytes localFile.length) t := by
    refine ⟨ht, by omega, ?_, by omega, by rw [hlen, decide_eq_true_eq]; omega⟩
    rw [hremote, Option.getD_some, ← length_uploaded localFile, ← List.take_eq_take_min]
  exact uploadLoop_exact_iff _ _ hheld hdone

/-- **When a call that returns 1 leaves the local file.** For every content of
the local and the remote file, every `tries` and every sequence of attempts: a
call that returns 1 leaves exactly the local file, if and only if the attempts
of the call are in step. -/
theorem FtpUpload_exact_iff (attempts : Nat → Attempt) (localFile : Bytes) (old : Option Bytes)
    (tries : Int) :
    UploadExact LONG_MAX attempts localFile old tries ↔
      CallInStep LONG_MAX localFile.length old (allowed attempts tries) := by
  unfold UploadExact FtpUpload
  dsimp only
  generalize allowed attempts tries = as
  cases as with
  | nil => simp [uploadLoop, CallInStep, CURLE_GOT_NOTHING, CURLE_OK]
  | cons attempt rest =>
    obtain ⟨hc, hlen, hret, hremote⟩ := uploadPass_first LONG_MAX localFile (old.map stored)
      attempt
    rw [uploadLoop_failed _ _ (by simp [CURLE_GOT_NOTHING, CURLE_OK]), CallInStep]
    set t := uploadPass LONG_MAX localFile attempt { remote := old.map stored } with ht
    by_cases hfirst : attempt.transfer = .complete
    · -- the first transfer completed
      rw [hfirst, afterFirst] at hremote
      simp only [uploadLoop_ok _ _ (hret.mpr hfirst), hremote, hfirst, implies_true]
    have hresume : Resuming t := ⟨by omega, fun hok => hfirst (hret.mp hok), by omega⟩
    have hone : ∀ n : CURLcode, (if n = CURLE_OK then 1 else 0) = 1 ↔ n = CURLE_OK := by
      intro n
      split_ifs <;> simp [*]
    rw [hone, uploadLoop_ret _ _ _ hresume]
    cases htransfer : attempt.transfer with
    | refused error =>
      rw [htransfer, afterFirst] at hremote
      dsimp only
      exact forall_congr' (exact_iff_of_refused LONG_MAX hresume hlen hremote)
    | broken bytes error =>
      rw [htransfer, afterFirst] at hremote
      dsimp only
      exact forall_congr' (exact_iff_of_broken LONG_MAX hresume hlen hremote)
    | complete => exact absurd htransfer hfirst

/-- The old file holds `X`, the first transfer is refused, the query succeeds and
the second transfer completes: the call returns 1 and the `X` is still there. -/
theorem FtpUpload_keeps_old_byte :
    ¬ UploadExact 2147483647
        (fun i => { query := { error := none, sizeLine := true }
                    transfer := if i = 0 then .refused ⟨CURLE_GOT_NOTHING, by decide⟩
                      else .complete })
        [97, 98] (some [88]) 3 := by
  intro h
  have hfirst := congrArg (fun remote => (remote.getD []).head?) (h rfl)
  exact absurd hfirst (by decide)

end Curl
