import Mathlib.Data.List.ReduceOption
import ThirdPartDemo.Libuv.TcpClient

/-!
# libuvDemo — one request object for all writes

`sendAsync` submits every message with the member `m_writeReq`, and the mutex it
holds covers the call of `uv_write` only, not the write, which is in flight until
its completion callback. The callback gets the request object and nothing else, so
what it completes is the message that the object was last submitted with; and it
calls `free` on the object, which is not from the heap.

Here `sendAsync` may be invoked at any time: another thread may call
`uv_async_send` whenever it likes.

* `writesApart_iff` — the writes stay apart, and the messages are completed exactly
  once by callbacks that do no harm, if and only if no more than one write was ever
  accepted, and none was completed.
-/

namespace Libuv

open Library

/-- `uv_write` is called and accepts the write. -/
def TcpClient.submits (c : TcpClient) (ret : Int) : Bool := c.m_isConnect && ret == 0

/-- The client and what happened to its messages, which are numbered from 0 in the
order of their submission. -/
structure Writing where
  client : TcpClient
  message : Option Nat := none            -- the one that `m_writeReq` was last submitted with
  submitted : Nat := 0
  completed : List (Option Nat) := []     -- `none` for a write that was in flight at the start

/-- An invocation of `sendAsync` or a completion callback; nothing else happens. -/
def writeStep (w : Writing) : Event → Option Writing
  | .sendAsync ret =>
    let client := w.client.sendAsync ret
    if w.client.submits ret then
      some { w with client, message := some w.submitted, submitted := w.submitted + 1 }
    else some { w with client }
  | .written status =>
    (step w.client (.written status)).map fun client =>
      { w with client, completed := w.completed ++ [w.message] }
  | .connect _ _ | .sendTimer | .read _ | .close => none

/-- In the order `es` of events from `c`, nothing is submitted while a write with the
same request object is in flight, and whenever none is in flight every message was
completed exactly once, in order, where no callback has freed the object. -/
structure WritesApart (c : TcpClient) (es : List Event) : Prop where
  apart : ∀ pre ret post w, es = pre ++ .sendAsync ret :: post →
    run writeStep { client := c } pre = some w → w.client.submits ret = true →
      w.client.m_writeReq = 0
  once : ∀ pre w, pre <+: es → run writeStep { client := c } pre = some w →
    w.client.m_writeReq = 0 → w.completed.reduceOption = List.range w.submitted
  survives : ∀ pre w, pre <+: es → run writeStep { client := c } pre = some w →
    w.client.m_writeReqFreed = false

/-- How many writes the events submit, on a connected client. -/
def submissions (es : List Event) : Nat := es.count (.sendAsync 0)

def Event.isWritten : Event → Bool
  | .written _ => true
  | _ => false

/-- How many writes the events complete. -/
def completions (es : List Event) : Nat := es.countP Event.isWritten

/-- At most one write is ever in flight, and none is completed: the only one was in
flight at the start, or is the only one that was submitted. -/
def OneWrite (c : TcpClient) (es : List Event) : Prop :=
  c.m_writeReqFreed = false ∧ completions es = 0 ∧ submissions es ≤ 1 ∧
    (0 < c.m_writeReq → submissions es = 0)

-- ---------------------------------------------------------------------------
-- Counting
-- ---------------------------------------------------------------------------

theorem submissions_concat (es : List Event) (e : Event) :
    submissions (es ++ [e]) = submissions es + if e = .sendAsync 0 then 1 else 0 := by
  simp [submissions, List.count_append, List.count_singleton]

theorem completions_concat (es : List Event) (e : Event) :
    completions (es ++ [e]) = completions es + if e.isWritten then 1 else 0 := by
  simp [completions, List.countP_append, List.countP_singleton]

/-- What one event does, on a connected client. -/
theorem writeStep_cases {w w' : Writing} {e : Event} (hconn : w.client.m_isConnect = true)
    (h : writeStep w e = some w') :
    (e = .sendAsync 0 ∧ w' = { w with
        client := { w.client with m_writeReq := w.client.m_writeReq + 1 }
        message := some w.submitted, submitted := w.submitted + 1 }) ∨
      (∃ ret, e = .sendAsync ret ∧ ret ≠ 0 ∧ w' = w) ∨
      (∃ status, e = .written status ∧ 0 < w.client.m_writeReq ∧ w' = { w with
        client := { w.client with m_writeReq := w.client.m_writeReq - 1, m_writeReqFreed := true }
        completed := w.completed ++ [w.message] }) := by
  cases e with
  | sendAsync ret =>
    have hsubmits : w.client.submits ret = (ret == 0) := by
      rw [TcpClient.submits, hconn, Bool.true_and]
    unfold writeStep TcpClient.sendAsync at h
    dsimp only at h
    rw [hsubmits, if_pos hconn] at h
    by_cases hret : ret = 0
    · rw [if_pos hret, if_pos (by simp [hret])] at h
      cases h
      exact Or.inl ⟨by rw [hret], rfl⟩
    · rw [if_neg hret, if_neg (by simp [hret])] at h
      cases h
      exact Or.inr (Or.inl ⟨ret, rfl, hret, rfl⟩)
  | written status =>
    obtain ⟨client, hstep, rfl⟩ := Option.map_eq_some_iff.mp h
    obtain ⟨hpos, ⟨⟩⟩ := Option.ite_none_right_eq_some.mp hstep
    exact Or.inr (Or.inr ⟨status, rfl, hpos, rfl⟩)
  | connect status iret => cases h
  | sendTimer => cases h
  | read nread => cases h
  | close => cases h

/-- What a run from `c` has come to. -/
structure Came (c : TcpClient) (es : List Event) (w : Writing) : Prop where
  connected : w.client.m_isConnect = true
  inFlight : w.client.m_writeReq + completions es = c.m_writeReq + submissions es
  submitted : w.submitted = submissions es
  completed : w.completed.length = completions es
  freed : w.client.m_writeReqFreed = (c.m_writeReqFreed || decide (0 < completions es))

/-- One more event. -/
theorem Came.step {c : TcpClient} {es : List Event} {w w' : Writing} {e : Event}
    (h : Came c es w) (hstep : writeStep w e = some w') : Came c (es ++ [e]) w' := by
  have hcount := h.inFlight
  rcases writeStep_cases h.connected hstep with ⟨rfl, rfl⟩ | ⟨ret, rfl, hret, rfl⟩ |
    ⟨status, rfl, hpos, rfl⟩
  · -- a write is accepted
    have hsub : submissions (es ++ [.sendAsync 0]) = submissions es + 1 := by
      rw [submissions_concat, if_pos rfl]
    have hcomp : completions (es ++ [.sendAsync 0]) = completions es := by
      simp [completions_concat, Event.isWritten]
    refine ⟨h.connected, ?_, ?_, hcomp ▸ h.completed, hcomp ▸ h.freed⟩
    · rw [hsub, hcomp]
      dsimp only
      omega
    · rw [hsub, ← h.submitted]
  · -- `uv_write` reports an error
    have hsub : submissions (es ++ [.sendAsync ret]) = submissions es := by
      simp [submissions_concat, hret]
    have hcomp : completions (es ++ [.sendAsync ret]) = completions es := by
      simp [completions_concat, Event.isWritten]
    exact ⟨h.connected, by rw [hsub, hcomp, hcount], hsub ▸ h.submitted, hcomp ▸ h.completed,
      hcomp ▸ h.freed⟩
  · -- a completion callback
    have hsub : submissions (es ++ [.written status]) = submissions es := by
      simp [submissions_concat]
    have hcomp : completions (es ++ [.written status]) = completions es + 1 := by
      rw [completions_concat, if_pos (show Event.isWritten (.written status) = true from rfl)]
    refine ⟨h.connected, ?_, hsub ▸ h.submitted, ?_, ?_⟩
    · rw [hsub, hcomp]
      dsimp only
      omega
    · rw [hcomp, ← h.completed, List.length_append, List.length_singleton]
    · rw [hcomp]
      simp

theorem came_of_run {c : TcpClient} (hconn : c.m_isConnect = true) {es : List Event}
    {w : Writing} (hrun : run writeStep { client := c } es = some w) : Came c es w := by
  refine run_history (I := Came c) ⟨hconn, rfl, rfl, rfl, ?_⟩ ?_ hrun
  · simp [completions]
  · intro es w e w' _ hcame hstep
    exact hcame.step hstep

-- ---------------------------------------------------------------------------
-- The result
-- ---------------------------------------------------------------------------

/-- Before each submission nothing was submitted, if the writes stay apart. -/
theorem WritesApart.first {c : TcpClient} (hconn : c.m_isConnect = true) {es : List Event}
    {w : Writing} (hrun : run writeStep { client := c } es = some w) (h : WritesApart c es)
    (hnone : completions es = 0) {pre post : List Event} (hes : es = pre ++ .sendAsync 0 :: post) :
    c.m_writeReq = 0 ∧ submissions pre = 0 := by
  subst hes
  obtain ⟨u, -, hu, -, -⟩ := exists_step_of_run hrun
  have hcame := came_of_run hconn hu
  have hidle := h.apart pre 0 post u rfl hu (by simp [TcpClient.submits, hcame.connected])
  have hpre : completions pre = 0 := by
    simp only [completions, List.countP_append, Nat.add_eq_zero_iff] at hnone
    exact hnone.1
  have hcount := hcame.inFlight
  omega

theorem submissions_split (pre post : List Event) :
    submissions (pre ++ .sendAsync 0 :: post) = submissions pre + 1 + submissions post := by
  simp only [submissions, List.count_append, List.count_cons_self]
  omega

/-- **When the writes of a connected client stay apart.** For every order of
invocations of `sendAsync` and completion callbacks: no write is submitted while
another one with the same request object is in flight, and every message is
completed exactly once, without the object being freed, if and only if there is at
most one write and no completion callback. -/
theorem writesApart_iff {c : TcpClient} (hconn : c.m_isConnect = true) {es : List Event}
    {w : Writing} (hrun : run writeStep { client := c } es = some w) :
    WritesApart c es ↔ OneWrite c es := by
  constructor
  · intro hwrites
    -- the object was not freed, so there was no completion
    have hfreed := (came_of_run hconn hrun).freed
    rw [hwrites.survives es w List.prefix_rfl hrun, eq_comm, Bool.or_eq_false_iff,
      decide_eq_false_iff_not, Nat.pos_iff_ne_zero, not_not] at hfreed
    obtain ⟨hstart, hnone⟩ := hfreed
    refine ⟨hstart, hnone, ?_, ?_⟩
    · by_contra htwo
      have hmem : Event.sendAsync 0 ∈ es := List.count_pos_iff.mp (by
        unfold submissions at htwo
        omega)
      obtain ⟨pre, post, hes⟩ := List.append_of_mem hmem
      have hfirst := (hwrites.first hconn hrun hnone hes).2
      rw [hes, submissions_split, hfirst] at htwo
      -- a second one after it
      obtain ⟨mid, last, hpost⟩ := List.append_of_mem (List.count_pos_iff.mp (by
        unfold submissions at htwo
        omega : 0 < post.count (.sendAsync 0)))
      have hsplit : es = (pre ++ .sendAsync 0 :: mid) ++ .sendAsync 0 :: last := by
        rw [hes, hpost, List.append_assoc, List.cons_append]
      have hsecond := (hwrites.first hconn hrun hnone hsplit).2
      rw [submissions_split] at hsecond
      omega
    · intro hflight
      by_contra hsome
      obtain ⟨pre, post, hes⟩ :=
        List.append_of_mem (List.count_pos_iff.mp (Nat.pos_of_ne_zero hsome))
      exact Nat.ne_of_gt hflight (hwrites.first hconn hrun hnone hes).1
  · rintro ⟨hstart, hnone, hone, hflight⟩
    have hfront : ∀ pre, pre <+: es → completions pre = 0 ∧ submissions pre ≤ submissions es := by
      rintro pre ⟨post, rfl⟩
      simp only [completions, submissions, List.countP_append, List.count_append] at hnone ⊢
      omega
    refine ⟨?_, ?_, ?_⟩
    · intro pre ret post u hes hu hsubmits
      have hret : ret = 0 := by
        rw [TcpClient.submits, Bool.and_eq_true, beq_iff_eq] at hsubmits
        exact hsubmits.2
      have hcount := (came_of_run hconn hu).inFlight
      rw [hes, hret, submissions_split] at hone hflight
      have hpre := (hfront pre ⟨_, hes.symm⟩).1
      omega
    · intro pre u hpre hu hidle
      have hcame := came_of_run hconn hu
      have hcount := hcame.inFlight
      have hzero := (hfront pre hpre).1
      have hnil : u.completed = [] := by
        rw [← List.length_eq_zero_iff, hcame.completed, hzero]
      have hsubmitted : u.submitted = 0 := by
        rw [hcame.submitted]
        omega
      rw [hnil, hsubmitted]
      rfl
    · intro pre u hpre hu
      rw [(came_of_run hconn hu).freed, hstart, (hfront pre hpre).1]
      rfl

/-- One message that is in flight to the end, and another one that `uv_write` does
not accept. -/
theorem writesApart_single :
    WritesApart { m_isConnect := true } [.sendAsync 0, .sendAsync (-1)] :=
  (writesApart_iff rfl (w := { client := { m_isConnect := true, m_writeReq := 1 }
                               message := some 0, submitted := 1 }) rfl).mpr
    ⟨rfl, rfl, by decide, by decide⟩

/-- Two messages sent one right after the other overlap. -/
theorem writes_overlap :
    ¬ WritesApart { m_isConnect := true } [.sendAsync 0, .sendAsync 0] := by
  intro hwrites
  have hidle := hwrites.apart [.sendAsync 0] 0 [] _ rfl rfl rfl
  exact absurd hidle (by decide)

end Libuv
