import ThirdPartDemo.Spdlog.Progress
import ThirdPartDemo.Library.Inevitable

/-!
# spdlog — the thread pool comes to rest

What the threads still have to do is bounded, and every step that they take by themselves
leaves less of it: so whatever the order of their steps, they come to where none can go on.

* `comes_to_rest` — all is done then that can be;
* `flush_returns` — and if no logger overruns, no client waits for a flush.
-/

namespace Spdlog

open Library MpmcBlockingQueue

/-- How much there is to do for a message in the queue. -/
def AsyncMsg.effort (m : AsyncMsg) : Nat := m.actions.length + 9

/-- How much a thread has to do before it waits for a message. -/
def Worker.effort : Worker → Nat
  | .working todo => todo.length + 4
  | .dequeuing | .exited => 0

/-- How much a client has to do, with what it asks of the threads. -/
def Client.effort : Client → Nat
  | .idle => 0
  | .posting m _ => m.effort + 10
  | .calling m _ => m.effort + 6
  | .counting _ => 2
  | .awaiting _ => 1

/-- How much the destructor has to do, with what it asks of the threads. -/
def Destructor.effort (n : Nat) : Destructor → Nat
  | .alive | .destroyed => 0
  | .destroying posted => (n - posted) * 20 + 1
  | .calling posted => (n - (posted + 1)) * 20 + 17

theorem posted_effort (m : AsyncMsg) : (Client.posted m).effort ≤ 1 := by
  cases m
  all_goals simp [Client.posted, Client.effort]

theorem process_effort (m : AsyncMsg) : (process_next_msg_ m).effort + 5 ≤ m.effort := by
  cases m
  all_goals simp [process_next_msg_, Worker.effort, AsyncMsg.effort]

namespace ThreadPool

/-- How much there is to do for the messages in the queue. -/
def backlog (q : MpmcBlockingQueue AsyncMsg) : Nat := (q.messages.map AsyncMsg.effort).sum

theorem backlog_push (q : MpmcBlockingQueue AsyncMsg) (m : AsyncMsg) :
    backlog (q.push m) ≤ backlog q + m.effort := by
  have happend := congrArg (fun ms => (ms.map AsyncMsg.effort).sum) (q.overrun_append m)
  simp only [List.map_append, List.sum_append, List.map_cons, List.map_nil, List.sum_singleton]
    at happend
  unfold backlog
  omega

theorem backlog_pop {q : MpmcBlockingQueue AsyncMsg} (h : q.q_.empty = false) :
    backlog q = (q.pop h).2.effort + backlog (q.pop h).1 := by
  unfold backlog
  rw [(pop_spec h).1, List.map_cons, List.sum_cons]

variable {n : Nat} {κ : Type} [Fintype κ]

/-- How much the threads have to do. -/
def effort (s : ThreadPool n κ) : Nat :=
  s.q_.effort + backlog s.q_.shared + ∑ i, (s.workers i).effort + ∑ k, (s.clients k).effort +
    s.destructor.effort n

variable [DecidableEq κ] {s s' : ThreadPool n κ}

/-- **The threads have less to do** after every step that they take by themselves. -/
theorem Inner.effort_lt (hl : Linked s) (hstep : Inner s s') : s'.effort < s.effort := by
  unfold effort
  induction hstep with
  | @queue e q_' hq hsilent hinward =>
    have hlt := hq.effort_silent hsilent hinward
    rw [(hq.silent hsilent).1]
    show q_'.effort + _ + ∑ i, (s.workers i).effort + ∑ k, (s.clients k).effort +
      s.destructor.effort n < _
    omega
  | @dequeue i q_' hw hq =>
    have hcall := hq.effort_call
    have hsum := sum_update Worker.effort s.workers i .dequeuing
    rw [hw] at hsum
    have hsum : ∑ j, (Function.update s.workers i .dequeuing j).effort + 4 =
      ∑ j, (s.workers j).effort + 0 := hsum
    rw [shared_call hq]
    show q_'.effort + _ + ∑ j, (Function.update s.workers i .dequeuing j).effort +
      ∑ k, (s.clients k).effort + s.destructor.effort n < _
    omega
  | @dequeued i m q_' hw hq =>
    have hcommit := hq.effort_commit
    obtain ⟨hempty, hpop⟩ := commit_popped hq
    have hbacklog : backlog s.q_.shared = m.effort + backlog q_'.shared := by
      rw [backlog_pop hempty, hpop]
    have hprocess := process_effort m
    have hsum := sum_update Worker.effort s.workers i (process_next_msg_ m)
    show q_'.effort + backlog q_'.shared +
      ∑ j, (Function.update s.workers i (process_next_msg_ m) j).effort +
      ∑ k, (s.clients k).effort + s.destructor.effort n < _
    omega
  | @act i a todo hw hp =>
    have hsum := sum_update Worker.effort s.workers i (.working todo)
    rw [hw] at hsum
    have hsum : ∑ j, (Function.update s.workers i (.working todo) j).effort +
      (todo.length + 1 + 4) = ∑ j, (s.workers j).effort + (todo.length + 4) := hsum
    show s.q_.effort + backlog s.q_.shared +
      ∑ j, (Function.update s.workers i (.working todo) j).effort +
      ∑ k, (s.clients k).effort + s.destructor.effort n < _
    omega
  | @post k m policy q_' hc hq =>
    have hcall := hq.effort_call
    have hsum := sum_update Client.effort s.clients k (.calling m policy)
    rw [hc] at hsum
    have hsum : ∑ j, (Function.update s.clients k (.calling m policy) j).effort +
      (m.effort + 10) = ∑ j, (s.clients j).effort + (m.effort + 6) := hsum
    rw [shared_call hq]
    show q_'.effort + _ + ∑ i, (s.workers i).effort +
      ∑ j, (Function.update s.clients k (.calling m policy) j).effort + s.destructor.effort n < _
    omega
  | @posted k m policy gone q_' hc hq =>
    have hcommit := hq.effort_commit
    have hposted := posted_effort m
    obtain ⟨hshared, -⟩ := hl.pushed hc hq
    have hbacklog := backlog_push s.q_.shared m
    have hsum := sum_update Client.effort s.clients k (.posted m)
    rw [hc] at hsum
    have hsum : ∑ j, (Function.update s.clients k (.posted m) j).effort + (m.effort + 6) =
      ∑ j, (s.clients j).effort + (Client.posted m).effort := hsum
    show q_'.effort + backlog q_'.shared + ∑ i, (s.workers i).effort +
      ∑ j, (Function.update s.clients k (.posted m) j).effort + s.destructor.effort n < _
    rw [hshared]
    omega
  | @discarded k m policy q_' hc hq =>
    have hcommit := hq.effort_commit
    have hsum := sum_update Client.effort s.clients k (.counting m)
    rw [hc] at hsum
    have hsum : ∑ j, (Function.update s.clients k (.counting m) j).effort +
      (m.actions.length + 9 + 6) = ∑ j, (s.clients j).effort + 2 := hsum
    rw [commit_discarded hq]
    show q_'.effort + _ + ∑ i, (s.workers i).effort +
      ∑ j, (Function.update s.clients k (.counting m) j).effort + s.destructor.effort n < _
    omega
  | @count k m hc hp =>
    have hposted := posted_effort m
    have hsum := sum_update Client.effort s.clients k (.posted m)
    rw [hc] at hsum
    have hsum : ∑ j, (Function.update s.clients k (.posted m) j).effort + 2 =
      ∑ j, (s.clients j).effort + (Client.posted m).effort := hsum
    show s.q_.effort + backlog s.q_.shared + ∑ i, (s.workers i).effort +
      ∑ j, (Function.update s.clients k (.posted m) j).effort + s.destructor.effort n < _
    omega
  | @get k promise hc hp _ =>
    have hsum := sum_update Client.effort s.clients k .idle
    rw [hc] at hsum
    have hsum : ∑ j, (Function.update s.clients k .idle j).effort + 1 =
      ∑ j, (s.clients j).effort + 0 := hsum
    show s.q_.effort + backlog s.q_.shared + ∑ i, (s.workers i).effort +
      ∑ j, (Function.update s.clients k .idle j).effort + s.destructor.effort n < _
    omega
  | @terminate posted q_' hd hlt hq =>
    have hcall := hq.effort_call
    have hmore : n - posted = n - (posted + 1) + 1 := by omega
    rw [shared_call hq, hd]
    show q_'.effort + _ + ∑ i, (s.workers i).effort + ∑ k, (s.clients k).effort +
      ((n - (posted + 1)) * 20 + 17) < _ + _ + _ + _ + ((n - posted) * 20 + 1)
    rw [hmore]
    omega
  | @terminated posted gone q_' hd hq =>
    have hcommit := hq.effort_commit
    obtain ⟨hshared, -⟩ := hl.terminated hd hq
    have hbacklog : _ ≤ _ + 9 := backlog_push s.q_.shared .terminate
    rw [hd]
    show q_'.effort + backlog q_'.shared + ∑ i, (s.workers i).effort +
      ∑ k, (s.clients k).effort + ((n - (posted + 1)) * 20 + 1) <
        _ + _ + _ + _ + ((n - (posted + 1)) * 20 + 17)
    rw [hshared]
    omega
  | join hd hp _ =>
    rw [hd]
    show s.q_.effort + backlog s.q_.shared + ∑ i, (s.workers i).effort +
      ∑ k, (s.clients k).effort + 0 < _ + _ + _ + _ + ((n - n) * 20 + 1)
    omega

/-- No logger overruns: neither that of a message that was accepted nor of one that a client
is about to post. -/
structure Patient (s : ThreadPool n κ) : Prop where
  accepted : ∀ m ∈ s.seen.accepted, m.overflow_policy_ ≠ .overrun_oldest
  posting : ∀ k m policy, s.clients k = .posting m policy ∨ s.clients k = .calling m policy →
    m.overflow_policy_ ≠ .overrun_oldest

omit [Fintype κ] in
theorem Patient.inner (h : Patient s) (hstep : Inner s s') : Patient s' := by
  induction hstep with
  | queue _ _ _ => exact ⟨h.accepted, h.posting⟩
  | dequeue _ _ => exact ⟨h.accepted, h.posting⟩
  | dequeued _ _ => exact ⟨h.accepted, h.posting⟩
  | act _ _ => exact ⟨h.accepted, h.posting⟩
  | @post k m policy _ hc _ =>
    refine ⟨h.accepted, posting_update h.posting fun m' policy' hj => ?_⟩
    simp only [reduceCtorEq, false_or, Client.calling.injEq] at hj
    obtain ⟨rfl, rfl⟩ := hj
    exact h.posting k m policy (.inl hc)
  | @posted k m policy gone _ hc _ =>
    refine ⟨fun m' hm' => ?_, posting_update h.posting fun m' policy' hj =>
      absurd hj (posted_posting m m' policy')⟩
    rcases List.mem_append.mp hm' with hm' | hm'
    · exact h.accepted m' hm'
    · rw [List.mem_singleton.mp hm']
      exact h.posting k m policy (.inr hc)
  | discarded _ _ => exact ⟨h.accepted, posting_update h.posting (by simp)⟩
  | @count k m _ _ =>
    exact ⟨h.accepted, posting_update h.posting fun m' policy' hj =>
      absurd hj (posted_posting m m' policy')⟩
  | get _ _ _ => exact ⟨h.accepted, posting_update h.posting (by simp)⟩
  | terminate _ _ _ => exact ⟨h.accepted, h.posting⟩
  | terminated _ _ =>
    refine ⟨fun m hm => ?_, h.posting⟩
    rcases List.mem_append.mp hm with hm | hm
    · exact h.accepted m hm
    · rw [List.mem_singleton.mp hm]
      decide
  | join _ _ _ => exact ⟨h.accepted, h.posting⟩

section Reached

variable {q_max_items : Nat} {h : q_max_items + 1 < 2 ^ 64} (hreached : Reached q_max_items h s)
include hreached

/-- **The pool comes to rest**: from every state that is reached, the steps that the threads
take by themselves end, in whatever order they are taken, and then all is done that can be. -/
theorem comes_to_rest (hmax : 0 < q_max_items) (hn : 0 < n) : Inevitable Inner Rested s := by
  refine inevitable_of_measure (I := Reached q_max_items h) effort ?_ ?_ ?_ hreached
  · exact fun s s' hs hstep => hs.tail (.inl hstep)
  · exact fun s s' hs hstep => hstep.effort_lt (linked_of_reached hs)
  · intro s hs
    by_cases hstep : ∃ s', Inner s s'
    · exact .inl hstep
    · exact .inr (AtRest.rested hs (not_exists.mp hstep) hmax hn)

/-- **Every flush returns**, if no logger overruns: the steps that the threads take by
themselves end, in whatever order they are taken, and then every client is idle. -/
theorem flush_returns (hmax : 0 < q_max_items) (hn : 0 < n) (hpatient : Patient s) :
    Inevitable Inner (fun s' => ∀ k, s'.clients k = .idle) s := by
  refine inevitable_of_measure (I := fun s => Reached q_max_items h s ∧ Patient s) effort
    ?_ ?_ ?_ ⟨hreached, hpatient⟩
  · exact fun s s' hs hstep => ⟨hs.1.tail (.inl hstep), hs.2.inner hstep⟩
  · exact fun s s' hs hstep => hstep.effort_lt (linked_of_reached hs.1)
  · rintro s ⟨hs, hpatient⟩
    by_cases hstep : ∃ s', Inner s s'
    · exact .inl hstep
    · refine .inr fun k => ?_
      have hrested := AtRest.rested hs (not_exists.mp hstep) hmax hn
      obtain hidle | ⟨p, l, -, -, hleftover⟩ := hrested.clients k
      · exact hidle
      · -- the message of the flush was overrun, and nobody overruns
        have hleft := overran_of_reached hs _ hleftover
        obtain ⟨m, hm, hm'⟩ := (chosen_of_reached hs).overrun ⟨_, hleft, rfl⟩
        exact absurd hm' (hpatient.accepted m hm)

end Reached

/-- A client waits for its flush, which is in the queue. -/
theorem flush_returns_one : ∃ s : ThreadPool 1 Unit, s.clients () = .awaiting 0 ∧
    Inevitable Inner (fun s' => ∀ k, s'.clients k = .idle) s := by
  have h₀ : Reached 1 (by decide) (start Unit 1 (by decide) 1) := .refl
  have h₁ := h₀.tail (.inr (.flush (k := ()) oneSink rfl rfl rfl))
  have h₂ := h₁.tail (.inl (.post (k := ()) rfl (.call _ rfl)))
  have h₃ := h₂.tail (.inl (.queue (.lock (t := .client ()) rfl rfl) trivial trivial))
  have h₄ := h₃.tail (.inl (.posted (k := ()) rfl
    (.commit (m := QueueCall.enqueue (.flush oneSink 0)) rfl rfl)))
  refine ⟨_, rfl, flush_returns h₄ (by decide) (by decide) ⟨fun m hm => ?_, ?_⟩⟩
  · rw [List.mem_singleton.mp (show m ∈ [AsyncMsg.flush oneSink 0] from hm)]
    decide
  · rintro k m policy (hk | hk)
    · cases hk
    · cases hk

/-- A logger that overruns. -/
def overrunner : AsyncLogger := ⟨[⟨7, .trace⟩], .off, .overrun_oldest⟩

/-- A client waits for a flush that another client's message has overrun, and the thread of
the pool for a message. -/
theorem comes_to_rest_overrun : ∃ s : ThreadPool 1 Bool, s.clients false = .awaiting 0 ∧
    s.promises = [.pending] ∧ s.q_.shared.leftover = some (.flush overrunner 0) ∧
      s.q_.phase (.worker 0) = .waiting .dequeue ∧ Inevitable Inner Rested s := by
  have h₀ : Reached 1 (by decide) (start Bool 1 (by decide) 1) := .refl
  have h₁ := h₀.tail (.inr (.flush (k := false) overrunner rfl rfl rfl))
  have h₂ := h₁.tail (.inl (.post (k := false) rfl (.call _ rfl)))
  have h₃ := h₂.tail (.inl (.queue (.lock (t := .client false) rfl rfl) trivial trivial))
  have h₄ := h₃.tail (.inl (.posted (k := false) rfl
    (.commit (m := QueueCall.enqueue_nowait (.flush overrunner 0)) rfl rfl)))
  have h₅ := h₄.tail (.inl (.queue (.unlock (t := .client false) rfl rfl (by decide))
    trivial trivial))
  have h₆ := h₅.tail (.inl (.queue (.notifyNone (t := .client false) rfl rfl (by decide))
    trivial trivial))
  -- the other client's message takes the place of the flush
  have h₇ := h₆.tail (.inr (.log (k := true) overrunner ⟨.info, []⟩ rfl rfl rfl))
  have h₈ := h₇.tail (.inl (.post (k := true) rfl (.call _ rfl)))
  have h₉ := h₈.tail (.inl (.queue (.lock (t := .client true) rfl rfl) trivial trivial))
  have h₁₀ := h₉.tail (.inl (.posted (k := true) rfl
    (.commit (m := QueueCall.enqueue_nowait (.log overrunner ⟨.info, []⟩)) rfl rfl)))
  have h₁₁ := h₁₀.tail (.inl (.queue (.unlock (t := .client true) rfl rfl (by decide))
    trivial trivial))
  have h₁₂ := h₁₁.tail (.inl (.queue (.notifyNone (t := .client true) rfl rfl (by decide))
    trivial trivial))
  -- the thread serves it, and waits
  have h₁₃ := h₁₂.tail (.inl (.dequeue (i := 0) rfl (.call _ rfl)))
  have h₁₄ := h₁₃.tail (.inl (.queue (.lock (t := .worker 0) rfl rfl) trivial trivial))
  have h₁₅ := h₁₄.tail (.inl (.dequeued (i := 0) rfl (.commit (m := QueueCall.dequeue) rfl rfl)))
  have h₁₆ := h₁₅.tail (.inl (.queue (.unlock (t := .worker 0) rfl rfl (by decide))
    trivial trivial))
  have h₁₇ := h₁₆.tail (.inl (.queue (.notifyNone (t := .worker 0) rfl rfl (by decide))
    trivial trivial))
  have h₁₈ := h₁₇.tail (.inl (.act (i := 0) rfl rfl))
  have h₁₉ := h₁₈.tail (.inl (.dequeue (i := 0) rfl (.call _ rfl)))
  have h₂₀ := h₁₉.tail (.inl (.queue (.lock (t := .worker 0) rfl rfl) trivial trivial))
  have h₂₁ := h₂₀.tail (.inl (.queue (.wait (t := .worker 0) rfl rfl) trivial trivial))
  exact ⟨_, rfl, rfl, rfl, rfl, comes_to_rest h₂₁ (by decide) (by decide)⟩

end ThreadPool

end Spdlog
