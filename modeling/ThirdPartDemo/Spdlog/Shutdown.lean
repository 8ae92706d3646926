import ThirdPartDemo.Spdlog.Delivery
import Mathlib.Algebra.Order.BigOperators.Group.Finset

/-!
# spdlog — the end of a thread pool

The destructor posts one message to terminate for each thread, as the last that are
accepted. They are never overrun, and each thread takes one at most.

* `drains` — when the destructor has returned, every message that was accepted was
  overrun, or taken by a thread and served to its end.
-/

namespace Spdlog

open Library MpmcBlockingQueue

/-- How many threads the destructor has asked to terminate. -/
def Destructor.posted (n : Nat) : Destructor → Nat
  | .alive => 0
  | .destroying posted | .calling posted => posted
  | .destroyed => n

/-- How often a thread has exited. -/
def Worker.exits : Worker → Nat
  | .exited => 1
  | _ => 0

theorem process_next_msg_exits (m : AsyncMsg) :
    (process_next_msg_ m).exits = [m].count .terminate := by
  cases m
  all_goals rfl

namespace ThreadPool

variable {n : Nat} {κ : Type} [DecidableEq κ]

-- ---------------------------------------------------------------------------
-- Who is asked to terminate
-- ---------------------------------------------------------------------------

/-- The terminate messages: the last ones accepted, never overrun, one taken by each
thread that exited. -/
structure Ending (s : ThreadPool n κ) : Prop where
  idle : s.destructor ≠ .alive → ∀ k, s.clients k = .idle ∧ s.q_.phase (.client k) = .outside
  requests : ∀ k policy, s.clients k ≠ .posting .terminate policy ∧
    s.clients k ≠ .calling .terminate policy
  accepted : ∃ before, s.seen.accepted =
    before ++ List.replicate (s.destructor.posted n) .terminate ∧ .terminate ∉ before
  posted : s.destructor.posted n ≤ n
  calling : ∀ posted, s.destructor = .calling posted → posted < n
  overrun : ∀ d ∈ s.seen.left, d.isOverrun = true → d.msg ≠ .terminate
  exited : ∀ i, (s.takenBy i).count .terminate = (s.workers i).exits
  joined : s.destructor = .destroyed → ∀ i, s.workers i = .exited

omit [DecidableEq κ] in
theorem ending_start (q_max_items : Nat) (h : q_max_items + 1 < 2 ^ 64) :
    Ending (start κ q_max_items h n) where
  idle halive := absurd rfl halive
  requests k policy := by simp [start]
  accepted := ⟨[], by simp [start, Destructor.posted], by simp⟩
  posted := Nat.zero_le n
  calling posted hd := by cases hd
  overrun := by simp [start]
  exited i := rfl
  joined hd := by cases hd

theorem exits_update {workers : Fin n → Worker} {i : Fin n} {w : Worker}
    (hw : w.exits = (workers i).exits) (j : Fin n) :
    (Function.update workers i w j).exits = (workers j).exits := by
  rw [Function.update_apply]
  split
  next heq => rw [heq, hw]
  next => rfl

variable [Fintype κ] {s s' : ThreadPool n κ}

omit [Fintype κ] in
/-- A step of the queue that no client calls leaves idle clients outside. -/
theorem Ending.idle_queue (h : Ending s) {e q_'} (hq : Monitor.Step method s.q_ e q_')
    (he : ∀ k m, e ≠ .call (.client k) m) (halive : s.destructor ≠ .alive) (k : κ) :
    s.clients k = .idle ∧ q_'.phase (.client k) = .outside :=
  ⟨(h.idle halive k).1, hq.outside (h.idle halive k).2 (he k)⟩

omit [DecidableEq κ] [Fintype κ] in
/-- While a client is in a request, the pool is alive. -/
theorem Ending.alive (h : Ending s) {k : κ} (hk : s.clients k ≠ .idle) : s.destructor = .alive := by
  by_contra halive
  exact hk (h.idle halive k).1

omit [Fintype κ] in
/-- A client goes on with its request, while the pool is alive. -/
theorem Ending.client (h : Ending s) {k : κ} (halive : s.destructor = .alive)
    {q_' discard_counter_ promises} {c : Client} {discarded served counted}
    (hc : ∀ policy, c ≠ .posting .terminate policy ∧ c ≠ .calling .terminate policy) :
    Ending ⟨q_', discard_counter_, s.workers, Function.update s.clients k c, s.destructor,
      promises, ⟨s.seen.accepted, s.seen.left, discarded, counted, served⟩⟩ where
  idle hd := absurd halive hd
  requests j policy := by
    show Function.update s.clients k c j ≠ _ ∧ Function.update s.clients k c j ≠ _
    rw [Function.update_apply]
    split
    · exact hc policy
    · exact h.requests j policy
  accepted := h.accepted
  posted := h.posted
  calling := h.calling
  overrun := h.overrun
  exited := h.exited
  joined := h.joined

omit [DecidableEq κ] in
theorem posted_request (m : AsyncMsg) (policy : OverflowPolicy) :
    Client.posted m ≠ .posting .terminate policy ∧
      Client.posted m ≠ .calling .terminate policy := by
  cases m
  all_goals exact ⟨by simp [Client.posted], by simp [Client.posted]⟩

theorem Ending.inner (hl : Linked s) (ha : Accounts s) (h : Ending s) (hstep : Inner s s') :
    Ending s' := by
  induction hstep with
  | @queue e q_' hq hsilent _ =>
    refine ⟨fun hd k => ?_, h.requests, h.accepted, h.posted, h.calling, h.overrun, h.exited,
      h.joined⟩
    refine h.idle_queue hq ?_ hd k
    rintro j m rfl
    exact hsilent
  | @dequeue i q_' hw hq =>
    refine ⟨fun hd k => h.idle_queue hq (by simp) hd k, h.requests, h.accepted, h.posted,
      h.calling, h.overrun, fun j => ?_, fun hd j => ?_⟩
    · refine (h.exited j).trans (exits_update ?_ j).symm
      rw [hw]
      rfl
    · have := h.joined hd i
      rw [hw] at this
      cases this
  | @dequeued i m q_' hw hq =>
    refine ⟨fun hd k => h.idle_queue hq (by simp) hd k, h.requests, h.accepted, h.posted,
      h.calling, ?_, fun j => ?_, fun hd j => ?_⟩
    · intro d hd hoverrun
      rcases List.mem_append.mp hd with hd | hd
      · exact h.overrun d hd hoverrun
      · rw [List.mem_singleton.mp hd] at hoverrun
        cases hoverrun
    · show ((s.seen.left ++ [Departure.dequeued i m]).filterMap (Departure.takenBy j)).count _ =
        (Function.update s.workers i (process_next_msg_ m) j).exits
      rw [List.filterMap_append, List.count_append]
      have hexited := h.exited j
      by_cases hij : i = j
      · subst hij
        rw [hw] at hexited
        rw [Function.update_self, process_next_msg_exits]
        show (s.takenBy i).count _ + _ = _
        rw [hexited]
        simp [Departure.takenBy, Worker.exits]
      · rw [Function.update_of_ne (Ne.symm hij), ← hexited]
        simp [Departure.takenBy, takenBy, hij]
    · have := h.joined hd i
      rw [hw] at this
      cases this
  | @act i a todo hw hp =>
    refine ⟨h.idle, h.requests, h.accepted, h.posted, h.calling, h.overrun, fun j => ?_,
      fun hd j => ?_⟩
    · refine (h.exited j).trans (exits_update ?_ j).symm
      rw [hw]
      rfl
    · have := h.joined hd i
      rw [hw] at this
      cases this
  | @post k m policy q_' hc hq =>
    refine h.client (h.alive (k := k) (by simp [hc])) fun policy' => ⟨by simp, ?_⟩
    rintro heq
    cases heq
    exact (h.requests k policy).1 hc
  | @posted k m policy gone q_' hc hq =>
    have halive := h.alive (k := k) (by simp [hc])
    have hm : m ≠ .terminate := by
      rintro rfl
      exact (h.requests k policy).2 hc
    obtain ⟨before, haccepted, hbefore⟩ := h.accepted
    rw [halive] at haccepted
    have haccepted : s.seen.accepted = before := by simpa [Destructor.posted] using haccepted
    have hclient : Ending { s with
        q_ := q_'
        clients := Function.update s.clients k (.posted m)
        promises := destroy s.promises gone } := h.client halive (posted_request m)
    refine ⟨hclient.idle, hclient.requests, ⟨before ++ [m], ?_, ?_⟩, h.posted, h.calling, ?_,
      fun i => ?_, h.joined⟩
    · show s.seen.accepted ++ [m] = _ ++ List.replicate (s.destructor.posted n) _
      rw [halive, haccepted]
      simp [Destructor.posted]
    · simp [hbefore, Ne.symm hm]
    · intro d hd hoverrun
      rcases List.mem_append.mp hd with hd | hd
      · exact h.overrun d hd hoverrun
      · -- what is overrun was accepted, and nothing accepted asks to terminate
        obtain ⟨x, hx, rfl⟩ := List.mem_map.mp hd
        have hmem : x ∈ s.q_.shared.messages ++ [m] := by
          rw [← overrun_append]
          exact List.mem_append_left _ hx
        rintro (rfl : x = _)
        rcases List.mem_append.mp hmem with hmem | hmem
        · apply hbefore
          rw [← haccepted, ha.fifo]
          exact List.mem_append_right _ hmem
        · exact hm (List.mem_singleton.mp hmem).symm
    · have := h.exited i
      show ((s.seen.left ++ (s.q_.shared.overrun m).map Departure.overrun).filterMap
        (Departure.takenBy i)).count _ = _
      rw [takenBy_overrun]
      exact this
  | @discarded k m policy q_' hc hq =>
    exact h.client (h.alive (k := k) (by simp [hc])) fun policy' => ⟨by simp, by simp⟩
  | @count k m hc hp => exact h.client (h.alive (k := k) (by simp [hc])) (posted_request m)
  | @get k promise hc hp _ =>
    exact h.client (h.alive (k := k) (by simp [hc])) fun policy' => ⟨by simp, by simp⟩
  | @terminate posted q_' hd hlt hq =>
    have hidle := h.idle_queue hq (by simp) (by simp [hd])
    have haccepted := h.accepted
    rw [hd] at haccepted
    refine ⟨fun _ k => hidle k, h.requests, haccepted, Nat.le_of_lt hlt, ?_, h.overrun,
      h.exited, fun hd' => by cases hd'⟩
    rintro _ ⟨⟩
    exact hlt
  | @terminated posted gone q_' hd hq =>
    obtain ⟨-, -, hroom⟩ := hl.terminated hd hq
    obtain ⟨before, haccepted, hbefore⟩ := h.accepted
    rw [hd] at haccepted
    refine ⟨fun _ k => h.idle_queue hq (by simp) (by simp [hd]) k, h.requests,
      ⟨before, ?_, hbefore⟩, h.calling posted hd, (fun _ hd' => by cases hd'), ?_, fun i => ?_,
      fun hd' => by cases hd'⟩
    · show s.seen.accepted ++ [.terminate] = before ++ List.replicate (posted + 1) .terminate
      rw [haccepted, List.append_assoc, List.replicate_succ']
      rfl
    · rw [hroom, List.map_nil]
      show ∀ d ∈ s.seen.left ++ [], _
      rw [List.append_nil]
      exact h.overrun
    · have := h.exited i
      show ((s.seen.left ++ (s.q_.shared.overrun .terminate).map Departure.overrun).filterMap
        (Departure.takenBy i)).count _ = _
      rw [takenBy_overrun]
      exact this
  | join hd hp hall =>
    have haccepted := h.accepted
    rw [hd] at haccepted
    exact ⟨fun _ k => h.idle (by simp [hd]) k, h.requests, haccepted, Nat.le_refl n,
      (fun _ hd' => by cases hd'), h.overrun, h.exited, fun _ i => (hall i).1⟩

omit [Fintype κ] in
theorem Ending.outer (h : Ending s) (hstep : Outer s s') : Ending s' := by
  induction hstep with
  | log l msg hc _ halive => exact h.client halive fun policy' => ⟨by simp, by simp⟩
  | flush l hc _ halive => exact h.client halive fun policy' => ⟨by simp, by simp⟩
  | destroy halive hall =>
    have haccepted := h.accepted
    rw [halive] at haccepted
    exact ⟨fun _ k => hall k, h.requests, haccepted, Nat.zero_le n, (fun _ hd' => by cases hd'),
      h.overrun, h.exited, fun hd' => by cases hd'⟩
  | wake hq =>
    exact ⟨fun hd k => h.idle_queue hq (by simp) hd k, h.requests, h.accepted, h.posted,
      h.calling, h.overrun, h.exited, h.joined⟩

section Reached

variable {q_max_items : Nat} {h : q_max_items + 1 < 2 ^ 64} (hreached : Reached q_max_items h s)
include hreached

theorem ending_of_reached : Ending s := by
  induction hreached with
  | refl => exact ending_start q_max_items h
  | tail hreached hstep ih =>
    obtain hstep | hstep := hstep
    · exact ih.inner (linked_of_reached hreached) (accounts_of_reached hreached) hstep
    · exact ih.outer hstep

end Reached

omit [DecidableEq κ] [Fintype κ] in
/-- The terminate messages that left the queue are those that the threads took. -/
theorem sum_taken {left : List (Departure n)}
    (h : ∀ d ∈ left, d.isOverrun = true → d.msg ≠ .terminate) :
    (left.map Departure.msg).count .terminate =
      ∑ i, (left.filterMap (Departure.takenBy i)).count .terminate := by
  induction left with
  | nil => simp
  | cons d left ih =>
    have ih := ih fun d hd => h d (List.mem_cons_of_mem _ hd)
    rw [List.map_cons, List.count_cons, ih]
    rcases d with ⟨j, m⟩ | m
    · have heach : ∀ i, ((Departure.dequeued j m :: left).filterMap (Departure.takenBy i)).count
          .terminate = (left.filterMap (Departure.takenBy i)).count .terminate +
            if j = i then (if m = .terminate then 1 else 0) else 0 := by
        intro i
        by_cases hij : j = i
        · simp [Departure.takenBy, hij, List.count_cons]
        · simp [Departure.takenBy, hij]
      rw [Finset.sum_congr rfl fun i _ => heach i, Finset.sum_add_distrib, Finset.sum_ite_eq]
      simp [Departure.msg]
    · have hm : m ≠ .terminate := h _ (List.mem_cons_self ..) rfl
      have heach : ∀ i : Fin n, (Departure.overrun m :: left).filterMap (Departure.takenBy i) =
          left.filterMap (Departure.takenBy i) := fun i => rfl
      simp [Departure.msg, hm, heach]

omit [DecidableEq κ] [Fintype κ] in
/-- As many of them left the queue as threads have exited. -/
theorem Ending.sum_exits (h : Ending s) :
    (s.seen.left.map Departure.msg).count .terminate = ∑ i, (s.workers i).exits := by
  rw [sum_taken h.overrun]
  exact Finset.sum_congr rfl fun i _ => h.exited i

omit [DecidableEq κ] in
/-- Once every thread has exited, the queue is empty. -/
theorem Ending.drained (h : Ending s) (ha : Accounts s) (hn : 0 < n)
    (hexited : ∀ i, s.workers i = .exited) : s.messages = [] := by
  have htaken : (s.seen.left.map Departure.msg).count .terminate = n := by
    have heach : ∀ i, (s.workers i).exits = 1 := by
      intro i
      rw [hexited i]
      rfl
    rw [h.sum_exits, Finset.sum_congr rfl fun i _ => heach i]
    simp
  obtain ⟨before, haccepted, hbefore⟩ := h.accepted
  have hcount := congrArg (List.count AsyncMsg.terminate) haccepted
  rw [ha.fifo, List.count_append, htaken, List.count_append, List.count_replicate_self,
    List.count_eq_zero_of_not_mem hbefore] at hcount
  have hposted := h.posted
  by_contra hne
  -- the last message that was accepted asks to terminate, and it is not in the queue
  have hlast := congrArg List.getLast? (ha.fifo.symm.trans haccepted)
  rw [List.getLast?_append_of_ne_nil _ hne, List.getLast?_append_of_ne_nil _
    (List.ne_nil_of_length_pos (by rw [List.length_replicate]; omega)),
    List.getLast?_replicate, if_neg (by omega)] at hlast
  have hmem := List.mem_of_getLast? hlast
  have := List.count_pos_iff.mpr hmem
  omega

omit [DecidableEq κ] in
/-- Once every terminate message was posted and the queue is empty, every thread has exited. -/
theorem Ending.all_exited (h : Ending s) (ha : Accounts s) (hposted : s.destructor.posted n = n)
    (hempty : s.messages = []) (i : Fin n) : s.workers i = .exited := by
  obtain ⟨before, haccepted, hbefore⟩ := h.accepted
  have hcount := congrArg (List.count AsyncMsg.terminate) haccepted
  rw [ha.fifo, hempty, List.append_nil, h.sum_exits, List.count_append,
    List.count_replicate_self, List.count_eq_zero_of_not_mem hbefore, hposted, Nat.zero_add]
    at hcount
  have hle : ∀ j, (s.workers j).exits ≤ 1 := by
    intro j
    cases s.workers j
    all_goals simp [Worker.exits]
  by_contra hne
  have hzero : (s.workers i).exits < 1 := by
    cases hw : s.workers i with
    | exited => exact absurd hw hne
    | working todo => exact Nat.zero_lt_one
    | dequeuing => exact Nat.zero_lt_one
  have hlt := Finset.sum_lt_sum (fun j _ => hle j) ⟨i, Finset.mem_univ i, hzero⟩
  rw [Finset.sum_const, Finset.card_univ, Fintype.card_fin, nsmul_eq_mul, mul_one] at hlt
  exact absurd hcount (Nat.ne_of_lt hlt)

/-- **The destructor drains the pool**: when it has returned, every message that was ever
accepted was overrun, or taken by a thread and served to its end. -/
theorem drains {q_max_items : Nat} {h : q_max_items + 1 < 2 ^ 64}
    (hreached : Reached q_max_items h s) (hn : 0 < n) (hd : s.destructor = .destroyed) :
    s.messages = [] ∧ s.seen.accepted = s.seen.left.map Departure.msg ∧
      ∀ i, s.workers i = .exited ∧
        s.servedBy i = (s.takenBy i).flatMap AsyncMsg.actions := by
  have hending := ending_of_reached hreached
  have haccounts := accounts_of_reached hreached
  have hempty := hending.drained haccounts hn (hending.joined hd)
  refine ⟨hempty, ?_, fun i => ⟨hending.joined hd i, ?_⟩⟩
  · rw [haccounts.fifo, hempty, List.append_nil]
  · rw [haccounts.served i, hending.joined hd i]
    exact (List.append_nil _).symm

/-- A message that is posted before the destructor begins, and done before it returns. -/
theorem drains_one : ∃ s : ThreadPool 1 Unit, s.destructor = .destroyed ∧
    s.seen.accepted = [.log oneSink ⟨.info, []⟩, .terminate] ∧ s.messages = [] ∧
      s.seen.accepted = s.seen.left.map Departure.msg ∧
        ∀ i, s.workers i = .exited ∧
          s.servedBy i = (s.takenBy i).flatMap AsyncMsg.actions := by
  have h₀ : Reached 2 (by decide) (start Unit 2 (by decide) 1) := .refl
  have h₁ := h₀.tail (.inr (.log (k := ()) oneSink ⟨.info, []⟩ rfl rfl rfl))
  have h₂ := h₁.tail (.inl (.post (k := ()) rfl (.call _ rfl)))
  have h₃ := h₂.tail (.inl (.queue (.lock (t := .client ()) rfl rfl) trivial trivial))
  have h₄ := h₃.tail (.inl (.posted (k := ()) rfl
    (.commit (m := QueueCall.enqueue (.log oneSink ⟨.info, []⟩)) rfl rfl)))
  have h₅ := h₄.tail (.inl (.queue (.unlock (t := .client ()) rfl rfl (by decide)) trivial trivial))
  have h₆ := h₅.tail (.inl (.queue (.notifyNone (t := .client ()) rfl rfl (by decide))
    trivial trivial))
  -- the destructor asks the thread to terminate
  have h₇ := h₆.tail (.inr (.destroy rfl fun _ => ⟨rfl, rfl⟩))
  have h₈ := h₇.tail (.inl (.terminate rfl (by decide) (.call _ rfl)))
  have h₉ := h₈.tail (.inl (.queue (.lock (t := .destructor) rfl rfl) trivial trivial))
  have h₁₀ := h₉.tail (.inl (.terminated rfl
    (.commit (m := QueueCall.enqueue .terminate) rfl rfl)))
  have h₁₁ := h₁₀.tail (.inl (.queue (.unlock (t := .destructor) rfl rfl (by decide))
    trivial trivial))
  have h₁₂ := h₁₁.tail (.inl (.queue (.notifyNone (t := .destructor) rfl rfl (by decide))
    trivial trivial))
  -- the thread takes the message
  have h₁₃ := h₁₂.tail (.inl (.dequeue (i := 0) rfl (.call _ rfl)))
  have h₁₄ := h₁₃.tail (.inl (.queue (.lock (t := .worker 0) rfl rfl) trivial trivial))
  have h₁₅ := h₁₄.tail (.inl (.dequeued (i := 0) rfl (.commit (m := QueueCall.dequeue) rfl rfl)))
  have h₁₆ := h₁₅.tail (.inl (.queue (.unlock (t := .worker 0) rfl rfl (by decide))
    trivial trivial))
  have h₁₇ := h₁₆.tail (.inl (.queue (.notifyNone (t := .worker 0) rfl rfl (by decide))
    trivial trivial))
  have h₁₈ := h₁₇.tail (.inl (.act (i := 0) rfl rfl))
  -- and then what asks it to terminate
  have h₁₉ := h₁₈.tail (.inl (.dequeue (i := 0) rfl (.call _ rfl)))
  have h₂₀ := h₁₉.tail (.inl (.queue (.lock (t := .worker 0) rfl rfl) trivial trivial))
  have h₂₁ := h₂₀.tail (.inl (.dequeued (i := 0) rfl (.commit (m := QueueCall.dequeue) rfl rfl)))
  have h₂₂ := h₂₁.tail (.inl (.queue (.unlock (t := .worker 0) rfl rfl (by decide))
    trivial trivial))
  have h₂₃ := h₂₂.tail (.inl (.queue (.notifyNone (t := .worker 0) rfl rfl (by decide))
    trivial trivial))
  have h₂₄ := h₂₃.tail (.inl (.join rfl rfl fun | 0 => ⟨rfl, rfl⟩))
  exact ⟨_, rfl, rfl, drains h₂₄ (by decide) rfl⟩

end ThreadPool

end Spdlog
