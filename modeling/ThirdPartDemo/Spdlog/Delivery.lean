import ThirdPartDemo.Spdlog.ThreadPool

/-!
# spdlog — what becomes of the messages

* `accounts` — in every interleaving, the messages that were accepted are those that left
  the queue and those in it, in order, and each thread has done or still has to do
  exactly what the messages that it took ask for; the counters are exact;
* `delivers_in_order` — one thread, and loggers that do not overrun: the sinks are called
  for the accepted messages, in the order in which they were accepted;
* `flush_waits` — one thread: when a flush is done, so is everything that was accepted
  before it.
-/

namespace Spdlog

open Library MpmcBlockingQueue

/-- The message, if it was this thread that took it. -/
def Departure.takenBy {n : Nat} (i : Fin n) : Departure n → Option AsyncMsg
  | .dequeued j m => if j = i then some m else none
  | .overrun _ => none

def Departure.isOverrun {n : Nat} : Departure n → Bool
  | .overrun _ => true
  | .dequeued _ _ => false

/-- What a thread still has to do for the message that it took. -/
def Worker.todo : Worker → List Action
  | .working todo => todo
  | _ => []

/-- The overflow policy that a message is posted with. -/
def AsyncMsg.overflow_policy_ : AsyncMsg → OverflowPolicy
  | .log l _ | .flush l _ => l.overflow_policy_
  | .terminate => .block

def Client.counts : Client → Nat
  | .counting _ => 1
  | _ => 0

namespace ThreadPool

variable {n : Nat} {κ : Type} [DecidableEq κ]

/-- The messages that a thread took off the queue. -/
def takenBy (s : ThreadPool n κ) (i : Fin n) : List AsyncMsg :=
  s.seen.left.filterMap (Departure.takenBy i)

/-- What a thread has done. -/
def servedBy (s : ThreadPool n κ) (i : Fin n) : List Action :=
  (s.seen.served.filter fun a => a.1 = i).map Prod.snd

variable [Fintype κ]

/-- Where every message and every action is. -/
structure Accounts (s : ThreadPool n κ) : Prop where
  fifo : s.seen.accepted = s.seen.left.map Departure.msg ++ s.messages
  served : ∀ i, (s.takenBy i).flatMap AsyncMsg.actions = s.servedBy i ++ (s.workers i).todo
  overruns : s.q_.shared.q_.overrun_counter_ = size_t (s.seen.left.countP Departure.isOverrun)
  discards : s.seen.discarded.length = s.seen.counted + ∑ k, (s.clients k).counts
  counter : s.discard_counter_ = size_t s.seen.counted

theorem size_t_succ (k : Nat) : size_t (size_t k + 1) = size_t (k + 1) := Nat.mod_add_mod ..

theorem process_todo (m : AsyncMsg) : (process_next_msg_ m).todo = m.actions := by
  cases m
  all_goals rfl

omit [DecidableEq κ] in
theorem accounts_start (q_max_items : Nat) (h : q_max_items + 1 < 2 ^ 64) :
    Accounts (start κ q_max_items h n) where
  fifo := by
    simp [start, messages, MpmcBlockingQueue.messages, MpmcBlockingQueue.ofMaxItems,
      CircularQ.items_ofMaxItems]
  served i := rfl
  overruns := rfl
  discards := by simp [start, Client.counts]
  counter := rfl

variable {s s' : ThreadPool n κ}

/-- The clients that count, when one of them goes on. -/
theorem sum_counts (k : κ) (c : Client) (clients : κ → Client) :
    ∑ j, (Function.update clients k c j).counts + (clients k).counts =
      ∑ j, (clients j).counts + c.counts := sum_update Client.counts clients k c

omit [Fintype κ] [DecidableEq κ] in
theorem todo_update {workers : Fin n → Worker} {i : Fin n} {w : Worker}
    (h : w.todo = (workers i).todo) (j : Fin n) :
    (Function.update workers i w j).todo = (workers j).todo := by
  rw [Function.update_apply]
  split
  next heq => rw [heq, h]
  next => rfl

theorem counts_update {k : κ} {c : Client} {clients : κ → Client}
    (h : c.counts = (clients k).counts) :
    ∑ j, (Function.update clients k c j).counts = ∑ j, (clients j).counts := by
  have := sum_counts k c clients
  omega

omit [DecidableEq κ] [Fintype κ] in
theorem posted_counts (m : AsyncMsg) : (Client.posted m).counts = 0 := by
  cases m
  all_goals rfl

omit [Fintype κ] in
theorem shared_call {q q' : Monitor.State (Thread n κ) (QueueCall AsyncMsg) (QueueReply AsyncMsg)
      (MpmcBlockingQueue AsyncMsg)} {t : Thread n κ} {call : QueueCall AsyncMsg}
    (h : Monitor.Step method q (.call t call) q') : q'.shared = q.shared := by
  cases h with
  | call _ _ => rfl

omit [DecidableEq κ] in
/-- Steps that leave the messages and the actions where they are. -/
theorem Accounts.congr (h : Accounts s) {q_' destructor promises} {workers : Fin n → Worker}
    {clients : κ → Client}
    (hshared : q_'.shared = s.q_.shared) (htodo : ∀ i, (workers i).todo = (s.workers i).todo)
    (hcounts : ∑ k, (clients k).counts = ∑ k, (s.clients k).counts) :
    Accounts ⟨q_', s.discard_counter_, workers, clients, destructor, promises, s.seen⟩ where
  fifo := by
    show _ = _ ++ q_'.shared.messages
    rw [hshared]
    exact h.fifo
  served i := by
    show _ = _ ++ (workers i).todo
    rw [htodo]
    exact h.served i
  overruns := by
    show q_'.shared.q_.overrun_counter_ = _
    rw [hshared]
    exact h.overruns
  discards := by
    show _ = _ + ∑ k, (clients k).counts
    rw [hcounts]
    exact h.discards
  counter := h.counter

/-- Nobody takes what is overrun. -/
theorem takenBy_overrun (i : Fin n) (left : List (Departure n)) (ms : List AsyncMsg) :
    (left ++ ms.map Departure.overrun).filterMap (Departure.takenBy i) =
      left.filterMap (Departure.takenBy i) := by
  have hnone : ms.filterMap (Departure.takenBy i ∘ Departure.overrun) = [] :=
    List.filterMap_eq_nil_iff.mpr fun _ _ => rfl
  rw [List.filterMap_append, List.filterMap_map, hnone, List.append_nil]

omit [DecidableEq κ] in
/-- A message is pushed. -/
theorem Accounts.pushed (h : Accounts s) {q_' destructor promises} {clients : κ → Client}
    {m : AsyncMsg}
    (hshared : q_'.shared = s.q_.shared.push m)
    (hcounts : ∑ k, (clients k).counts = ∑ k, (s.clients k).counts) :
    Accounts ⟨q_', s.discard_counter_, s.workers, clients, destructor, promises, { s.seen with
      accepted := s.seen.accepted ++ [m]
      left := s.seen.left ++ (s.q_.shared.overrun m).map .overrun }⟩ where
  fifo := by
    show s.seen.accepted ++ [m] =
      (s.seen.left ++ (s.q_.shared.overrun m).map Departure.overrun).map Departure.msg ++
        q_'.shared.messages
    have hid : ((s.q_.shared.overrun m).map (Departure.overrun (n := n))).map Departure.msg =
        s.q_.shared.overrun m := by
      rw [List.map_map]
      exact List.map_id _
    rw [hshared, List.map_append, hid, List.append_assoc, overrun_append, h.fifo,
      List.append_assoc]
    rfl
  served i := by
    show ((s.seen.left ++ (s.q_.shared.overrun m).map Departure.overrun).filterMap
      (Departure.takenBy i)).flatMap _ = _
    rw [takenBy_overrun]
    exact h.served i
  overruns := by
    show q_'.shared.q_.overrun_counter_ = size_t ((s.seen.left ++ _).countP _)
    have hcount : ((s.q_.shared.overrun m).map (Departure.overrun (n := n))).countP
        Departure.isOverrun = if s.q_.shared.q_.full then 1 else 0 := by
      rw [List.countP_eq_length.mpr, List.length_map, length_overrun]
      intro d hd
      obtain ⟨x, -, rfl⟩ := List.mem_map.mp hd
      rfl
    rw [hshared, push_counter, List.countP_append, hcount, h.overruns]
    split
    · exact size_t_succ _
    · rfl
  discards := by
    show _ = _ + ∑ k, (clients k).counts
    rw [hcounts]
    exact h.discards
  counter := h.counter

theorem Accounts.inner (hl : Linked s) (h : Accounts s) (hstep : Inner s s') : Accounts s' := by
  induction hstep with
  | queue hq hsilent _ => exact h.congr (hq.silent hsilent).1 (fun _ => rfl) rfl
  | dequeue hw hq => exact h.congr (shared_call hq) (todo_update (by rw [hw]; rfl)) rfl
  | @dequeued i m q_' hw hq =>
    obtain ⟨hempty, hpop⟩ := commit_popped hq
    obtain ⟨hmessages, -, hcounter⟩ := pop_spec hempty
    rw [hpop] at hmessages hcounter
    refine ⟨?_, fun j => ?_, ?_, h.discards, h.counter⟩
    · show s.seen.accepted = (s.seen.left ++ [Departure.dequeued i m]).map Departure.msg ++
        q_'.shared.messages
      rw [h.fifo, messages, hmessages, List.map_append, List.append_assoc]
      rfl
    · show ((s.seen.left ++ [Departure.dequeued i m]).filterMap (Departure.takenBy j)).flatMap _ =
        s.servedBy j ++ (Function.update s.workers i (process_next_msg_ m) j).todo
      have hj := h.served j
      rw [List.filterMap_append, List.flatMap_append]
      by_cases hij : i = j
      · subst hij
        rw [hw] at hj
        rw [Function.update_self, process_todo]
        have hlast : [Departure.dequeued i m].filterMap (Departure.takenBy i) = [m] := by
          simp [Departure.takenBy]
        rw [hlast, List.flatMap_singleton]
        rw [show s.seen.left.filterMap (Departure.takenBy i) = s.takenBy i from rfl, hj]
        show s.servedBy i ++ [] ++ _ = _
        rw [List.append_nil]
      · rw [Function.update_of_ne (Ne.symm hij)]
        have hlast : [Departure.dequeued i m].filterMap (Departure.takenBy j) = [] := by
          simp [Departure.takenBy, hij]
        rw [hlast, List.flatMap_nil, List.append_nil]
        exact hj
    · show q_'.shared.q_.overrun_counter_ =
        size_t ((s.seen.left ++ [Departure.dequeued i m]).countP _)
      rw [hcounter, List.countP_append, h.overruns]
      rfl
  | @act i a todo hw hp =>
    refine ⟨h.fifo, fun j => ?_, h.overruns, h.discards, h.counter⟩
    show (s.takenBy j).flatMap _ =
      ((s.seen.served ++ [(i, a)]).filter fun b => b.1 = j).map Prod.snd ++
        (Function.update s.workers i (.working todo) j).todo
    have hj := h.served j
    rw [hj, List.filter_append, List.map_append, List.append_assoc]
    by_cases hij : i = j
    · subst hij
      rw [Function.update_self, hw]
      simp [servedBy, Worker.todo]
    · rw [Function.update_of_ne (Ne.symm hij)]
      simp [servedBy, hij]
  | post hc hq =>
    exact h.congr (shared_call hq) (fun _ => rfl) (counts_update (by rw [hc]; rfl))
  | @posted k m policy gone q_' hc hq =>
    obtain ⟨hshared, -⟩ := hl.pushed hc hq
    exact h.pushed hshared (counts_update (by rw [hc, posted_counts]; rfl))
  | @discarded k m policy q_' hc hq =>
    have hshared := commit_discarded hq
    have hsum := sum_counts k (.counting m) s.clients
    have hframe : Accounts ⟨q_', s.discard_counter_, s.workers, s.clients, s.destructor,
      s.promises, s.seen⟩ := h.congr hshared (fun _ => rfl) rfl
    refine ⟨hframe.fifo, hframe.served, hframe.overruns, ?_, h.counter⟩
    show (s.seen.discarded ++ [m]).length =
      s.seen.counted + ∑ j, (Function.update s.clients k (.counting m) j).counts
    have := h.discards
    rw [hc] at hsum
    rw [List.length_append, List.length_singleton]
    show _ = _
    have hzero : (Client.calling m policy).counts = 0 := rfl
    have hone : (Client.counting m).counts = 1 := rfl
    omega
  | @count k m hc hp =>
    have hsum := sum_counts k (.posted m) s.clients
    refine ⟨h.fifo, h.served, h.overruns, ?_, ?_⟩
    · show s.seen.discarded.length =
        s.seen.counted + 1 + ∑ j, (Function.update s.clients k (.posted m) j).counts
      have := h.discards
      rw [hc, posted_counts] at hsum
      have hone : (Client.counting m).counts = 1 := rfl
      omega
    · show size_t (s.discard_counter_ + 1) = size_t (s.seen.counted + 1)
      rw [h.counter, size_t_succ]
  | get hc hp _ => exact h.congr rfl (fun _ => rfl) (counts_update (by rw [hc]; rfl))
  | terminate hd hlt hq => exact h.congr (shared_call hq) (fun _ => rfl) rfl
  | terminated hd hq =>
    obtain ⟨hshared, -⟩ := hl.terminated hd hq
    exact h.pushed hshared rfl
  | join hd hp _ => exact h.congr rfl (fun _ => rfl) rfl

theorem Accounts.outer (h : Accounts s) (hstep : Outer s s') : Accounts s' := by
  induction hstep with
  | log l msg hc _ _ => exact h.congr rfl (fun _ => rfl) (counts_update (by rw [hc]; rfl))
  | flush l hc _ _ => exact h.congr rfl (fun _ => rfl) (counts_update (by rw [hc]; rfl))
  | destroy _ _ => exact h.congr rfl (fun _ => rfl) rfl
  | wake hq => exact h.congr (hq.silent trivial).1 (fun _ => rfl) rfl

-- ---------------------------------------------------------------------------
-- What the queue can do
-- ---------------------------------------------------------------------------

omit [Fintype κ] in
/-- A step leaves the queue alone, or is a step of the queue. -/
theorem Step.queue (h : Step s s') : s'.q_ = s.q_ ∨ ∃ e, Monitor.Step method s.q_ e s'.q_ := by
  obtain h | h := h
  · cases h
    case act | count | get | join => exact .inl rfl
    all_goals exact .inr ⟨_, by assumption⟩
  · cases h
    case wake => exact .inr ⟨_, by assumption⟩
    all_goals exact .inl rfl

omit [Fintype κ] in
theorem capacity_step {q q' : Monitor.State (Thread n κ) (QueueCall AsyncMsg) (QueueReply AsyncMsg)
      (MpmcBlockingQueue AsyncMsg)} {e} (h : Monitor.Step method q e q') :
    q'.shared.capacity = q.shared.capacity := by
  cases h with
  | @commit t m hready hp =>
    cases m with
    | enqueue x => exact push_capacity _ x
    | enqueue_nowait x => exact push_capacity _ x
    | enqueue_if_have_room x =>
      simp only [method, enqueue_if_have_room]
      split
      · exact push_capacity _ x
      · rfl
    | dequeue => rfl
  | _ => rfl

-- ---------------------------------------------------------------------------
-- Every reached state
-- ---------------------------------------------------------------------------

section Reached

variable {q_max_items : Nat} {h : q_max_items + 1 < 2 ^ 64} (hreached : Reached q_max_items h s)
include hreached

theorem linked_of_reached : Linked s := by
  induction hreached with
  | refl => exact linked_start q_max_items h
  | tail _ hstep ih =>
    obtain hstep | hstep := hstep
    · exact ih.inner hstep
    · exact ih.outer hstep

theorem accounts_of_reached : Accounts s := by
  induction hreached with
  | refl => exact accounts_start q_max_items h
  | tail hreached hstep ih =>
    obtain hstep | hstep := hstep
    · exact ih.inner (linked_of_reached hreached) hstep
    · exact ih.outer hstep

omit [Fintype κ] in
theorem capacity_of_reached : s.q_.shared.capacity = q_max_items := by
  induction hreached with
  | refl =>
    show size_t (q_max_items + 1) - 1 = q_max_items
    rw [size_t, Nat.mod_eq_of_lt h]
    omega
  | tail _ hstep ih =>
    obtain hq | ⟨e, hq⟩ := hstep.queue
    · rw [hq, ih]
    · rw [capacity_step hq, ih]

/-- **The messages are accounted for** in every interleaving: those that were accepted are
those that left the queue and those in it, in order; each thread has done, or has to do,
what the messages that it took ask for, in order; nothing else was lost than the
counters say, and the queue keeps its bound. -/
theorem accounts : Accounts s ∧ s.messages.length ≤ q_max_items := by
  refine ⟨accounts_of_reached hreached, ?_⟩
  rw [← capacity_of_reached hreached]
  exact length_messages_le _

end Reached

/-- A logger with one sink. -/
def oneSink : AsyncLogger := ⟨[⟨7, .trace⟩], .off, .block⟩

/-- A message for it. -/
def hello : LogMsg := ⟨.info, [104, 105]⟩

/-- A run in which a client logs a message and then asks for a flush, and the thread has
dealt with both. -/
theorem exists_logAndFlush : ∃ s : ThreadPool 1 Unit, Reached 2 (by decide) s ∧
    s.seen.accepted = [.log oneSink hello, .flush oneSink 0] ∧
    s.seen.left = [.dequeued 0 (.log oneSink hello), .dequeued 0 (.flush oneSink 0)] ∧
    s.promises = [.ready] := by
  have h₀ : Reached 2 (by decide) (start Unit 2 (by decide) 1) := .refl
  -- the client logs
  have h₁ := h₀.tail (.inr (.log (k := ()) oneSink hello rfl rfl rfl))
  have h₂ := h₁.tail (.inl (.post (k := ()) rfl (.call _ rfl)))
  have h₃ := h₂.tail (.inl (.queue (.lock (t := .client ()) rfl rfl) trivial trivial))
  have h₄ := h₃.tail (.inl (.posted (k := ()) rfl
    (.commit (m := QueueCall.enqueue (.log oneSink hello)) rfl rfl)))
  have h₅ := h₄.tail (.inl (.queue (.unlock (t := .client ()) rfl rfl (by decide)) trivial trivial))
  have h₆ := h₅.tail (.inl (.queue (.notifyNone (t := .client ()) rfl rfl (by decide))
    trivial trivial))
  -- it flushes
  have h₇ := h₆.tail (.inr (.flush (k := ()) oneSink rfl rfl rfl))
  have h₈ := h₇.tail (.inl (.post (k := ()) rfl (.call _ rfl)))
  have h₉ := h₈.tail (.inl (.queue (.lock (t := .client ()) rfl rfl) trivial trivial))
  have h₁₀ := h₉.tail (.inl (.posted (k := ()) rfl
    (.commit (m := QueueCall.enqueue (.flush oneSink 0)) rfl rfl)))
  have h₁₁ := h₁₀.tail (.inl (.queue (.unlock (t := .client ()) rfl rfl (by decide))
    trivial trivial))
  -- the thread takes the message
  have h₁₂ := h₁₁.tail (.inl (.dequeue (i := 0) rfl (.call _ rfl)))
  have h₁₃ := h₁₂.tail (.inl (.queue (.lock (t := .worker 0) rfl rfl) trivial trivial))
  have h₁₄ := h₁₃.tail (.inl (.dequeued (i := 0) rfl (.commit (m := QueueCall.dequeue) rfl rfl)))
  have h₁₅ := h₁₄.tail (.inl (.queue (.unlock (t := .worker 0) rfl rfl (by decide))
    trivial trivial))
  have h₁₆ := h₁₅.tail (.inl (.queue (.notifyNone (t := .worker 0) rfl rfl (by decide))
    trivial trivial))
  have h₁₇ := h₁₆.tail (.inl (.act (i := 0) rfl rfl))
  -- and the flush
  have h₁₈ := h₁₇.tail (.inl (.dequeue (i := 0) rfl (.call _ rfl)))
  have h₁₉ := h₁₈.tail (.inl (.queue (.lock (t := .worker 0) rfl rfl) trivial trivial))
  have h₂₀ := h₁₉.tail (.inl (.dequeued (i := 0) rfl (.commit (m := QueueCall.dequeue) rfl rfl)))
  have h₂₁ := h₂₀.tail (.inl (.queue (.unlock (t := .worker 0) rfl rfl (by decide))
    trivial trivial))
  have h₂₂ := h₂₁.tail (.inl (.queue (.notifyNone (t := .worker 0) rfl rfl (by decide))
    trivial trivial))
  have h₂₃ := h₂₂.tail (.inl (.act (i := 0) rfl rfl))
  have h₂₄ := h₂₃.tail (.inl (.act (i := 0) rfl rfl))
  exact ⟨_, h₂₄, rfl, rfl, rfl⟩

/-- That run is accounted for. -/
theorem accounts_logAndFlush : ∃ s : ThreadPool 1 Unit,
    s.seen.accepted = [.log oneSink hello, .flush oneSink 0] ∧
      Accounts s ∧ s.messages.length ≤ 2 := by
  obtain ⟨s, hreached, haccepted, -⟩ := exists_logAndFlush
  exact ⟨s, haccepted, accounts hreached⟩

-- ---------------------------------------------------------------------------
-- One thread
-- ---------------------------------------------------------------------------

/-- Messages are posted with the policies of their loggers, and one is overrun only if a
logger overruns. -/
structure Chosen (s : ThreadPool n κ) : Prop where
  policy : ∀ k m policy, s.clients k = .posting m policy ∨ s.clients k = .calling m policy →
    policy = m.overflow_policy_
  overrun : (∃ d ∈ s.seen.left, d.isOverrun = true) →
    ∃ m ∈ s.seen.accepted, m.overflow_policy_ = .overrun_oldest

omit [DecidableEq κ] [Fintype κ] in
theorem posted_posting (m' m : AsyncMsg) (policy : OverflowPolicy) :
    ¬ (Client.posted m' = .posting m policy ∨ Client.posted m' = .calling m policy) := by
  cases m'
  all_goals simp [Client.posted]

omit [Fintype κ] in
/-- What holds of the messages that are posted, when one of the clients goes on. -/
theorem posting_update {P : AsyncMsg → OverflowPolicy → Prop} {clients : κ → Client}
    (h : ∀ k m policy, clients k = .posting m policy ∨ clients k = .calling m policy →
      P m policy) {k : κ} {c : Client}
    (hc : ∀ m policy, c = .posting m policy ∨ c = .calling m policy → P m policy) (j : κ)
    (m : AsyncMsg) (policy : OverflowPolicy)
    (hj : Function.update clients k c j = .posting m policy ∨
      Function.update clients k c j = .calling m policy) : P m policy := by
  rw [Function.update_apply] at hj
  split at hj
  · exact hc m policy hj
  · exact h j m policy hj

theorem Chosen.inner (hl : Linked s) (h : Chosen s) (hstep : Inner s s') : Chosen s' := by
  induction hstep with
  | queue _ _ _ => exact ⟨h.policy, h.overrun⟩
  | dequeue _ _ => exact ⟨h.policy, h.overrun⟩
  | @dequeued i m _ _ _ =>
    refine ⟨h.policy, ?_⟩
    rintro ⟨d, hd, hoverrun⟩
    rcases List.mem_append.mp hd with hd | hd
    · exact h.overrun ⟨d, hd, hoverrun⟩
    · rw [List.mem_singleton.mp hd] at hoverrun
      cases hoverrun
  | act _ _ => exact ⟨h.policy, h.overrun⟩
  | @post k m policy _ hc _ =>
    refine ⟨posting_update h.policy fun m' policy' hj => ?_, h.overrun⟩
    simp only [reduceCtorEq, false_or, Client.calling.injEq] at hj
    obtain ⟨rfl, rfl⟩ := hj
    exact h.policy k m policy (.inl hc)
  | @posted k m policy gone _ hc hq =>
    refine ⟨posting_update h.policy fun m' policy' hj =>
      absurd hj (posted_posting m m' policy'), ?_⟩
    rintro ⟨d, hd, hoverrun⟩
    rcases List.mem_append.mp hd with hd | hd
    · obtain ⟨m', hm', hm''⟩ := h.overrun ⟨d, hd, hoverrun⟩
      exact ⟨m', List.mem_append_left _ hm', hm''⟩
    · obtain ⟨-, -, hfull⟩ := hl.pushed hc hq
      have hpolicy : policy = .overrun_oldest := by
        apply hfull
        by_contra hnot
        simp [MpmcBlockingQueue.overrun, hnot] at hd
      refine ⟨m, List.mem_append_right _ (List.mem_singleton_self m), ?_⟩
      rw [← h.policy k m policy (.inr hc), hpolicy]
  | discarded _ _ => exact ⟨posting_update h.policy (by simp), h.overrun⟩
  | @count k m _ _ =>
    exact ⟨posting_update h.policy fun m' policy' hj => absurd hj (posted_posting m m' policy'),
      h.overrun⟩
  | get _ _ _ => exact ⟨posting_update h.policy (by simp), h.overrun⟩
  | terminate _ _ _ => exact ⟨h.policy, h.overrun⟩
  | terminated hd hq =>
    refine ⟨h.policy, ?_⟩
    rintro ⟨d, hd', hoverrun⟩
    rcases List.mem_append.mp hd' with hd' | hd'
    · obtain ⟨m', hm', hm''⟩ := h.overrun ⟨d, hd', hoverrun⟩
      exact ⟨m', List.mem_append_left _ hm', hm''⟩
    · rw [(hl.terminated hd hq).2.2] at hd'
      cases hd'
  | join _ _ _ => exact ⟨h.policy, h.overrun⟩

omit [Fintype κ] in
theorem Chosen.outer (h : Chosen s) (hstep : Outer s s') : Chosen s' := by
  -- a client begins to post, with the policy of its logger
  have hrequest : ∀ x m policy, Client.posting x x.overflow_policy_ = .posting m policy ∨
      Client.posting x x.overflow_policy_ = .calling m policy → policy = m.overflow_policy_ := by
    intro x m policy hc
    simp only [reduceCtorEq, or_false, Client.posting.injEq] at hc
    obtain ⟨rfl, rfl⟩ := hc
    rfl
  induction hstep with
  | log l msg _ _ _ => exact ⟨posting_update h.policy (hrequest (.log l msg)), h.overrun⟩
  | flush l _ _ _ => exact ⟨posting_update h.policy (hrequest (.flush l _)), h.overrun⟩
  | destroy _ _ => exact ⟨h.policy, h.overrun⟩
  | wake _ => exact ⟨h.policy, h.overrun⟩

theorem chosen_of_reached {q_max_items : Nat} {h : q_max_items + 1 < 2 ^ 64}
    (hreached : Reached q_max_items h s) : Chosen s := by
  induction hreached with
  | refl => exact ⟨by simp [start], by simp [start]⟩
  | tail hreached hstep ih =>
    obtain hstep | hstep := hstep
    · exact ih.inner (linked_of_reached hreached) hstep
    · exact ih.outer hstep

omit [DecidableEq κ] [Fintype κ] in
/-- With one thread, what was served is what that thread has done. -/
theorem servedBy_zero (s : ThreadPool 1 κ) : s.servedBy 0 = s.seen.served.map Prod.snd := by
  unfold servedBy
  rw [List.filter_eq_self.mpr fun a _ => by simp [Subsingleton.elim a.1 0]]

/-- What left the queue without being overrun was taken by the one thread. -/
theorem takenBy_zero {left : List (Departure 1)} (h : ∀ d ∈ left, d.isOverrun = false) :
    left.filterMap (Departure.takenBy 0) = left.map Departure.msg := by
  rw [← List.filterMap_eq_map]
  apply List.filterMap_congr
  intro d hd
  rcases d with ⟨i, m⟩ | m
  · simp [Departure.takenBy, Departure.msg, Subsingleton.elim i 0]
  · cases h _ hd

/-- **One thread delivers in order**: unless a logger overruns, what was done, what is to
be done for the message that was taken, and what the messages in the queue ask for, is
what was asked for by the messages that were accepted, in that order. -/
theorem delivers_in_order {q_max_items : Nat} {h : q_max_items + 1 < 2 ^ 64}
    {s : ThreadPool 1 κ} (hreached : Reached q_max_items h s)
    (hpolicy : ∀ m ∈ s.seen.accepted, m.overflow_policy_ ≠ .overrun_oldest) :
    s.seen.served.map Prod.snd ++ (s.workers 0).todo ++ s.messages.flatMap AsyncMsg.actions =
      s.seen.accepted.flatMap AsyncMsg.actions := by
  have haccounts := accounts_of_reached hreached
  have hkept : ∀ d ∈ s.seen.left, d.isOverrun = false := by
    intro d hd
    by_contra hoverrun
    obtain ⟨m, hm, hm'⟩ := (chosen_of_reached hreached).overrun
      ⟨d, hd, Bool.not_eq_false _ ▸ hoverrun⟩
    exact hpolicy m hm hm'
  rw [← servedBy_zero, ← haccounts.served 0, takenBy, takenBy_zero hkept, ← List.flatMap_append,
    ← haccounts.fifo]

/-- A message and a flush, delivered in order. -/
theorem delivers_in_order_logAndFlush : ∃ s : ThreadPool 1 Unit,
    s.seen.accepted = [.log oneSink hello, .flush oneSink 0] ∧
      s.seen.served.map Prod.snd ++ (s.workers 0).todo ++ s.messages.flatMap AsyncMsg.actions =
        s.seen.accepted.flatMap AsyncMsg.actions := by
  obtain ⟨s, hreached, haccepted, -⟩ := exists_logAndFlush
  refine ⟨s, haccepted, delivers_in_order hreached ?_⟩
  rw [haccepted]
  decide

-- ---------------------------------------------------------------------------
-- Flushes
-- ---------------------------------------------------------------------------

omit [DecidableEq κ] [Fintype κ] in
/-- A promise gets its value only where it is settled so. -/
theorem ready_of_settle {outcome : Promise} {promises : List Promise} {p q : Nat}
    (h : (settle outcome promises p)[q]? = some .ready) :
    promises[q]? = some .ready ∨ outcome = .ready ∧ q = p := by
  unfold settle at h
  split at h
  · rw [List.getElem?_set] at h
    split at h
    next heq =>
      split at h
      · exact .inr ⟨Option.some.inj h, heq.symm⟩
      · cases h
    next => exact .inl h
  · exact .inl h

omit [DecidableEq κ] [Fintype κ] in
theorem ready_of_destroy {promises : List Promise} {gone : Option AsyncMsg} {q : Nat}
    (h : (destroy promises gone)[q]? = some .ready) : promises[q]? = some .ready := by
  unfold destroy at h
  split at h
  · obtain h | ⟨h, -⟩ := ready_of_settle h
    · exact h
    · cases h
  · exact h

/-- The promises that are ready have been set by a thread. -/
def Honest (s : ThreadPool n κ) : Prop :=
  ∀ p : Nat, s.promises[p]? = some .ready → ∃ i, (i, Action.set_value p) ∈ s.seen.served

omit [Fintype κ] in
theorem Honest.step (h : Honest s) (hstep : Step s s') : Honest s' := by
  obtain hstep | hstep := hstep
  · cases hstep with
    | @act i a todo hw hp =>
      intro p hready
      have hserved : s.promises[p]? = some .ready ∨ a = .set_value p := by
        cases a with
        | set_value q =>
          obtain hready | ⟨-, rfl⟩ := ready_of_settle hready
          · exact .inl hready
          · exact .inr rfl
        | log _ _ => exact .inl hready
        | flush _ => exact .inl hready
      obtain hready | rfl := hserved
      · obtain ⟨j, hj⟩ := h p hready
        exact ⟨j, List.mem_append_left _ hj⟩
      · exact ⟨i, List.mem_append_right _ (List.mem_singleton_self _)⟩
    | posted _ _ => exact fun p hready => h p (ready_of_destroy hready)
    | count _ _ => exact fun p hready => h p (ready_of_destroy hready)
    | terminated _ _ => exact fun p hready => h p (ready_of_destroy hready)
    | _ => exact h
  · cases hstep with
    | flush l _ _ _ =>
      intro p hready
      apply h p
      rw [List.getElem?_append] at hready
      split at hready
      · exact hready
      · rw [List.getElem?_singleton] at hready
        split at hready
        · cases hready
        · cases hready
    | _ => exact h

omit [Fintype κ] in
theorem honest_of_reached {q_max_items : Nat} {h : q_max_items + 1 < 2 ^ 64}
    (hreached : Reached q_max_items h s) : Honest s := by
  induction hreached with
  | refl => exact fun p hready => by simp [start] at hready
  | tail _ hstep ih => exact ih.step hstep

theorem flush_of_set_value {p : Nat} {m : AsyncMsg} (h : .set_value p ∈ m.actions) :
    ∃ l, m = .flush l p := by
  cases m with
  | log l msg =>
    simp only [AsyncMsg.actions, AsyncLogger.backend_sink_it_, List.mem_append, List.mem_map,
      reduceCtorEq, and_false, exists_false, false_or] at h
    split at h
    · simp [AsyncLogger.backend_flush_] at h
    · cases h
  | flush l q =>
    have hq : p = q := by simpa [AsyncMsg.actions, AsyncLogger.backend_flush_] using h
    exact ⟨l, by rw [hq]⟩
  | terminate => cases h

/-- A promise that was set among the actions of messages ends those of its flush. -/
theorem exists_flush {p : Nat} {ms : List AsyncMsg} {done rest : List Action}
    (heq : ms.flatMap AsyncMsg.actions = done ++ rest) (hmem : .set_value p ∈ done) :
    ∃ before l after, ms = before ++ .flush l p :: after ∧
      (before ++ [.flush l p]).flatMap AsyncMsg.actions <+: done := by
  induction ms generalizing done with
  | nil =>
    rw [List.flatMap_nil, eq_comm, List.append_eq_nil_iff] at heq
    rw [heq.1] at hmem
    cases hmem
  | cons m ms ih =>
    rw [List.flatMap_cons, List.append_eq_append_iff] at heq
    obtain ⟨done', rfl, heq⟩ | ⟨rest', hactions, -⟩ := heq
    · rcases List.mem_append.mp hmem with hmem | hmem
      · obtain ⟨l, rfl⟩ := flush_of_set_value hmem
        exact ⟨[], l, ms, rfl, by simp⟩
      · obtain ⟨before, l, after, rfl, hdone⟩ := ih heq hmem
        refine ⟨m :: before, l, after, rfl, ?_⟩
        rw [List.cons_append, List.flatMap_cons]
        exact (List.prefix_append_right_inj _).mpr hdone
    · obtain ⟨l, rfl⟩ := flush_of_set_value (hactions ▸ List.mem_append_left _ hmem)
      refine ⟨[], l, ms, rfl, ?_⟩
      -- the promise is the last action, so nothing of the message is left
      rcases List.eq_nil_or_concat rest' with rfl | ⟨rest', last, rfl⟩
      · simp [hactions]
      · rw [List.concat_eq_append, ← List.append_assoc] at hactions
        have hflush : l.backend_flush_ = done ++ rest' := (List.append_inj' hactions rfl).1
        have : Action.set_value p ∈ l.backend_flush_ := hflush ▸ List.mem_append_left _ hmem
        simp [AsyncLogger.backend_flush_] at this

omit [DecidableEq κ] [Fintype κ] in
/-- A message that was taken left the queue, behind those that were taken before. -/
theorem exists_departure {i : Fin n} {left : List (Departure n)} {m : AsyncMsg}
    {before after : List AsyncMsg}
    (h : left.filterMap (Departure.takenBy i) = before ++ m :: after) :
    ∃ earlier later, left = earlier ++ .dequeued i m :: later ∧
      earlier.filterMap (Departure.takenBy i) = before := by
  obtain ⟨x, tail, rfl, hx, htail⟩ := List.filterMap_eq_append_iff.mp h
  obtain ⟨y, d, z, rfl, hy, hd, -⟩ := List.filterMap_eq_cons_iff.mp htail
  refine ⟨x ++ y, z, ?_, ?_⟩
  · rw [List.append_assoc]
    congr 3
    rcases d with ⟨j, m'⟩ | m'
    · by_cases hj : j = i
      · rw [Departure.takenBy, if_pos hj] at hd
        rw [hj, Option.some.inj hd]
      · rw [Departure.takenBy, if_neg hj] at hd
        cases hd
    · cases hd
  · rw [List.filterMap_append, hx, List.filterMap_eq_nil_iff.mpr hy, List.append_nil]

/-- **A flush waits for what was accepted before it**, with one thread: when its promise is
ready, its message was accepted and then taken, and everything that the messages before it
ask for (but those that had left the queue by being overrun) has been done, and then its
own flushes. -/
theorem flush_waits {q_max_items : Nat} {h : q_max_items + 1 < 2 ^ 64} {s : ThreadPool 1 κ}
    (hreached : Reached q_max_items h s) {p : Nat} (hready : s.promises[p]? = some .ready) :
    ∃ (earlier : List (Departure 1)) (l : AsyncLogger) (later : List AsyncMsg),
      earlier ++ [.dequeued 0 (.flush l p)] <+: s.seen.left ∧
      s.seen.accepted = earlier.map Departure.msg ++ AsyncMsg.flush l p :: later ∧
      (earlier.filterMap (Departure.takenBy 0) ++ [AsyncMsg.flush l p]).flatMap AsyncMsg.actions <+:
        s.seen.served.map Prod.snd := by
  have haccounts := accounts_of_reached hreached
  obtain ⟨i, hi⟩ := honest_of_reached hreached p hready
  have hmem : .set_value p ∈ s.seen.served.map Prod.snd := List.mem_map_of_mem hi
  have hserved := haccounts.served 0
  rw [servedBy_zero] at hserved
  obtain ⟨before, l, after, htaken, hdone⟩ := exists_flush hserved hmem
  obtain ⟨earlier, later, hleft, rfl⟩ := exists_departure htaken
  refine ⟨earlier, l, later.map Departure.msg ++ s.messages, ⟨later, ?_⟩, ?_, hdone⟩
  · rw [hleft, List.append_assoc]
    rfl
  · rw [haccounts.fifo, hleft, List.map_append, List.map_cons, List.append_assoc]
    rfl

/-- A flush behind a message: both were taken, and the message was logged first. -/
theorem flush_waits_logAndFlush : ∃ s : ThreadPool 1 Unit,
    s.seen.left = [.dequeued 0 (.log oneSink hello), .dequeued 0 (.flush oneSink 0)] ∧
    ∃ (earlier : List (Departure 1)) (l : AsyncLogger) (later : List AsyncMsg),
      earlier ++ [.dequeued 0 (.flush l 0)] <+: s.seen.left ∧
      s.seen.accepted = earlier.map Departure.msg ++ AsyncMsg.flush l 0 :: later ∧
      (earlier.filterMap (Departure.takenBy 0) ++ [AsyncMsg.flush l 0]).flatMap AsyncMsg.actions <+:
        s.seen.served.map Prod.snd := by
  obtain ⟨s, hreached, -, hleft, hpromises⟩ := exists_logAndFlush
  exact ⟨s, hleft, flush_waits hreached (by rw [hpromises]; rfl)⟩

end ThreadPool

end Spdlog
