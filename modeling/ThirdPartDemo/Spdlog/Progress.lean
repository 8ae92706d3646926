import ThirdPartDemo.Spdlog.Shutdown

/-!
# spdlog — the thread pool does not get stuck

A client that flushes waits for the promise that its message holds. As long as the
promise is pending, the message is in the queue, or a thread has taken it, or it was
overrun last and still lies in its cell, where nothing destroys it.

* `awaited_of_reached` — where the message of a pending flush is;
* `exists_inner_of_step` — what a thread does in the queue is a step of the pool;
* `AtRest.rested` — where no thread can go on, the queue is empty, the destructor is not at work,
  and no client waits but for a message that was overrun.
-/

namespace Spdlog

open Library MpmcBlockingQueue

/-- The promise that a message holds. -/
def AsyncMsg.promise : AsyncMsg → Option Nat
  | .flush _ promise => some promise
  | _ => none

/-- The promise that a client has made and waits for, or will wait for. -/
def Client.promise : Client → Option Nat
  | .idle => none
  | .posting m _ | .calling m _ | .counting m => m.promise
  | .awaiting promise => some promise

theorem posted_promise (m : AsyncMsg) : (Client.posted m).promise = m.promise := by
  cases m
  all_goals rfl

theorem posted_awaiting {m : AsyncMsg} {p : Nat} (h : Client.posted m = .awaiting p) :
    ∃ l, m = .flush l p := by
  cases m with
  | flush l q =>
    cases h
    exact ⟨l, rfl⟩
  | log l msg => cases h
  | terminate => cases h

namespace MpmcBlockingQueue

/-- What was in the queue is still there after a push, or was overrun and lies in its cell. -/
theorem mem_push {T : Type} (q : MpmcBlockingQueue T) {item x : T}
    (h : x ∈ q.messages ++ [item]) :
    x ∈ (q.push item).messages ∨ (q.push item).leftover = some x := by
  cases hfull : q.q_.full with
  | false =>
    rw [(q.push_of_not_full hfull item).1]
    exact .inl h
  | true =>
    obtain ⟨oldest, kept, hmessages⟩ := List.exists_cons_of_ne_nil
      (List.append_ne_nil_of_right_ne_nil q.messages (List.cons_ne_nil item []))
    obtain ⟨hkept, hleftover, -⟩ := q.push_of_full hfull item hmessages
    rw [hmessages] at h
    rcases List.mem_cons.mp h with rfl | h
    · exact .inr hleftover
    · rw [hkept]
      exact .inl h

/-- What lies in its cell after a push was overrun by it. -/
theorem mem_overrun {T : Type} (q : MpmcBlockingQueue T) {item x : T}
    (h : (q.push item).leftover = some x) : x ∈ q.overrun item := by
  cases hfull : q.q_.full with
  | false =>
    rw [(q.push_of_not_full hfull item).2.1] at h
    cases h
  | true =>
    obtain ⟨oldest, kept, hmessages⟩ := List.exists_cons_of_ne_nil
      (List.append_ne_nil_of_right_ne_nil q.messages (List.cons_ne_nil item []))
    rw [(q.push_of_full hfull item hmessages).2.1] at h
    rw [overrun, if_pos hfull, hmessages, Option.some.inj h]
    exact List.mem_singleton_self _

end MpmcBlockingQueue

namespace ThreadPool

-- ---------------------------------------------------------------------------
-- Promises
-- ---------------------------------------------------------------------------

theorem length_settle (outcome : Promise) (promises : List Promise) (p : Nat) :
    (settle outcome promises p).length = promises.length := by
  unfold settle
  split
  · exact List.length_set
  · rfl

theorem length_destroy (promises : List Promise) (gone : Option AsyncMsg) :
    (destroy promises gone).length = promises.length := by
  unfold destroy
  split
  · exact length_settle ..
  · rfl

theorem length_perform (promises : List Promise) (a : Action) :
    (perform promises a).length = promises.length := by
  unfold perform
  split
  · exact length_settle ..
  · rfl

/-- A promise that is still pending is another one than that which was settled. -/
theorem pending_of_settle {outcome : Promise} (houtcome : outcome ≠ .pending)
    {promises : List Promise} {p q : Nat}
    (h : (settle outcome promises p)[q]? = some .pending) :
    promises[q]? = some .pending ∧ q ≠ p := by
  unfold settle at h
  split at h
  next hp =>
    rw [List.getElem?_set] at h
    split at h
    next heq =>
      split at h
      · exact absurd (Option.some.inj h) houtcome
      · cases h
    next hne => exact ⟨h, Ne.symm hne⟩
  next hp =>
    refine ⟨h, ?_⟩
    rintro rfl
    exact hp h

theorem pending_of_destroy {promises : List Promise} {gone : Option AsyncMsg} {q : Nat}
    (h : (destroy promises gone)[q]? = some .pending) :
    promises[q]? = some .pending ∧ ∀ l, gone ≠ some (.flush l q) := by
  unfold destroy at h
  split at h
  next l p =>
    obtain ⟨hpending, hne⟩ := pending_of_settle (by decide) h
    refine ⟨hpending, ?_⟩
    rintro l' heq
    cases heq
    exact hne rfl
  next hother =>
    refine ⟨h, ?_⟩
    rintro l rfl
    exact hother l q rfl

theorem pending_of_perform {promises : List Promise} {a : Action} {q : Nat}
    (h : (perform promises a)[q]? = some .pending) :
    promises[q]? = some .pending ∧ a ≠ .set_value q := by
  unfold perform at h
  split at h
  next p =>
    obtain ⟨hpending, hne⟩ := pending_of_settle (by decide) h
    refine ⟨hpending, ?_⟩
    rintro heq
    cases heq
    exact hne rfl
  next hother =>
    refine ⟨h, ?_⟩
    rintro rfl
    exact hother q rfl

variable {n : Nat} {κ : Type} [DecidableEq κ]

-- ---------------------------------------------------------------------------
-- Where the message of a flush is
-- ---------------------------------------------------------------------------

/-- The message of a flush is in the queue, or a thread has taken it, or it was overrun
last and lies in its cell. -/
def Held (shared : MpmcBlockingQueue AsyncMsg) (workers : Fin n → Worker) (p : Nat) : Prop :=
  (∃ l, .flush l p ∈ shared.messages) ∨ (∃ i, .set_value p ∈ (workers i).todo) ∨
    ∃ l, shared.leftover = some (.flush l p)

/-- The promises of the clients were made, and the messages of those that are pending
have not been lost. -/
structure Awaited (s : ThreadPool n κ) : Prop where
  fresh : ∀ k p, (s.clients k).promise = some p → p < s.promises.length
  held : ∀ k p, s.clients k = .awaiting p → s.promises[p]? = some .pending →
    Held s.q_.shared s.workers p

variable {s s' : ThreadPool n κ}

omit [DecidableEq κ] in
theorem awaited_start (q_max_items : Nat) (h : q_max_items + 1 < 2 ^ 64) :
    Awaited (start κ q_max_items h n) where
  fresh k p hp := by cases hp
  held k p hp := by cases hp

theorem Held.congr {shared : MpmcBlockingQueue AsyncMsg} {workers workers' : Fin n → Worker}
    {p : Nat} (h : Held shared workers p) (htodo : ∀ i, (workers' i).todo = (workers i).todo) :
    Held shared workers' p := by
  obtain h | ⟨i, h⟩ | h := h
  · exact .inl h
  · rw [← htodo i] at h
    exact .inr (.inl ⟨i, h⟩)
  · exact .inr (.inr h)

/-- A push destroys what lay in the cell, whose promise is not pending any more. -/
theorem Held.push {shared : MpmcBlockingQueue AsyncMsg} {workers : Fin n → Worker} {p : Nat}
    {promises : List Promise} (h : Held shared workers p) (m : AsyncMsg)
    (hpending : (destroy promises shared.leftover)[p]? = some .pending) :
    Held (shared.push m) workers p := by
  obtain ⟨l, h⟩ | h | ⟨l, h⟩ := h
  · obtain hmem | hleftover := shared.mem_push (List.mem_append_left [m] h)
    · exact .inl ⟨l, hmem⟩
    · exact .inr (.inr ⟨l, hleftover⟩)
  · exact .inr (.inl h)
  · exact absurd h ((pending_of_destroy hpending).2 l)

theorem held_posted (shared : MpmcBlockingQueue AsyncMsg) (workers : Fin n → Worker)
    (l : AsyncLogger) (p : Nat) : Held (shared.push (.flush l p)) workers p := by
  obtain hmem | hleftover := shared.mem_push
    (List.mem_append_right shared.messages (List.mem_singleton_self (AsyncMsg.flush l p)))
  · exact .inl ⟨l, hmem⟩
  · exact .inr (.inr ⟨l, hleftover⟩)

/-- A client goes on; what it comes to wait for is held. -/
theorem Awaited.client (h : Awaited s) {k : κ} {c : Client}
    (hclients : s'.clients = Function.update s.clients k c)
    (hlength : s.promises.length ≤ s'.promises.length)
    (hpromise : ∀ p, c.promise = some p → p < s'.promises.length)
    (hpending : ∀ p : Nat, p < s.promises.length → s'.promises[p]? = some .pending →
      s.promises[p]? = some .pending ∧
        (Held s.q_.shared s.workers p → Held s'.q_.shared s'.workers p))
    (hawaiting : ∀ p, c = .awaiting p → s'.promises[p]? = some .pending →
      Held s'.q_.shared s'.workers p) : Awaited s' where
  fresh j p hp := by
    rw [hclients, Function.update_apply] at hp
    split at hp
    · exact hpromise p hp
    · exact lt_of_lt_of_le (h.fresh j p hp) hlength
  held j p hp hpending' := by
    rw [hclients, Function.update_apply] at hp
    split at hp
    · exact hawaiting p hp hpending'
    · have hfresh := h.fresh j p (by rw [hp]; rfl)
      obtain ⟨hbefore, hheld⟩ := hpending p hfresh hpending'
      exact hheld (h.held j p hp hbefore)

omit [DecidableEq κ] in
/-- The clients stay where they are. -/
theorem Awaited.others (h : Awaited s) (hclients : s'.clients = s.clients)
    (hlength : s.promises.length ≤ s'.promises.length)
    (hpending : ∀ p : Nat, s'.promises[p]? = some .pending → s.promises[p]? = some .pending ∧
      (Held s.q_.shared s.workers p → Held s'.q_.shared s'.workers p)) : Awaited s' where
  fresh k p hp := by
    rw [hclients] at hp
    exact lt_of_lt_of_le (h.fresh k p hp) hlength
  held k p hp hpending' := by
    rw [hclients] at hp
    obtain ⟨hbefore, hheld⟩ := hpending p hpending'
    exact hheld (h.held k p hp hbefore)

theorem Awaited.inner [Fintype κ] (hl : Linked s) (h : Awaited s) (hstep : Inner s s') :
    Awaited s' := by
  induction hstep with
  | queue hq hsilent _ =>
    refine h.others rfl (Nat.le_refl _) fun p hp => ⟨hp, fun hheld => ?_⟩
    rw [(hq.silent hsilent).1]
    exact hheld
  | @dequeue i q_' hw hq =>
    refine h.others rfl (Nat.le_refl _) fun p hp => ⟨hp, fun hheld => ?_⟩
    rw [shared_call hq]
    exact hheld.congr (todo_update (by rw [hw]; rfl))
  | @dequeued i m q_' hw hq =>
    refine h.others rfl (Nat.le_refl _) fun p hp => ⟨hp, fun hheld => ?_⟩
    obtain ⟨hempty, hpop⟩ := commit_popped hq
    obtain ⟨hmessages, hleftover, -⟩ := pop_spec hempty
    rw [hpop] at hmessages hleftover
    obtain ⟨l, hmem⟩ | ⟨j, hmem⟩ | ⟨l, hmem⟩ := hheld
    · rw [hmessages] at hmem
      rcases List.mem_cons.mp hmem with rfl | hmem
      · -- the thread has it now
        refine .inr (.inl ⟨i, ?_⟩)
        show _ ∈ (Function.update s.workers i _ i).todo
        rw [Function.update_self, process_todo]
        exact List.mem_append_right _ (List.mem_singleton_self _)
      · exact .inl ⟨l, hmem⟩
    · have hne : j ≠ i := by
        rintro rfl
        rw [hw] at hmem
        cases hmem
      refine .inr (.inl ⟨j, ?_⟩)
      show _ ∈ (Function.update s.workers i _ j).todo
      rw [Function.update_of_ne hne]
      exact hmem
    · exact .inr (.inr ⟨l, hleftover.trans hmem⟩)
  | @act i a todo hw hp =>
    refine h.others rfl (Nat.le_of_eq (length_perform ..).symm) fun p hpending => ?_
    obtain ⟨hbefore, hne⟩ := pending_of_perform hpending
    refine ⟨hbefore, fun hheld => ?_⟩
    obtain hmem | ⟨j, hmem⟩ | hmem := hheld
    · exact .inl hmem
    · refine .inr (.inl ⟨j, ?_⟩)
      show _ ∈ (Function.update s.workers i (.working todo) j).todo
      rw [Function.update_apply]
      split
      next heq =>
        rw [heq, hw] at hmem
        exact (List.mem_cons.mp hmem).resolve_left (Ne.symm hne)
      next => exact hmem
    · exact .inr (.inr hmem)
  | @post k m policy q_' hc hq =>
    refine h.client (k := k) rfl (Nat.le_refl _) (fun p hp => ?_)
      (fun p _ hp => ⟨hp, fun hheld => ?_⟩) fun p heq => by cases heq
    · exact h.fresh k p (by rw [hc]; exact hp)
    · rw [shared_call hq]
      exact hheld
  | @posted k m policy gone q_' hc hq =>
    obtain ⟨hshared, rfl, -⟩ := hl.pushed hc hq
    refine h.client (k := k) rfl (Nat.le_of_eq (length_destroy ..).symm) (fun p hp => ?_)
      (fun p _ hpending => ⟨(pending_of_destroy hpending).1, fun hheld => ?_⟩) fun p heq _ => ?_
    · rw [posted_promise] at hp
      exact lt_of_lt_of_eq (h.fresh k p (by rw [hc]; exact hp)) (length_destroy ..).symm
    · rw [hshared]
      exact hheld.push m hpending
    · obtain ⟨l, rfl⟩ := posted_awaiting heq
      rw [hshared]
      exact held_posted ..
  | @discarded k m policy q_' hc hq =>
    refine h.client (k := k) rfl (Nat.le_refl _) (fun p hp => ?_)
      (fun p _ hp => ⟨hp, fun hheld => ?_⟩) fun p heq => by cases heq
    · exact h.fresh k p (by rw [hc]; exact hp)
    · rw [commit_discarded hq]
      exact hheld
  | @count k m hc hp =>
    refine h.client (k := k) rfl (Nat.le_of_eq (length_destroy ..).symm) (fun p hp => ?_)
      (fun p _ hpending => ⟨(pending_of_destroy hpending).1, fun hheld => hheld⟩)
      fun p heq hpending => ?_
    · rw [posted_promise] at hp
      exact lt_of_lt_of_eq (h.fresh k p (by rw [hc]; exact hp)) (length_destroy ..).symm
    · -- its message was destroyed
      obtain ⟨l, rfl⟩ := posted_awaiting heq
      exact absurd rfl ((pending_of_destroy hpending).2 l)
  | @get k promise hc hp _ =>
    exact h.client (k := k) rfl (Nat.le_refl _) (fun p hp => by cases hp)
      (fun p _ hp => ⟨hp, fun hheld => hheld⟩) fun p heq => by cases heq
  | terminate hd hlt hq =>
    refine h.others rfl (Nat.le_refl _) fun p hp => ⟨hp, fun hheld => ?_⟩
    rw [shared_call hq]
    exact hheld
  | @terminated posted gone q_' hd hq =>
    obtain ⟨hshared, rfl, -⟩ := hl.terminated hd hq
    refine h.others rfl (Nat.le_of_eq (length_destroy ..).symm) fun p hpending =>
      ⟨(pending_of_destroy hpending).1, fun hheld => ?_⟩
    rw [hshared]
    exact hheld.push _ hpending
  | join _ _ _ =>
    exact h.others rfl (Nat.le_refl _) fun p hp => ⟨hp, fun hheld => hheld⟩

theorem Awaited.outer (h : Awaited s) (hstep : Outer s s') : Awaited s' := by
  induction hstep with
  | @log k l msg hc _ _ =>
    exact h.client (k := k) rfl (Nat.le_refl _) (fun p hp => by cases hp)
      (fun p _ hp => ⟨hp, fun hheld => hheld⟩) fun p heq => by cases heq
  | @flush k l hc _ _ =>
    refine h.client (k := k) rfl ?_ (fun p hp => ?_) (fun p hlt hp => ⟨?_, fun hheld => hheld⟩)
      fun p heq => by cases heq
    · show s.promises.length ≤ (s.promises ++ [Promise.pending]).length
      rw [List.length_append]
      exact Nat.le_add_right ..
    · cases hp
      show s.promises.length < (s.promises ++ [Promise.pending]).length
      rw [List.length_append]
      exact Nat.lt_succ_self _
    · rw [List.getElem?_append_left hlt] at hp
      exact hp
  | destroy _ _ => exact h.others rfl (Nat.le_refl _) fun p hp => ⟨hp, fun hheld => hheld⟩
  | wake hq =>
    refine h.others rfl (Nat.le_refl _) fun p hp => ⟨hp, fun hheld => ?_⟩
    rw [(hq.silent trivial).1]
    exact hheld

theorem awaited_of_reached [Fintype κ] {q_max_items : Nat} {h : q_max_items + 1 < 2 ^ 64}
    (hreached : Reached q_max_items h s) : Awaited s := by
  induction hreached with
  | refl => exact awaited_start q_max_items h
  | tail hreached hstep ih =>
    obtain hstep | hstep := hstep
    · exact ih.inner (linked_of_reached hreached) hstep
    · exact ih.outer hstep

/-- What lies in its cell was overrun. -/
def Overran (s : ThreadPool n κ) : Prop :=
  ∀ m, s.q_.shared.leftover = some m → .overrun m ∈ s.seen.left

theorem Overran.step [Fintype κ] (hl : Linked s) (h : Overran s) (hstep : Step s s') :
    Overran s' := by
  obtain hstep | hstep := hstep
  · induction hstep with
    | queue hq hsilent _ =>
      intro m hm
      rw [(hq.silent hsilent).1] at hm
      exact h m hm
    | dequeue _ hq =>
      intro m hm
      rw [shared_call hq] at hm
      exact h m hm
    | dequeued _ hq =>
      intro m hm
      obtain ⟨hempty, hpop⟩ := commit_popped hq
      have hleftover := (pop_spec hempty).2.1
      rw [hpop] at hleftover
      exact List.mem_append_left _ (h m (hleftover.symm.trans hm))
    | post _ hq =>
      intro m hm
      rw [shared_call hq] at hm
      exact h m hm
    | @posted k m policy gone q_' hc hq =>
      intro x hx
      rw [(hl.pushed hc hq).1] at hx
      exact List.mem_append_right _ (List.mem_map_of_mem (mem_overrun _ hx))
    | discarded _ hq =>
      intro m hm
      rw [commit_discarded hq] at hm
      exact h m hm
    | terminate _ _ hq =>
      intro m hm
      rw [shared_call hq] at hm
      exact h m hm
    | @terminated posted gone q_' hd hq =>
      intro x hx
      rw [(hl.terminated hd hq).1] at hx
      exact List.mem_append_right _ (List.mem_map_of_mem (mem_overrun _ hx))
    | _ => exact h
  · induction hstep with
    | wake hq =>
      intro m hm
      rw [(hq.silent trivial).1] at hm
      exact h m hm
    | _ => exact h

theorem overran_of_reached [Fintype κ] {q_max_items : Nat} {h : q_max_items + 1 < 2 ^ 64}
    (hreached : Reached q_max_items h s) : Overran s := by
  induction hreached with
  | refl =>
    intro m hm
    rw [show (start κ q_max_items h n).q_.shared = ofMaxItems q_max_items h from rfl,
      leftover_ofMaxItems] at hm
    cases hm
  | tail hreached hstep ih => exact ih.step (linked_of_reached hreached) hstep

-- ---------------------------------------------------------------------------
-- Who can go on
-- ---------------------------------------------------------------------------

variable [Fintype κ]

omit [DecidableEq κ] in
theorem worker_calls {i : Fin n} {call : QueueCall AsyncMsg} (hl : Linked s)
    (h : (s.q_.phase (.worker i)).before = some call) :
    s.workers i = .dequeuing ∧ call = .dequeue := by
  rw [hl.calls, callOf] at h
  split at h
  next hw => exact ⟨hw, (Option.some.inj h).symm⟩
  next => cases h

omit [DecidableEq κ] in
theorem client_calls {k : κ} {call : QueueCall AsyncMsg} (hl : Linked s)
    (h : (s.q_.phase (.client k)).before = some call) :
    ∃ m policy, s.clients k = .calling m policy ∧ call = post_async_msg_ m policy := by
  rw [hl.calls, callOf] at h
  split at h
  next m policy hc => exact ⟨m, policy, hc, (Option.some.inj h).symm⟩
  next => cases h

omit [DecidableEq κ] in
theorem destructor_calls {call : QueueCall AsyncMsg} (hl : Linked s)
    (h : (s.q_.phase .destructor).before = some call) :
    ∃ posted, s.destructor = .calling posted ∧ call = .enqueue .terminate := by
  rw [hl.calls] at h
  cases hd : s.destructor with
  | calling posted =>
    simp only [callOf, hd] at h
    exact ⟨posted, rfl, (Option.some.inj h).symm⟩
  | alive => simp [callOf, hd] at h
  | destroying posted => simp [callOf, hd] at h
  | destroyed => simp [callOf, hd] at h

omit [DecidableEq κ] [Fintype κ] in
theorem post_ne_dequeue (m : AsyncMsg) (policy : OverflowPolicy) :
    post_async_msg_ m policy ≠ .dequeue := by
  cases policy
  all_goals simp [post_async_msg_]

/-- What a thread does in the queue is a step of the pool. -/
theorem exists_inner_of_step (hl : Linked s) {e q_'} (hq : Monitor.Step method s.q_ e q_')
    (he : e.inward) : ∃ s', Inner s s' := by
  cases e with
  | call t m => exact he.elim
  | wake t => exact he.elim
  | lock t => exact ⟨_, .queue hq trivial trivial⟩
  | wait t => exact ⟨_, .queue hq trivial trivial⟩
  | unlock t => exact ⟨_, .queue hq trivial trivial⟩
  | notify t => exact ⟨_, .queue hq trivial trivial⟩
  | commit t r =>
    obtain ⟨call, _, hp, -⟩ := hq.exists_body
    have hcall : (s.q_.phase t).before = some call := by rw [hp]; rfl
    have hreply := commit_reply hq hcall
    rcases t with i | k | _
    · obtain ⟨hw, rfl⟩ := worker_calls hl hcall
      obtain ⟨-, m, rfl⟩ | ⟨hne, -⟩ | ⟨m, hm, -⟩ := hreply
      · exact ⟨_, .dequeued hw hq⟩
      · exact absurd rfl hne
      · cases hm
    · obtain ⟨m, policy, hc, rfl⟩ := client_calls hl hcall
      obtain ⟨heq, -⟩ | ⟨-, gone, rfl⟩ | ⟨-, -, rfl⟩ := hreply
      · exact absurd heq (post_ne_dequeue m policy)
      · exact ⟨_, .posted hc hq⟩
      · exact ⟨_, .discarded hc hq⟩
    · obtain ⟨posted, hd, rfl⟩ := destructor_calls hl hcall
      obtain ⟨heq, -⟩ | ⟨-, gone, rfl⟩ | ⟨m, hm, -⟩ := hreply
      · cases heq
      · exact ⟨_, .terminated hd hq⟩
      · cases hm

/-- No thread can go on. -/
def AtRest (s : ThreadPool n κ) : Prop := ∀ s', ¬ Inner s s'

theorem AtRest.quiet (hrest : AtRest s) (hl : Linked s) (t : Thread n κ) :
    s.q_.phase t = .outside ∨ ∃ call, s.q_.phase t = .waiting call := by
  by_contra hphase
  have hbusy : (s.q_.phase t).busy := by
    rcases hp : s.q_.phase t with _ | call | call | call | ⟨call, r, notified⟩
    · exact hphase (.inl hp)
    · trivial
    · trivial
    · exact hphase (.inr ⟨call, hp⟩)
    · trivial
  obtain ⟨e, q_', he, hq⟩ := hl.locked.exists_step_of_busy hbusy
  obtain ⟨s', hstep⟩ := exists_inner_of_step hl hq he
  exact hrest s' hstep

/-- Where all rest, there is nothing for those who wait. -/
theorem AtRest.none_asleep (hrest : AtRest s) (hl : Linked s) {c : CondVar} {t : Thread n κ}
    (ht : (s.q_.phase t).sleeps method = some c) : need c s.q_.shared = 0 := by
  refine (hl.tickets c).none_asleep (fun u => ?_) ht
  obtain hp | ⟨call, hp⟩ := hrest.quiet hl u
  · rw [hp]
    exact ⟨rfl, rfl⟩
  · rw [hp]
    exact ⟨rfl, rfl⟩

/-- A thread of the pool has exited, or waits for a message. -/
theorem AtRest.worker (hrest : AtRest s) (hl : Linked s) (i : Fin n) :
    (s.workers i = .exited ∧ s.q_.phase (.worker i) = .outside) ∨
      (s.workers i = .dequeuing ∧ s.q_.phase (.worker i) = .waiting .dequeue) := by
  obtain hp | ⟨call, hp⟩ := hrest.quiet hl (.worker i)
  · left
    refine ⟨?_, hp⟩
    rcases hw : s.workers i with todo | _ | _
    · cases todo with
      | nil => exact (hrest _ (.dequeue hw (.call _ hp))).elim
      | cons a todo => exact (hrest _ (.act hw hp)).elim
    · have hcall := hl.calls (.worker i)
      rw [hp, callOf, hw] at hcall
      cases hcall
    · rfl
  · obtain ⟨hw, rfl⟩ := worker_calls hl (by rw [hp]; rfl)
    exact .inr ⟨hw, hp⟩

/-- With a message in the queue, every thread of the pool has exited. -/
theorem AtRest.exited (hrest : AtRest s) (hl : Linked s) (hne : s.messages ≠ []) (i : Fin n) :
    s.workers i = .exited := by
  obtain ⟨hw, -⟩ | ⟨-, hp⟩ := hrest.worker hl i
  · exact hw
  · have hzero := hrest.none_asleep hl (c := .push_cv_) (t := .worker i) (by rw [hp]; rfl)
    exact absurd (List.length_eq_zero_iff.mp hzero) hne

/-- With room in the queue, no client waits in it, nor the destructor. -/
theorem AtRest.outside (hrest : AtRest s) (hl : Linked s)
    (hroom : s.messages.length < s.q_.shared.capacity) {t : Thread n κ}
    (ht : ∀ i, t ≠ .worker i) : s.q_.phase t = .outside := by
  obtain hp | ⟨call, hp⟩ := hrest.quiet hl t
  · exact hp
  · exfalso
    have hwaits := hl.waits t call hp
    have hne : call ≠ .dequeue := by
      have hcall : (s.q_.phase t).before = some call := by rw [hp]; rfl
      rcases t with i | k | _
      · exact absurd rfl (ht i)
      · obtain ⟨m, policy, -, rfl⟩ := client_calls hl hcall
        exact post_ne_dequeue m policy
      · obtain ⟨posted, -, rfl⟩ := destructor_calls hl hcall
        simp
    have hsleeps : (s.q_.phase t).sleeps method = some .pop_cv_ := by
      rw [hp]
      cases call with
      | enqueue item => rfl
      | enqueue_nowait item => exact absurd rfl hwaits
      | enqueue_if_have_room item => exact absurd rfl hwaits
      | dequeue => exact absurd rfl hne
    have hzero : s.q_.shared.capacity - s.messages.length = 0 := hrest.none_asleep hl hsleeps
    omega

/-- A client rests when it is idle, or waits for a message that was overrun. -/
theorem AtRest.client (hrest : AtRest s) (hl : Linked s) (ha : Awaited s)
    (hempty : s.messages = []) {k : κ} (hp : s.q_.phase (.client k) = .outside) :
    s.clients k = .idle ∨ ∃ p l, s.clients k = .awaiting p ∧
      s.promises[p]? = some .pending ∧ s.q_.shared.leftover = some (.flush l p) := by
  rcases hc : s.clients k with _ | ⟨m, policy⟩ | ⟨m, policy⟩ | m | p
  · exact .inl rfl
  · exact (hrest _ (.post hc (.call _ hp))).elim
  · have hcall := hl.calls (.client k)
    rw [hp, callOf, hc] at hcall
    cases hcall
  · exact (hrest _ (.count hc hp)).elim
  · right
    by_cases hpending : s.promises[p]? = some .pending
    · obtain ⟨l, hmem⟩ | ⟨i, hmem⟩ | ⟨l, hleftover⟩ := ha.held k p hc hpending
      · rw [show s.q_.shared.messages = [] from hempty] at hmem
        cases hmem
      · obtain ⟨hw, -⟩ | ⟨hw, -⟩ := hrest.worker hl i
        all_goals
          rw [hw] at hmem
          cases hmem
      · exact ⟨p, l, rfl, hpending, hleftover⟩
    · exact (hrest _ (.get hc hp hpending)).elim

/-- The destructor rests before it has begun, and when it has returned. -/
theorem AtRest.destructor (hrest : AtRest s) (hl : Linked s) (ha : Accounts s) (he : Ending s)
    (hempty : s.messages = []) (hp : s.q_.phase .destructor = .outside) :
    s.destructor = .alive ∨ s.destructor = .destroyed := by
  rcases hd : s.destructor with _ | posted | posted | _
  · exact .inl rfl
  · exfalso
    have hle : posted ≤ n := by
      have := he.posted
      rwa [hd] at this
    obtain hlt | heq := Nat.lt_or_eq_of_le hle
    · exact hrest _ (.terminate hd hlt (.call _ hp))
    · rw [heq] at hd
      refine hrest _ (.join hd hp fun i => ?_)
      have hexited := he.all_exited ha (by rw [hd]; rfl) hempty i
      obtain h | ⟨hw, -⟩ := hrest.worker hl i
      · exact h
      · rw [hexited] at hw
        cases hw
  · have hcall := hl.calls .destructor
    simp [hp, callOf, hd, Monitor.Phase.before] at hcall
  · exact .inr rfl

/-- Nobody waits in vain, but for a flush that was overrun: the queue is empty, every thread
of the pool has exited or waits for a message, the destructor is not at work, and a client is
idle or waits for the promise of a message that was overrun last and that nothing destroys. -/
structure Rested (s : ThreadPool n κ) : Prop where
  empty : s.messages = []
  workers : ∀ i, s.workers i = .exited ∨ s.q_.phase (.worker i) = .waiting .dequeue
  destructor : s.destructor = .alive ∨ s.destructor = .destroyed
  clients : ∀ k, s.clients k = .idle ∨ ∃ p l, s.clients k = .awaiting p ∧
    s.promises[p]? = some .pending ∧ s.q_.shared.leftover = some (.flush l p)

section Reached

variable {q_max_items : Nat} {h : q_max_items + 1 < 2 ^ 64} (hreached : Reached q_max_items h s)
include hreached

theorem AtRest.rested (hrest : AtRest s) (hmax : 0 < q_max_items) (hn : 0 < n) : Rested s := by
  have hl := linked_of_reached hreached
  have ha := accounts_of_reached hreached
  have he := ending_of_reached hreached
  have hempty : s.messages = [] := by
    by_contra hne
    exact hne (he.drained ha hn (hrest.exited hl hne))
  have hroom : s.messages.length < s.q_.shared.capacity := by
    rw [capacity_of_reached hreached, hempty]
    exact hmax
  refine ⟨hempty, fun i => ?_, ?_, fun k => ?_⟩
  · obtain ⟨hw, -⟩ | ⟨-, hp⟩ := hrest.worker hl i
    · exact .inl hw
    · exact .inr hp
  · exact hrest.destructor hl ha he hempty (hrest.outside hl hroom (by simp))
  · exact hrest.client hl (awaited_of_reached hreached) hempty (hrest.outside hl hroom (by simp))

end Reached

end ThreadPool

end Spdlog
