import ThirdPartDemo.Spdlog.MpmcBlockingQueue
import ThirdPartDemo.Library.FileSystem
import Mathlib.Data.Fintype.Sum
import Mathlib.Tactic.DeriveFintype

/-!
# spdlog — asynchronous loggers and their thread pool

Any number of clients log through asynchronous loggers and flush them, `n` threads take
the messages off the queue and hand them to the sinks, and the destructor asks every
thread to terminate and joins it. Each step of each thread through the queue's methods,
and each call of a sink, is a step of the model: its runs are the interleavings.

A client holds the pool while it posts and while it waits for a flush, so the destructor
begins when none does. What an observer has seen is kept in `Seen`, which nothing reads.
-/

namespace Spdlog

open Library MpmcBlockingQueue

/-- `level_enum` -/
inductive LevelEnum where
  | trace | debug | info | warn | err | critical | off
  deriving DecidableEq

/-- The value of a level. -/
def LevelEnum.value : LevelEnum → Nat
  | .trace => 0 | .debug => 1 | .info => 2 | .warn => 3 | .err => 4 | .critical => 5 | .off => 6

/-- `log_msg`, as far as it is read here. -/
structure LogMsg where
  level : LevelEnum
  payload : Bytes
  deriving DecidableEq

/-- A sink as a logger knows it. -/
structure Sink where
  id : Nat
  level_ : LevelEnum
  deriving DecidableEq

/-- `sink::should_log` -/
def Sink.should_log (s : Sink) (msg_level : LevelEnum) : Bool :=
  decide (msg_level.value ≥ s.level_.value)

/-- `async_overflow_policy` -/
inductive OverflowPolicy where
  | block             -- block until message can be enqueued
  | overrun_oldest    -- discard oldest message in the queue if full
  | discard_new       -- discard new message if the queue is full
  deriving DecidableEq

/-- `async_logger` -/
structure AsyncLogger where
  sinks_ : List Sink
  flush_level_ : LevelEnum
  overflow_policy_ : OverflowPolicy
  deriving DecidableEq

/-- `async_msg`; a promise is the number of its flush. -/
inductive AsyncMsg where
  | log (worker_ptr : AsyncLogger) (msg : LogMsg)
  | flush (worker_ptr : AsyncLogger) (flush_promise : Nat)
  | terminate
  deriving DecidableEq

/-- What a thread does for a message, one after the other. -/
inductive Action where
  | log (sink : Nat) (msg : LogMsg)
  | flush (sink : Nat)
  | set_value (promise : Nat)
  deriving DecidableEq

namespace AsyncLogger

variable (l : AsyncLogger)

/-- `should_flush_` -/
def should_flush_ (msg : LogMsg) : Bool :=
  decide (msg.level.value ≥ l.flush_level_.value) && msg.level != .off

/-- `backend_flush_`; a sink that throws does not keep the others from being flushed. -/
def backend_flush_ : List Action := l.sinks_.map fun s => .flush s.id

/-- `backend_sink_it_`; a sink that throws does not keep the others from the message. -/
def backend_sink_it_ (msg : LogMsg) : List Action :=
  ((l.sinks_.filter fun s => s.should_log msg.level).map fun s => .log s.id msg) ++
    if l.should_flush_ msg then l.backend_flush_ else []

end AsyncLogger

/-- What the thread that took a message does for it. -/
def AsyncMsg.actions : AsyncMsg → List Action
  | .log l msg => l.backend_sink_it_ msg
  | .flush l promise => l.backend_flush_ ++ [.set_value promise]
  | .terminate => []

/-- Where a thread of the pool is in `worker_loop_`. -/
inductive Worker where
  | working (todo : List Action)
  | dequeuing
  | exited

/-- `process_next_msg_`, after the message was dequeued. -/
def process_next_msg_ : AsyncMsg → Worker
  | .terminate => .exited
  | m => .working m.actions

/-- Where a client is in `async_logger::sink_it_` or `flush_`. -/
inductive Client where
  | idle
  | posting (m : AsyncMsg) (overflow_policy : OverflowPolicy)
  | calling (m : AsyncMsg) (overflow_policy : OverflowPolicy)
  | counting (m : AsyncMsg)          -- its message was discarded, which it counts
  | awaiting (promise : Nat)         -- future.get()

/-- Where `~thread_pool` is: how many threads it has asked to terminate. -/
inductive Destructor where
  | alive
  | destroying (posted : Nat)
  | calling (posted : Nat)
  | destroyed
  deriving DecidableEq

inductive Promise where
  | pending
  | ready
  | broken
  deriving DecidableEq

/-- `post_async_msg_` -/
def post_async_msg_ (m : AsyncMsg) : OverflowPolicy → QueueCall AsyncMsg
  | .block => .enqueue m
  | .overrun_oldest => .enqueue_nowait m
  | .discard_new => .enqueue_if_have_room m

/-- A client after its message was posted. -/
def Client.posted : AsyncMsg → Client
  | .flush _ promise => .awaiting promise
  | _ => .idle

/-- The threads. -/
inductive Thread (n : Nat) (κ : Type) where
  | worker (i : Fin n)
  | client (k : κ)
  | destructor
  deriving DecidableEq, Fintype

/-- How a message left the queue. -/
inductive Departure (n : Nat) where
  | dequeued (i : Fin n) (m : AsyncMsg)
  | overrun (m : AsyncMsg)

def Departure.msg {n : Nat} : Departure n → AsyncMsg
  | .dequeued _ m | .overrun m => m

/-- What an observer has seen. -/
structure Seen (n : Nat) where
  accepted : List AsyncMsg := []
  left : List (Departure n) := []
  discarded : List AsyncMsg := []
  counted : Nat := 0
  served : List (Fin n × Action) := []

/-- `thread_pool`, and those who use it. -/
structure ThreadPool (n : Nat) (κ : Type) where
  q_ : Monitor.State (Thread n κ) (QueueCall AsyncMsg) (QueueReply AsyncMsg)
    (MpmcBlockingQueue AsyncMsg)
  discard_counter_ : Nat
  workers : Fin n → Worker
  clients : κ → Client
  destructor : Destructor
  promises : List Promise
  seen : Seen n

namespace ThreadPool

variable {n : Nat} {κ : Type} [DecidableEq κ]

/-- `thread_pool(q_max_items, threads_n)` -/
def start (κ : Type) (q_max_items : Nat) (h : q_max_items + 1 < 2 ^ 64) (threads_n : Nat) :
    ThreadPool threads_n κ where
  q_ := ⟨.ofMaxItems q_max_items h, none, fun _ => .outside⟩
  discard_counter_ := 0
  workers _ := .working []
  clients _ := .idle
  destructor := .alive
  promises := []
  seen := {}

/-- A promise gets its value, or loses it with the message that held it. -/
def settle (outcome : Promise) (promises : List Promise) (promise : Nat) : List Promise :=
  if promises[promise]? = some .pending then promises.set promise outcome else promises

/-- A message is destroyed. -/
def destroy (promises : List Promise) : Option AsyncMsg → List Promise
  | some (.flush _ promise) => settle .broken promises promise
  | _ => promises

/-- A sink is called, or a promise is set. -/
def perform (promises : List Promise) : Action → List Promise
  | .set_value promise => settle .ready promises promise
  | _ => promises

/-- The messages in the queue. -/
def messages (s : ThreadPool n κ) : List AsyncMsg := s.q_.shared.messages

/-- What the threads do by themselves. -/
inductive Inner : ThreadPool n κ → ThreadPool n κ → Prop
  | queue {s e q_'} : Monitor.Step method s.q_ e q_' → e.silent → e.inward →
      Inner s { s with q_ := q_' }
  -- worker_loop_
  | dequeue {s i q_'} : s.workers i = .working [] →
      Monitor.Step method s.q_ (.call (.worker i) .dequeue) q_' →
      Inner s { s with q_ := q_', workers := Function.update s.workers i .dequeuing }
  | dequeued {s i m q_'} : s.workers i = .dequeuing →
      Monitor.Step method s.q_ (.commit (.worker i) (.popped m)) q_' →
      Inner s { s with
        q_ := q_'
        workers := Function.update s.workers i (process_next_msg_ m)
        seen := { s.seen with left := s.seen.left ++ [.dequeued i m] } }
  | act {s i a todo} : s.workers i = .working (a :: todo) → s.q_.phase (.worker i) = .outside →
      Inner s { s with
        workers := Function.update s.workers i (.working todo)
        promises := perform s.promises a
        seen := { s.seen with served := s.seen.served ++ [(i, a)] } }
  -- async_logger
  | post {s k m policy q_'} : s.clients k = .posting m policy →
      Monitor.Step method s.q_ (.call (.client k) (post_async_msg_ m policy)) q_' →
      Inner s { s with q_ := q_', clients := Function.update s.clients k (.calling m policy) }
  | posted {s k m policy gone q_'} : s.clients k = .calling m policy →
      Monitor.Step method s.q_ (.commit (.client k) (.pushed gone)) q_' →
      Inner s { s with
        q_ := q_'
        clients := Function.update s.clients k (.posted m)
        promises := destroy s.promises gone
        seen := { s.seen with
          accepted := s.seen.accepted ++ [m]
          left := s.seen.left ++ (s.q_.shared.overrun m).map .overrun } }
  | discarded {s k m policy q_'} : s.clients k = .calling m policy →
      Monitor.Step method s.q_ (.commit (.client k) .discarded) q_' →
      Inner s { s with
        q_ := q_'
        clients := Function.update s.clients k (.counting m)
        seen := { s.seen with discarded := s.seen.discarded ++ [m] } }
  | count {s k m} : s.clients k = .counting m → s.q_.phase (.client k) = .outside →
      Inner s { s with
        discard_counter_ := size_t (s.discard_counter_ + 1)
        clients := Function.update s.clients k (.posted m)
        promises := destroy s.promises (some m)
        seen := { s.seen with counted := s.seen.counted + 1 } }
  | get {s k promise} : s.clients k = .awaiting promise → s.q_.phase (.client k) = .outside →
      s.promises[promise]? ≠ some .pending →
      Inner s { s with clients := Function.update s.clients k .idle }
  -- ~thread_pool
  | terminate {s posted q_'} : s.destructor = .destroying posted → posted < n →
      Monitor.Step method s.q_ (.call .destructor (.enqueue .terminate)) q_' →
      Inner s { s with q_ := q_', destructor := .calling posted }
  | terminated {s posted gone q_'} : s.destructor = .calling posted →
      Monitor.Step method s.q_ (.commit .destructor (.pushed gone)) q_' →
      Inner s { s with
        q_ := q_'
        destructor := .destroying (posted + 1)
        promises := destroy s.promises gone
        seen := { s.seen with
          accepted := s.seen.accepted ++ [.terminate]
          left := s.seen.left ++ (s.q_.shared.overrun .terminate).map .overrun } }
  | join {s} : s.destructor = .destroying n → s.q_.phase .destructor = .outside →
      (∀ i, s.workers i = .exited ∧ s.q_.phase (.worker i) = .outside) →
      Inner s { s with destructor := .destroyed }

/-- What comes from outside: requests of clients, the end of the pool, a thread that is
woken without reason. -/
inductive Outer : ThreadPool n κ → ThreadPool n κ → Prop
  | log {s k} (l : AsyncLogger) (msg : LogMsg) : s.clients k = .idle →
      s.q_.phase (.client k) = .outside → s.destructor = .alive →
      Outer s { s with
        clients := Function.update s.clients k (.posting (.log l msg) l.overflow_policy_) }
  | flush {s k} (l : AsyncLogger) : s.clients k = .idle →
      s.q_.phase (.client k) = .outside → s.destructor = .alive →
      Outer s { s with
        promises := s.promises ++ [.pending]
        clients := Function.update s.clients k
          (.posting (.flush l s.promises.length) l.overflow_policy_) }
  | destroy {s} : s.destructor = .alive →
      (∀ k, s.clients k = .idle ∧ s.q_.phase (.client k) = .outside) →
      Outer s { s with destructor := .destroying 0 }
  | wake {s t q_'} : Monitor.Step method s.q_ (.wake t) q_' → Outer s { s with q_ := q_' }

/-- One step of the system. -/
def Step (s s' : ThreadPool n κ) : Prop := Inner s s' ∨ Outer s s'

/-- The states that a pool comes to. -/
def Reached (q_max_items : Nat) (h : q_max_items + 1 < 2 ^ 64) (s : ThreadPool n κ) : Prop :=
  Relation.ReflTransGen Step (start κ q_max_items h n) s

-- ---------------------------------------------------------------------------
-- The threads and their calls
-- ---------------------------------------------------------------------------

/-- The call of the queue that a thread is in. -/
def callOf (workers : Fin n → Worker) (clients : κ → Client) (destructor : Destructor) :
    Thread n κ → Option (QueueCall AsyncMsg)
  | .worker i => match workers i with
    | .dequeuing => some .dequeue
    | _ => none
  | .client k => match clients k with
    | .calling m policy => some (post_async_msg_ m policy)
    | _ => none
  | .destructor => match destructor with
    | .calling _ => some (.enqueue .terminate)
    | _ => none

/-- The threads are in the calls that they have made; the mutex is one; no wakeup is lost. -/
structure Linked [Fintype κ] (s : ThreadPool n κ) : Prop where
  calls : ∀ t, (s.q_.phase t).before = callOf s.workers s.clients s.destructor t
  locked : Monitor.Locked method s.q_
  waits : Monitor.Waits method s.q_
  tickets : ∀ c, Monitor.Tickets method need c s.q_

theorem callOf_worker (workers : Fin n → Worker) (clients : κ → Client) (destructor : Destructor)
    (i : Fin n) (w : Worker) (t : Thread n κ) :
    callOf (Function.update workers i w) clients destructor t =
      if t = .worker i then callOf (fun _ => w) clients destructor t
      else callOf workers clients destructor t := by
  rcases t with j | k | _
  · by_cases hj : j = i
    · subst hj
      simp [callOf]
    · simp [callOf, hj]
  · simp [callOf]
  · simp [callOf]

theorem callOf_client (workers : Fin n → Worker) (clients : κ → Client) (destructor : Destructor)
    (k : κ) (c : Client) (t : Thread n κ) :
    callOf workers (Function.update clients k c) destructor t =
      if t = .client k then callOf workers (fun _ => c) destructor t
      else callOf workers clients destructor t := by
  rcases t with i | j | _
  · simp [callOf]
  · by_cases hj : j = k
    · subst hj
      simp [callOf]
    · simp [callOf, hj]
  · simp [callOf]

theorem callOf_destructor (workers : Fin n → Worker) (clients : κ → Client)
    (destructor destructor' : Destructor) (t : Thread n κ) :
    callOf workers clients destructor' t =
      if t = .destructor then callOf workers clients destructor' t
      else callOf workers clients destructor t := by
  rcases t with i | j | _
  · simp [callOf]
  · simp [callOf]
  · simp [callOf]

theorem before_call {q q' : Monitor.State (Thread n κ) (QueueCall AsyncMsg) (QueueReply AsyncMsg)
      (MpmcBlockingQueue AsyncMsg)} {t : Thread n κ} {call : QueueCall AsyncMsg}
    (h : Monitor.Step method q (.call t call) q') (u : Thread n κ) :
    (q'.phase u).before = if u = t then some call else (q.phase u).before := by
  cases h with
  | call _ _ =>
    rw [Monitor.go_phase]
    split
    · rfl
    · rfl

theorem before_commit {q q' : Monitor.State (Thread n κ) (QueueCall AsyncMsg) (QueueReply AsyncMsg)
      (MpmcBlockingQueue AsyncMsg)} {t : Thread n κ} {r : QueueReply AsyncMsg}
    (h : Monitor.Step method q (.commit t r) q') (u : Thread n κ) :
    (q'.phase u).before = if u = t then none else (q.phase u).before := by
  cases h with
  | commit _ _ =>
    rw [show (Monitor.State.phase _ u) = _ from Monitor.go_phase q t u _]
    split
    · rfl
    · rfl

variable [Fintype κ] {s s' : ThreadPool n κ}

omit [DecidableEq κ] [Fintype κ] in
theorem post_item (m : AsyncMsg) (policy : OverflowPolicy) :
    (post_async_msg_ m policy).item = some m := by
  cases policy
  all_goals rfl

/-- Where a client's message is pushed; onto a full queue only if its logger overruns. -/
theorem Linked.pushed (h : Linked s) {k : κ} {m : AsyncMsg} {policy : OverflowPolicy} {gone q_'}
    (hc : s.clients k = .calling m policy)
    (hq : Monitor.Step method s.q_ (.commit (.client k) (.pushed gone)) q_') :
    q_'.shared = s.q_.shared.push m ∧ gone = s.q_.shared.leftover ∧
      (s.q_.shared.q_.full = true → policy = .overrun_oldest) := by
  have hcall : (s.q_.phase (.client k)).before = some (post_async_msg_ m policy) := by
    rw [h.calls, callOf, hc]
  obtain ⟨hshared, hgone, hfull⟩ := commit_pushed hq hcall (post_item m policy)
  refine ⟨hshared, hgone, fun hcase => ?_⟩
  have hnowait := hfull hcase
  cases policy with
  | overrun_oldest => rfl
  | block => cases hnowait
  | discard_new => cases hnowait

/-- Where the destructor pushes, there is room. -/
theorem Linked.terminated (h : Linked s) {posted : Nat} {gone q_'}
    (hd : s.destructor = .calling posted)
    (hq : Monitor.Step method s.q_ (.commit .destructor (.pushed gone)) q_') :
    q_'.shared = s.q_.shared.push .terminate ∧ gone = s.q_.shared.leftover ∧
      s.q_.shared.overrun .terminate = [] := by
  have hcall : (s.q_.phase .destructor).before = some (.enqueue .terminate) := by
    rw [h.calls]
    simp [callOf, hd]
  obtain ⟨hshared, hgone, hfull⟩ := commit_pushed hq hcall rfl
  refine ⟨hshared, hgone, if_neg fun hcase => ?_⟩
  cases hfull hcase

/-- A step of the queue, and the thread that takes it comes to where it is in the call. -/
theorem Linked.queue (h : Linked s) {e q_'} (hstep : Monitor.Step method s.q_ e q_')
    {workers clients destructor}
    (hcalls : ∀ t, (q_'.phase t).before = callOf workers clients destructor t)
    {discard_counter_ promises seen} :
    Linked ⟨q_', discard_counter_, workers, clients, destructor, promises, seen⟩ :=
  ⟨hcalls, h.locked.step hstep, h.waits.step hstep, fun c => (h.tickets c).step counts hstep⟩

omit [DecidableEq κ] in
theorem linked_start (q_max_items : Nat) (h : q_max_items + 1 < 2 ^ 64) :
    Linked (start κ q_max_items h n) where
  calls t := by
    rcases t with i | k | _
    · rfl
    · rfl
    · rfl
  locked := Monitor.locked_start _
  waits t m hp := by cases hp
  tickets c := Monitor.tickets_start c _

theorem Linked.inner (h : Linked s) (hstep : Inner s s') : Linked s' := by
  induction hstep with
  | queue hq hsilent _ =>
    refine h.queue hq fun t => ?_
    rw [(hq.silent hsilent).2 t]
    exact h.calls t
  | dequeue hw hq =>
    refine h.queue hq fun t => ?_
    rw [before_call hq, callOf_worker, h.calls]
    split
    next heq => rw [heq]; rfl
    next => rfl
  | @dequeued i m _ hw hq =>
    refine h.queue hq fun t => ?_
    rw [before_commit hq, callOf_worker, h.calls]
    split
    next heq => rw [heq]; cases m; all_goals rfl
    next => rfl
  | @act i a todo hw hp =>
    refine ⟨fun t => ?_, h.locked, h.waits, h.tickets⟩
    rw [callOf_worker, h.calls]
    split
    next heq => rw [heq, callOf, hw]; rfl
    next => rfl
  | post hc hq =>
    refine h.queue hq fun t => ?_
    rw [before_call hq, callOf_client, h.calls]
    split
    next heq => rw [heq]; rfl
    next => rfl
  | @posted k m policy gone _ hc hq =>
    refine h.queue hq fun t => ?_
    rw [before_commit hq, callOf_client, h.calls]
    split
    next heq => rw [heq]; cases m; all_goals rfl
    next => rfl
  | discarded hc hq =>
    refine h.queue hq fun t => ?_
    rw [before_commit hq, callOf_client, h.calls]
    split
    next heq => rw [heq]; rfl
    next => rfl
  | @count k m hc hp =>
    refine ⟨fun t => ?_, h.locked, h.waits, h.tickets⟩
    rw [callOf_client, h.calls]
    split
    next heq => rw [heq, callOf, hc]; cases m; all_goals rfl
    next => rfl
  | get hc hp _ =>
    refine ⟨fun t => ?_, h.locked, h.waits, h.tickets⟩
    rw [callOf_client, h.calls]
    split
    next heq => rw [heq, callOf, hc]; rfl
    next => rfl
  | terminate hd hlt hq =>
    refine h.queue hq fun t => ?_
    rw [before_call hq, callOf_destructor _ _ s.destructor, h.calls]
    split
    next heq => rw [heq]; rfl
    next => rfl
  | terminated hd hq =>
    refine h.queue hq fun t => ?_
    rw [before_commit hq, callOf_destructor _ _ s.destructor, h.calls]
    split
    next heq => rw [heq]; rfl
    next => rfl
  | join hd hp _ =>
    refine ⟨fun t => ?_, h.locked, h.waits, h.tickets⟩
    rw [callOf_destructor _ _ s.destructor, h.calls]
    split
    next heq => simp [heq, callOf, hd]
    next => rfl

theorem Linked.outer (h : Linked s) (hstep : Outer s s') : Linked s' := by
  induction hstep with
  | log l msg hc _ _ =>
    refine ⟨fun t => ?_, h.locked, h.waits, h.tickets⟩
    rw [callOf_client, h.calls]
    split
    next heq => rw [heq, callOf, hc]; rfl
    next => rfl
  | flush l hc _ _ =>
    refine ⟨fun t => ?_, h.locked, h.waits, h.tickets⟩
    rw [callOf_client, h.calls]
    split
    next heq => rw [heq, callOf, hc]; rfl
    next => rfl
  | destroy hd _ =>
    refine ⟨fun t => ?_, h.locked, h.waits, h.tickets⟩
    rw [callOf_destructor _ _ s.destructor, h.calls]
    split
    next heq => simp [heq, callOf, hd]
    next => rfl
  | wake hq =>
    refine h.queue hq fun t => ?_
    rw [(hq.silent trivial).2 t]
    exact h.calls t

end ThreadPool

end Spdlog
