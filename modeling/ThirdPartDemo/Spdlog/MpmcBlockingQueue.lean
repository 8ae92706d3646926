import ThirdPartDemo.Library.Monitor
import ThirdPartDemo.Spdlog.CircularQ
import Mathlib.Data.List.ReduceOption

/-!
# spdlog — the blocking queue

`mpmc_blocking_queue` is a circular queue behind a mutex and two condition variables. An
item is moved into a cell and moved out again; `none` is a cell whose item was moved out,
or was never there.

* `push_spec`, `pop_spec` — the operations under the mutex, on the messages;
* `counts` — the condition variables: a push makes one message more for those who wait
  for one, a pop makes one place more.
-/

namespace Spdlog

open Library

/-- `mpmc_blocking_queue`. The cells of the queue hold items, and behind it there is none
left but the one that was overrun last. -/
structure MpmcBlockingQueue (T : Type) where
  q_ : CircularQ (Option T)
  pos : 0 < q_.max_items_
  held : ∀ c ∈ q_.items, c ≠ none
  moved : ∀ c ∈ q_.stale.tail, c = none

namespace MpmcBlockingQueue

variable {T : Type}

/-- The constructor, for a number of items that a vector can have. -/
def ofMaxItems (max_items : Nat) (h : max_items + 1 < 2 ^ 64) : MpmcBlockingQueue T where
  q_ := .ofMaxItems max_items
  pos := by
    show 0 < size_t (max_items + 1)
    rw [size_t, Nat.mod_eq_of_lt h]
    omega
  held := by simp [CircularQ.items_ofMaxItems]
  moved c hc := CircularQ.stale_ofMaxItems (List.mem_of_mem_tail hc)

variable (q : MpmcBlockingQueue T)

/-- How many messages there is room for. -/
def capacity : Nat := q.q_.capacity

/-- The messages in the queue, oldest first. -/
def messages : List T := q.q_.items.reduceOption

/-- The message that was overrun last, while it still lies in its cell. -/
def leftover : Option T := q.q_.stale.head?.join

theorem items_eq : q.q_.items = q.messages.map some := by
  unfold messages
  have hheld := q.held
  generalize q.q_.items = cells at hheld
  induction cells with
  | nil => rfl
  | cons c cells ih =>
    obtain ⟨x, rfl⟩ := Option.ne_none_iff_exists'.mp (hheld c (List.mem_cons_self ..))
    rw [List.reduceOption_cons_of_some, List.map_cons,
      ← ih fun c hc => hheld c (List.mem_cons_of_mem _ hc)]

theorem messages_of_items {xs : List T} (h : q.q_.items = xs.map some) : q.messages = xs := by
  rw [items_eq] at h
  exact List.map_injective_iff.mpr (Option.some_injective T) h

theorem length_messages : q.messages.length = q.q_.items.length := by
  rw [items_eq, List.length_map]

theorem length_messages_le : q.messages.length ≤ q.capacity := by
  rw [length_messages]
  exact q.q_.length_items_le

theorem stale_eq : ∃ behind, q.q_.stale = q.leftover :: behind ∧ ∀ c ∈ behind, c = none := by
  obtain ⟨c, behind, hstale⟩ := List.exists_cons_of_ne_nil (CircularQ.stale_ne_nil q.pos)
  refine ⟨behind, ?_, ?_⟩
  · unfold leftover
    rw [hstale]
    rfl
  · have := q.moved
    rwa [hstale] at this

theorem leftover_ofMaxItems {max_items : Nat} {h : max_items + 1 < 2 ^ 64} :
    (ofMaxItems max_items h : MpmcBlockingQueue T).leftover = none := by
  obtain ⟨behind, hstale, -⟩ := (ofMaxItems max_items h : MpmcBlockingQueue T).stale_eq
  have hmem : (ofMaxItems max_items h : MpmcBlockingQueue T).leftover ∈
      (ofMaxItems max_items h : MpmcBlockingQueue T).q_.stale := by
    rw [hstale]
    exact List.mem_cons_self ..
  exact CircularQ.stale_ofMaxItems hmem

/-- `push_back` of an item that is moved into its cell. -/
def push (item : T) : MpmcBlockingQueue T where
  q_ := q.q_.push_back (some item)
  pos := by
    rw [CircularQ.push_back_max_items]
    exact q.pos
  held c hc := by
    rw [CircularQ.push_back_items] at hc
    rcases List.mem_append.mp (List.mem_of_mem_drop hc) with hc | hc
    · exact q.held c hc
    · rw [List.mem_singleton.mp hc]
      exact Option.some_ne_none item
  moved c hc := by
    obtain ⟨behind, hstale, hbehind⟩ := q.stale_eq
    cases hfull : q.q_.full with
    | true =>
      obtain ⟨oldest, kept, hitems⟩ := List.exists_cons_of_ne_nil
        (List.append_ne_nil_of_right_ne_nil q.q_.items (List.cons_ne_nil (some item) []))
      rw [(CircularQ.push_back_of_full q.pos hfull (some item) hitems).2.1] at hc
      cases hc
    | false =>
      rw [(CircularQ.push_back_of_not_full q.pos hfull (some item) hstale).2.1] at hc
      exact hbehind c (List.mem_of_mem_tail hc)

theorem full_iff : q.q_.full = true ↔ q.messages.length = q.capacity := by
  rw [CircularQ.full_iff q.pos, length_messages, capacity]

theorem empty_iff : q.q_.empty = true ↔ q.messages = [] := by
  rw [CircularQ.empty_iff, items_eq, List.map_eq_nil_iff]

theorem push_capacity (item : T) : (q.push item).capacity = q.capacity := by
  show (q.q_.push_back (some item)).max_items_ - 1 = _
  rw [CircularQ.push_back_max_items]
  rfl

/-- A push onto a queue with room. -/
theorem push_of_not_full (h : q.q_.full = false) (item : T) :
    (q.push item).messages = q.messages ++ [item] ∧ (q.push item).leftover = none ∧
      (q.push item).q_.overrun_counter_ = q.q_.overrun_counter_ := by
  obtain ⟨behind, hstale, hbehind⟩ := q.stale_eq
  obtain ⟨hitems, hrest, hcounter⟩ :=
    CircularQ.push_back_of_not_full q.pos h (some item) hstale
  refine ⟨messages_of_items _ ?_, ?_, hcounter⟩
  · show (q.q_.push_back (some item)).items = _
    rw [hitems, items_eq, List.map_append]
    rfl
  · show (q.q_.push_back (some item)).stale.head?.join = none
    rw [hrest]
    cases behind with
    | nil => rfl
    | cons c behind =>
      rw [hbehind c (List.mem_cons_self ..)]
      rfl

/-- A push onto a full queue overruns the oldest message, which stays in its cell. -/
theorem push_of_full (h : q.q_.full = true) (item : T) {oldest : T} {kept : List T}
    (hmessages : q.messages ++ [item] = oldest :: kept) :
    (q.push item).messages = kept ∧ (q.push item).leftover = some oldest ∧
      (q.push item).q_.overrun_counter_ = size_t (q.q_.overrun_counter_ + 1) := by
  have hcells : q.q_.items ++ [some item] = some oldest :: kept.map some := by
    rw [items_eq, ← List.map_cons, ← hmessages, List.map_append]
    rfl
  obtain ⟨hitems, hstale, hcounter⟩ := CircularQ.push_back_of_full q.pos h (some item) hcells
  refine ⟨messages_of_items _ hitems, ?_, hcounter⟩
  show (q.q_.push_back (some item)).stale.head?.join = some oldest
  rw [hstale]
  rfl

variable {q}

theorem front_ne_none (h : q.q_.empty = false) : q.q_.front h ≠ none := by
  obtain ⟨rest, hitems⟩ := CircularQ.exists_front h
  exact q.held _ (by rw [hitems]; exact List.mem_cons_self ..)

/-- The front item is moved out, and popped. -/
def pop (q : MpmcBlockingQueue T) (h : q.q_.empty = false) : MpmcBlockingQueue T × T :=
  (⟨(q.q_.setFront none).pop_front h, q.pos, by
      obtain ⟨rest, hitems⟩ := CircularQ.exists_front h
      rw [(CircularQ.moveFront_cells h none hitems).1]
      exact fun c hc => q.held c (by rw [hitems]; exact List.mem_cons_of_mem _ hc), by
      obtain ⟨rest, hitems⟩ := CircularQ.exists_front h
      obtain ⟨behind, hstale, hbehind⟩ := q.stale_eq
      rw [(CircularQ.moveFront_cells h none hitems).2, hstale]
      intro c hc
      rcases List.mem_append.mp hc with hc | hc
      · exact hbehind c hc
      · exact List.mem_singleton.mp hc⟩,
    (q.q_.front h).get (Option.isSome_iff_ne_none.mpr (front_ne_none h)))

theorem pop_spec (h : q.q_.empty = false) :
    q.messages = (q.pop h).2 :: (q.pop h).1.messages ∧ (q.pop h).1.leftover = q.leftover ∧
      (q.pop h).1.q_.overrun_counter_ = q.q_.overrun_counter_ := by
  obtain ⟨rest, hitems⟩ := CircularQ.exists_front h
  obtain ⟨behind, hstale, -⟩ := q.stale_eq
  have hpop := CircularQ.moveFront_cells h none hitems
  have hfront : q.q_.front h = some (q.pop h).2 := (Option.some_get _).symm
  have hrest : rest = (q.pop h).1.messages.map some := by
    rw [← items_eq]
    exact hpop.1.symm
  refine ⟨messages_of_items _ ?_, ?_, rfl⟩
  · rw [hitems, hfront, hrest, List.map_cons]
  · show ((q.q_.setFront none).pop_front h).stale.head?.join = q.leftover
    rw [hpop.2, hstale]
    exact Option.join_some ..

theorem pop_capacity (h : q.q_.empty = false) : (q.pop h).1.capacity = q.capacity := rfl

/-- The messages that a push overruns. -/
def overrun (q : MpmcBlockingQueue T) (item : T) : List T :=
  if q.q_.full then (q.messages ++ [item]).take 1 else []

/-- Nothing is lost but what is overrun. -/
theorem overrun_append (q : MpmcBlockingQueue T) (item : T) :
    q.overrun item ++ (q.push item).messages = q.messages ++ [item] := by
  unfold overrun
  split
  next hfull =>
    obtain ⟨oldest, kept, hmessages⟩ := List.exists_cons_of_ne_nil
      (List.append_ne_nil_of_right_ne_nil q.messages (List.cons_ne_nil item []))
    rw [(q.push_of_full hfull item hmessages).1, hmessages]
    rfl
  next hfull =>
    rw [(q.push_of_not_full (Bool.not_eq_true _ ▸ hfull) item).1]
    rfl

theorem length_push (q : MpmcBlockingQueue T) (item : T) :
    (q.push item).messages.length =
      if q.q_.full then q.messages.length else q.messages.length + 1 := by
  have happend := congrArg List.length (q.overrun_append item)
  unfold overrun at happend
  rw [List.length_append, List.length_append, List.length_singleton] at happend
  split
  next hfull =>
    rw [if_pos hfull, List.length_take, List.length_append, List.length_singleton] at happend
    omega
  next hfull =>
    rw [if_neg hfull, List.length_nil] at happend
    omega

theorem length_overrun (q : MpmcBlockingQueue T) (item : T) :
    (q.overrun item).length = if q.q_.full then 1 else 0 := by
  unfold overrun
  split
  · rw [List.length_take, List.length_append, List.length_singleton]
    omega
  · rfl

theorem push_counter (q : MpmcBlockingQueue T) (item : T) :
    (q.push item).q_.overrun_counter_ =
      if q.q_.full then size_t (q.q_.overrun_counter_ + 1) else q.q_.overrun_counter_ := by
  split
  next hfull =>
    obtain ⟨oldest, kept, hmessages⟩ := List.exists_cons_of_ne_nil
      (List.append_ne_nil_of_right_ne_nil q.messages (List.cons_ne_nil item []))
    exact (q.push_of_full hfull item hmessages).2.2
  next hfull => exact (q.push_of_not_full (Bool.not_eq_true _ ▸ hfull) item).2.2

-- ---------------------------------------------------------------------------
-- The queue as a monitor
-- ---------------------------------------------------------------------------

inductive CondVar where
  | push_cv_
  | pop_cv_
  deriving DecidableEq

/-- The calls of the queue. -/
inductive QueueCall (T : Type) where
  | enqueue (item : T)
  | enqueue_nowait (item : T)
  | enqueue_if_have_room (item : T)
  | dequeue

/-- How a call ends: a push destroys what was left in the cell that it writes. -/
inductive QueueReply (T : Type) where
  | pushed (gone : Option T)
  | discarded
  | popped (item : T)

/-- Whom a call notifies after it has released the mutex. -/
def notifies : QueueReply T → Option CondVar
  | .pushed _ => some .push_cv_
  | .discarded => none
  | .popped _ => some .pop_cv_

/-- `enqueue`: try to enqueue and block if no room is left. -/
def enqueue (item : T) : Monitor.Method (MpmcBlockingQueue T) (QueueReply T) CondVar where
  waitsOn := some .pop_cv_
  ready q := !q.q_.full
  body q _ := (q.push item, .pushed q.leftover)
  notifies := notifies
  always h := by cases h

/-- `enqueue_nowait`: overrun the oldest message in the queue if no room is left. -/
def enqueue_nowait (item : T) : Monitor.Method (MpmcBlockingQueue T) (QueueReply T) CondVar where
  waitsOn := none
  ready _ := true
  body q _ := (q.push item, .pushed q.leftover)
  notifies := notifies
  always _ _ := rfl

/-- `enqueue_if_have_room`; the caller counts what is discarded. -/
def enqueue_if_have_room (item : T) :
    Monitor.Method (MpmcBlockingQueue T) (QueueReply T) CondVar where
  waitsOn := none
  ready _ := true
  body q _ := if !q.q_.full then (q.push item, .pushed q.leftover) else (q, .discarded)
  notifies := notifies
  always _ _ := rfl

/-- `dequeue`, without a timeout. -/
def dequeue : Monitor.Method (MpmcBlockingQueue T) (QueueReply T) CondVar where
  waitsOn := some .push_cv_
  ready q := !q.q_.empty
  body q h := ((q.pop (by simpa using h)).1, .popped (q.pop (by simpa using h)).2)
  notifies := notifies
  always h := by cases h

def method : QueueCall T → Monitor.Method (MpmcBlockingQueue T) (QueueReply T) CondVar
  | .enqueue item => enqueue item
  | .enqueue_nowait item => enqueue_nowait item
  | .enqueue_if_have_room item => enqueue_if_have_room item
  | .dequeue => dequeue

/-- The item that a call pushes. -/
def QueueCall.item : QueueCall T → Option T
  | .enqueue item | .enqueue_nowait item | .enqueue_if_have_room item => some item
  | .dequeue => none

section Commit

variable {τ : Type} [DecidableEq τ] {t : τ}
  {q q' : Monitor.State τ (QueueCall T) (QueueReply T) (MpmcBlockingQueue T)}

/-- Where a push takes place; only `enqueue_nowait` pushes onto a full queue. -/
theorem commit_pushed {gone : Option T} {call : QueueCall T} {item : T}
    (h : Monitor.Step method q (.commit t (.pushed gone)) q')
    (hcall : (q.phase t).before = some call) (hitem : call.item = some item) :
    q'.shared = q.shared.push item ∧ gone = q.shared.leftover ∧
      (q.shared.q_.full = true → call = .enqueue_nowait item) := by
  obtain ⟨m, hready, hp, hbody⟩ := h.exists_body
  rw [hp] at hcall
  obtain rfl := Option.some.inj hcall
  cases m with
  | enqueue x =>
    cases hitem
    obtain ⟨hshared, hreply⟩ := Prod.mk.inj hbody
    cases hreply
    refine ⟨hshared.symm, rfl, fun hfull => ?_⟩
    have hfree : (!q.shared.q_.full) = true := hready
    rw [hfull] at hfree
    cases hfree
  | enqueue_nowait x =>
    cases hitem
    obtain ⟨hshared, hreply⟩ := Prod.mk.inj hbody
    cases hreply
    exact ⟨hshared.symm, rfl, fun _ => rfl⟩
  | enqueue_if_have_room x =>
    cases hitem
    simp only [method, enqueue_if_have_room] at hbody
    split at hbody
    next hfree =>
      obtain ⟨hshared, hreply⟩ := Prod.mk.inj hbody
      cases hreply
      refine ⟨hshared.symm, rfl, fun hfull => ?_⟩
      rw [hfull] at hfree
      cases hfree
    next => cases (Prod.mk.inj hbody).2
  | dequeue => cases hitem

/-- Where a message is discarded, the queue is left alone. -/
theorem commit_discarded (h : Monitor.Step method q (.commit t .discarded) q') :
    q'.shared = q.shared := by
  obtain ⟨m, hready, hp, hbody⟩ := h.exists_body
  cases m with
  | enqueue_if_have_room x =>
    simp only [method, enqueue_if_have_room] at hbody
    split at hbody
    · cases (Prod.mk.inj hbody).2
    · exact (Prod.mk.inj hbody).1.symm
  | enqueue x => cases (Prod.mk.inj hbody).2
  | enqueue_nowait x => cases (Prod.mk.inj hbody).2
  | dequeue => cases (Prod.mk.inj hbody).2

/-- Where a message is popped. -/
theorem commit_popped {item : T} (h : Monitor.Step method q (.commit t (.popped item)) q') :
    ∃ hempty : q.shared.q_.empty = false, q.shared.pop hempty = (q'.shared, item) := by
  obtain ⟨m, hready, hp, hbody⟩ := h.exists_body
  cases m with
  | dequeue =>
    have hempty : q.shared.q_.empty = false := by simpa [method, dequeue] using hready
    obtain ⟨hshared, hreply⟩ := Prod.mk.inj hbody
    cases hreply
    exact ⟨hempty, Prod.ext hshared rfl⟩
  | enqueue_if_have_room x =>
    simp only [method, enqueue_if_have_room] at hbody
    split at hbody
    · cases (Prod.mk.inj hbody).2
    · cases (Prod.mk.inj hbody).2
  | enqueue x => cases (Prod.mk.inj hbody).2
  | enqueue_nowait x => cases (Prod.mk.inj hbody).2

/-- What a call replies. -/
theorem commit_reply {r : QueueReply T} {call : QueueCall T}
    (h : Monitor.Step method q (.commit t r) q') (hcall : (q.phase t).before = some call) :
    (call = .dequeue ∧ ∃ item, r = .popped item) ∨ (call ≠ .dequeue ∧ ∃ gone, r = .pushed gone) ∨
      ∃ item, call = .enqueue_if_have_room item ∧ r = .discarded := by
  obtain ⟨m, hready, hp, hbody⟩ := h.exists_body
  rw [hp] at hcall
  obtain rfl := Option.some.inj hcall
  have hreply := congrArg Prod.snd hbody
  cases m with
  | enqueue item => exact .inr (.inl ⟨by simp, _, hreply.symm⟩)
  | enqueue_nowait item => exact .inr (.inl ⟨by simp, _, hreply.symm⟩)
  | enqueue_if_have_room item =>
    simp only [method, enqueue_if_have_room] at hreply
    split at hreply
    · exact .inr (.inl ⟨by simp, _, hreply.symm⟩)
    · exact .inr (.inr ⟨item, rfl, hreply.symm⟩)
  | dequeue => exact .inl ⟨rfl, _, hreply.symm⟩

end Commit

/-- What there is for those who wait: messages, or room. -/
def need : CondVar → MpmcBlockingQueue T → Nat
  | .push_cv_, q => q.messages.length
  | .pop_cv_, q => q.capacity - q.messages.length

theorem need_push (q : MpmcBlockingQueue T) (item : T) (c : CondVar) :
    need c (q.push item) ≤ need c q + if some CondVar.push_cv_ = some c then 1 else 0 := by
  have hlength := q.length_push item
  cases c with
  | push_cv_ =>
    show (q.push item).messages.length ≤ q.messages.length + 1
    split at hlength
    · omega
    · omega
  | pop_cv_ =>
    show (q.push item).capacity - (q.push item).messages.length ≤ q.capacity - q.messages.length
    rw [push_capacity]
    split at hlength
    · omega
    · omega

/-- **The condition variables** are notified of all that there is for those who wait. -/
theorem counts : Monitor.Counts (method (T := T)) need where
  ready m c hc q := by
    have hle := q.length_messages_le
    cases m with
    | enqueue item =>
      cases hc
      show (!q.q_.full) = false ↔ q.capacity - q.messages.length = 0
      rw [Bool.not_eq_false', full_iff]
      omega
    | dequeue =>
      cases hc
      show (!q.q_.empty) = false ↔ q.messages.length = 0
      rw [Bool.not_eq_false', empty_iff, List.length_eq_zero_iff]
    | enqueue_nowait item => cases hc
    | enqueue_if_have_room item => cases hc
  body m c q h := by
    cases m with
    | enqueue item =>
      have hfull : q.q_.full = false := by simpa [method, enqueue] using h
      have hlength := q.length_push item
      rw [if_neg (by simp [hfull])] at hlength
      have hle := (q.push item).length_messages_le
      rw [push_capacity] at hle
      cases c with
      | push_cv_ =>
        show (q.push item).messages.length + 0 ≤ q.messages.length + 1
        omega
      | pop_cv_ =>
        show (q.push item).capacity - (q.push item).messages.length + 1 ≤
          q.capacity - q.messages.length + 0
        rw [push_capacity]
        omega
    | enqueue_nowait item => exact q.need_push item c
    | enqueue_if_have_room item =>
      simp only [method, enqueue_if_have_room]
      split
      · exact q.need_push item c
      · simp [notifies]
    | dequeue =>
      have hempty : q.q_.empty = false := by simpa [method, dequeue] using h
      obtain ⟨hmessages, -⟩ := pop_spec hempty
      have hlength := congrArg List.length hmessages
      rw [List.length_cons] at hlength
      cases c with
      | push_cv_ =>
        show (q.pop hempty).1.messages.length + 1 ≤ q.messages.length + 0
        omega
      | pop_cv_ =>
        show (q.pop hempty).1.capacity - (q.pop hempty).1.messages.length + 0 ≤
          q.capacity - q.messages.length + 1
        rw [pop_capacity]
        omega

end MpmcBlockingQueue

end Spdlog
