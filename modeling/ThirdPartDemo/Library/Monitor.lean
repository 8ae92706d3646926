import Mathlib.Algebra.BigOperators.Group.Finset.Basic
import Mathlib.Algebra.BigOperators.Group.Finset.Piecewise
import Mathlib.Data.Fintype.Basic
import Mathlib.Logic.Relation
import Mathlib.Tactic.Common

/-!
# Library — monitors with condition variables

A monitor is a shared value, a mutex and condition variables. Its methods all have the
form *lock; wait until ready; body; unlock, notify one*: each step of a thread through a
method is a step of its own here, so that any interleaving is a run. A thread may be
woken without reason, and the notification may come before the mutex is released or
after it.

* `Locked.step` — mutual exclusion;
* `Tickets.step`, `Tickets.none_asleep` — no wakeup is lost: where a thread sleeps, what
  there is for the sleepers never exceeds the notifications that are owed and the threads
  that will look;
* `Locked.exists_step_of_busy` — the mutex does not block: who is in a method and not asleep
  can be followed by a step;
* `Step.effort_silent` — every call ends, once its body is run.
-/

namespace Library

/-- A sum over a function, when its value at one place is another. -/
theorem sum_update {ι α : Type*} [Fintype ι] [DecidableEq ι] (w : α → Nat) (f : ι → α) (i : ι)
    (a : α) : ∑ j, w (Function.update f i a j) + w (f i) = ∑ j, w (f j) + w a := by
  have hcomp : (fun j => w (Function.update f i a j)) =
      Function.update (fun j => w (f j)) i (w a) := by
    funext j
    rw [Function.update_apply, Function.update_apply]
    split
    · rfl
    · rfl
  rw [hcomp, Finset.sum_update_of_mem (Finset.mem_univ i),
    Finset.sum_eq_add_sum_sdiff_singleton_of_mem (Finset.mem_univ i) fun j => w (f j)]
  omega

namespace Monitor

universe u

variable {τ μ ρ cv σ : Type u}

/-- A method: what it waits for and on which condition variable, what it does to the
shared value once it is ready, and whom it notifies. -/
structure Method (σ ρ cv : Type u) where
  waitsOn : Option cv
  ready : σ → Bool
  body : (s : σ) → ready s = true → σ × ρ
  notifies : ρ → Option cv
  always : waitsOn = none → ∀ s, ready s = true

/-- Where a thread is in a method. -/
inductive Phase (μ ρ : Type u) where
  | outside
  | entering (m : μ)                            -- it needs the mutex, to look if it is ready
  | inside (m : μ)                              -- it has the mutex and looks
  | waiting (m : μ)
  | leaving (m : μ) (r : ρ) (notified : Bool)

structure State (τ μ ρ σ : Type u) where
  shared : σ
  owner : Option τ
  phase : τ → Phase μ ρ

variable (method : μ → Method σ ρ cv)

namespace Phase

/-- The condition variable that is still to be notified. -/
def owes : Phase μ ρ → Option cv
  | .leaving m r false => (method m).notifies r
  | _ => none

/-- The condition variable that the thread will wait on unless it finds itself ready. -/
def looks : Phase μ ρ → Option cv
  | .entering m | .inside m => (method m).waitsOn
  | _ => none

/-- The condition variable that the thread waits on. -/
def sleeps : Phase μ ρ → Option cv
  | .waiting m => (method m).waitsOn
  | _ => none

/-- The thread must have the mutex. -/
def holds : Phase μ ρ → Prop
  | .inside _ => True
  | .leaving m r notified => notified = true ∨ (method m).notifies r = none
  | _ => False

/-- The thread may have the mutex. -/
def mayHold : Phase μ ρ → Prop
  | .inside _ | .leaving _ _ _ => True
  | _ => False

/-- The call whose body is still to be run. -/
def before : Phase μ ρ → Option μ
  | .entering m | .inside m | .waiting m => some m
  | _ => none

/-- The thread is in a method and does not sleep. -/
def busy : Phase μ ρ → Prop
  | .outside | .waiting _ => False
  | _ => True

end Phase

variable [DecidableEq τ]

/-- A thread is in another phase. -/
def State.go (s : State τ μ ρ σ) (t : τ) (p : Phase μ ρ) : State τ μ ρ σ :=
  { s with phase := Function.update s.phase t p }

/-- What a thread does in a monitor. -/
inductive Event (τ μ ρ : Type u) where
  | call (t : τ) (m : μ)
  | lock (t : τ)
  | wait (t : τ)
  | commit (t : τ) (r : ρ)
  | unlock (t : τ)
  | notify (t : τ)
  | wake (t : τ)

/-- One step of one thread. -/
inductive Step : State τ μ ρ σ → Event τ μ ρ → State τ μ ρ σ → Prop
  | call {s t} (m) : s.phase t = .outside → Step s (.call t m) (s.go t (.entering m))
  | lock {s t m} : s.phase t = .entering m → s.owner = none →
      Step s (.lock t) { s.go t (.inside m) with owner := some t }
  | wait {s t m} : s.phase t = .inside m → (method m).ready s.shared = false →
      Step s (.wait t) { s.go t (.waiting m) with owner := none }
  | commit {s t m} (h : (method m).ready s.shared = true) : s.phase t = .inside m →
      Step s (.commit t ((method m).body s.shared h).2)
        { s.go t (.leaving m ((method m).body s.shared h).2 false) with
          shared := ((method m).body s.shared h).1 }
  | unlock {s t m r} : s.phase t = .leaving m r false → s.owner = some t →
      (method m).notifies r ≠ none → Step s (.unlock t) { s with owner := none }
  | leave {s t m r notified} : s.phase t = .leaving m r notified → s.owner = some t →
      (notified = true ∨ (method m).notifies r = none) →
      Step s (.unlock t) { s.go t .outside with owner := none }
  -- the thread that is notified is any of those that wait; with none, nothing happens
  | notify {s t m r c u m'} : s.phase t = .leaving m r false → (method m).notifies r = some c →
      s.phase u = .waiting m' → (method m').waitsOn = some c →
      Step s (.notify t) ((s.go t (if s.owner = some t then .leaving m r true else .outside)).go u
        (.entering m'))
  | notifyNone {s t m r c} : s.phase t = .leaving m r false → (method m).notifies r = some c →
      (∀ u, (s.phase u).sleeps method ≠ some c) →
      Step s (.notify t) (s.go t (if s.owner = some t then .leaving m r true else .outside))
  | wake {s t m} : s.phase t = .waiting m → Step s (.wake t) (s.go t (.entering m))

variable {method} {s s' : State τ μ ρ σ} {e : Event τ μ ρ}

@[simp] theorem go_self (s : State τ μ ρ σ) (t : τ) (p : Phase μ ρ) : (s.go t p).phase t = p :=
  Function.update_self ..

theorem go_of_ne (s : State τ μ ρ σ) {t u : τ} (p : Phase μ ρ) (h : u ≠ t) :
    (s.go t p).phase u = s.phase u := Function.update_of_ne h ..

theorem go_phase (s : State τ μ ρ σ) (t u : τ) (p : Phase μ ρ) :
    (s.go t p).phase u = if u = t then p else s.phase u := Function.update_apply ..

@[simp] theorem go_owner (s : State τ μ ρ σ) (t : τ) (p : Phase μ ρ) : (s.go t p).owner = s.owner :=
  rfl

@[simp] theorem go_shared (s : State τ μ ρ σ) (t : τ) (p : Phase μ ρ) :
    (s.go t p).shared = s.shared := rfl

/-- A commit runs the body of the thread's call, which was ready. -/
theorem Step.exists_body {t : τ} {r : ρ} (h : Step method s (.commit t r) s') :
    ∃ m, ∃ hr : (method m).ready s.shared = true,
      s.phase t = .inside m ∧ (method m).body s.shared hr = (s'.shared, r) := by
  cases h with
  | commit hr hp => exact ⟨_, hr, hp, rfl⟩

/-- The events that only move a thread through its method. -/
def Event.silent : Event τ μ ρ → Prop
  | .call _ _ | .commit _ _ => False
  | _ => True

/-- Silent steps change neither the shared value nor what is still to be run. -/
theorem Step.silent (h : Step method s e s') (he : e.silent) :
    s'.shared = s.shared ∧ ∀ t, (s'.phase t).before = (s.phase t).before := by
  have hgo : ∀ {t p}, p.before = (s.phase t).before →
      ∀ u, ((s.go t p).phase u).before = (s.phase u).before := by
    intro t p hp u
    rw [go_phase]
    split
    next heq => rw [heq, hp]
    next => rfl
  have hnotified : ∀ {t m r}, s.phase t = .leaving m r false →
      ∀ u, ((s.go t (if s.owner = some t then .leaving m r true else .outside)).phase u).before =
        (s.phase u).before := by
    intro t m r hp
    apply hgo
    rw [hp]
    split
    · rfl
    · rfl
  induction h with
  | call => exact he.elim
  | commit => exact he.elim
  | lock hp _ => exact ⟨rfl, hgo (by rw [hp]; rfl)⟩
  | wait hp _ => exact ⟨rfl, hgo (by rw [hp]; rfl)⟩
  | unlock _ _ _ => exact ⟨rfl, fun _ => rfl⟩
  | leave hp _ _ => exact ⟨rfl, hgo (by rw [hp]; rfl)⟩
  | @notify t m r c u m' hp _ hu _ =>
    refine ⟨rfl, fun v => ?_⟩
    have hne : u ≠ t := by
      rintro rfl
      rw [hp] at hu
      cases hu
    rw [go_phase]
    split
    next heq => rw [heq, hu]; rfl
    next => exact hnotified hp v
  | notifyNone hp _ _ => exact ⟨rfl, hnotified hp⟩
  | wake hp => exact ⟨rfl, hgo (by rw [hp]; rfl)⟩

/-- Who is outside stays outside until it calls. -/
theorem Step.outside {u : τ} (h : Step method s e s') (hu : s.phase u = .outside)
    (he : ∀ m, e ≠ .call u m) : s'.phase u = .outside := by
  have hgo : ∀ {t p}, s.phase t ≠ .outside → (s.go t p).phase u = .outside := by
    intro t p ht
    rw [go_of_ne s p (by rintro rfl; exact ht hu), hu]
  induction h with
  | @call t m hp =>
    rw [go_of_ne s _ (by rintro rfl; exact he m rfl), hu]
  | lock hp _ => exact hgo (by simp [hp])
  | wait hp _ => exact hgo (by simp [hp])
  | commit _ hp => exact hgo (by simp [hp])
  | unlock _ _ _ => exact hu
  | leave hp _ _ => exact hgo (by simp [hp])
  | @notify t m r c v m' hp _ hv _ =>
    rw [go_of_ne _ _ (by rintro rfl; rw [hu] at hv; cases hv)]
    exact hgo (by simp [hp])
  | notifyNone hp _ _ => exact hgo (by simp [hp])
  | wake hp => exact hgo (by simp [hp])

/-- Only on a condition variable does a thread wait. -/
def Waits (method : μ → Method σ ρ cv) (s : State τ μ ρ σ) : Prop :=
  ∀ t m, s.phase t = .waiting m → (method m).waitsOn ≠ none

theorem Waits.step (h : Waits method s) (hstep : Step method s e s') : Waits method s' := by
  have hgo : ∀ {s : State τ μ ρ σ}, Waits method s → ∀ {t p}, (∀ m, p ≠ .waiting m) →
      Waits method (s.go t p) := by
    intro s h t p hp u m hu
    rw [go_phase] at hu
    split at hu
    · exact absurd hu (hp m)
    · exact h u m hu
  have hnotified : ∀ {t m r}, Waits method
      (s.go t (if s.owner = some t then .leaving m r true else .outside)) := by
    intro t m r
    apply hgo h
    split
    · simp
    · simp
  induction hstep with
  | call _ _ => exact hgo h (by simp)
  | lock _ _ => exact hgo h (by simp)
  | @wait t m hp hready =>
    intro u m' hu
    rw [show (State.phase _ u) = _ from go_phase s t u _] at hu
    split at hu
    · cases hu
      intro hnone
      rw [(method m).always hnone] at hready
      cases hready
    · exact h u m' hu
  | commit _ _ => exact hgo h (by simp)
  | unlock _ _ _ => exact h
  | leave _ _ _ => exact hgo h (by simp)
  | notify _ _ _ _ => exact hgo hnotified (by simp)
  | notifyNone _ _ _ => exact hnotified
  | wake _ => exact hgo h (by simp)

-- ---------------------------------------------------------------------------
-- Mutual exclusion
-- ---------------------------------------------------------------------------

/-- The mutex is held by the one thread that is inside, or has not released it yet. -/
structure Locked (method : μ → Method σ ρ cv) (s : State τ μ ρ σ) : Prop where
  holds : ∀ t, (s.phase t).holds method → s.owner = some t
  owner : ∀ t, s.owner = some t → (s.phase t).mayHold

omit [DecidableEq τ] in
theorem locked_start (shared : σ) :
    Locked method (⟨shared, none, fun _ => .outside⟩ : State τ μ ρ σ) where
  holds t h := h.elim
  owner t h := by cases h

/-- A thread that does not hold the mutex comes into a phase in which it need not. -/
theorem Locked.go {t : τ} {p : Phase μ ρ} (h : Locked method s) (hs : s.owner ≠ some t)
    (hp : ¬ p.holds method) : Locked method (s.go t p) where
  holds u hu := by
    rw [go_phase] at hu
    split at hu
    · exact absurd hu hp
    · exact h.holds u hu
  owner u hu := by
    have hne : u ≠ t := by
      rintro rfl
      exact hs hu
    rw [go_of_ne s p hne]
    exact h.owner u hu

/-- A thread goes on that has the mutex, or takes it while it is free. -/
theorem Locked.goOwner {t : τ} {p : Phase μ ρ} (h : Locked method s)
    (hs : s.owner = none ∨ s.owner = some t) {o : Option τ} {x : σ}
    (hp : o = none ∧ ¬ p.holds method ∨ o = some t ∧ p.mayHold) :
    Locked method { s.go t p with owner := o, shared := x } := by
  have hothers : ∀ u, u ≠ t → ¬ (s.phase u).holds method := by
    intro u hu hholds
    have := h.holds u hholds
    obtain hs | hs := hs
    · rw [hs] at this
      cases this
    · rw [hs] at this
      exact hu (Option.some.inj this).symm
  have hgo : ∀ u, (s.go t p).phase u = if u = t then p else s.phase u := fun u => go_phase s t u p
  obtain ⟨rfl, hfree⟩ | ⟨rfl, hphase⟩ := hp
  · refine ⟨fun u hu => ?_, fun u hu => by cases hu⟩
    rw [show (State.phase _ u) = _ from hgo u] at hu
    split at hu
    · exact absurd hu hfree
    · exact absurd hu (hothers u ‹_›)
  · refine ⟨fun u hu => ?_, fun u hu => ?_⟩
    · rw [show (State.phase _ u) = _ from hgo u] at hu
      split at hu
      next heq => rw [heq]
      next hne => exact absurd hu (hothers u hne)
    · obtain rfl := Option.some.inj hu
      rw [show (State.phase _ t) = _ from go_self s t p]
      exact hphase

omit [DecidableEq τ] in
theorem Locked.not_owner {t : τ} (h : Locked method s) (hp : ¬ (s.phase t).mayHold) :
    s.owner ≠ some t := fun howner => hp (h.owner t howner)

/-- A thread has given its notification. -/
theorem Locked.goNotified (h : Locked method s) (t : τ) (m : μ) (r : ρ) :
    Locked method (s.go t (if s.owner = some t then .leaving m r true else .outside)) := by
  split
  next howner =>
    exact h.goOwner (o := s.owner) (x := s.shared) (.inr howner)
      (.inr ⟨howner, trivial⟩)
  next howner => exact h.go howner fun hp => hp

theorem Locked.step (h : Locked method s) (hstep : Step method s e s') : Locked method s' := by
  induction hstep with
  | call m hp => exact h.go (h.not_owner (by simp [hp, Phase.mayHold])) fun hp => hp
  | lock hp howner => exact h.goOwner (.inl howner) (.inr ⟨rfl, trivial⟩)
  | @wait t m hp _ =>
    have howner := h.holds t (by simp [hp, Phase.holds])
    exact h.goOwner (.inr howner) (.inl ⟨rfl, fun hp => hp⟩)
  | @commit t m hr hp =>
    have howner := h.holds t (by simp [hp, Phase.holds])
    exact h.goOwner (o := s.owner) (.inr howner) (.inr ⟨howner, trivial⟩)
  | @unlock t m r hp howner hnotifies =>
    have hgo := h.goOwner (p := .leaving m r false) (.inr howner) (o := none)
      (x := s.shared) (.inl ⟨rfl, by simpa [Phase.holds] using hnotifies⟩)
    rwa [State.go, Function.update_eq_self_iff.mpr hp.symm] at hgo
  | leave hp howner _ => exact h.goOwner (.inr howner) (.inl ⟨rfl, fun hp => hp⟩)
  | @notify t m r c u m' hp _ hu _ =>
    have hne : u ≠ t := by
      rintro rfl
      rw [hp] at hu
      cases hu
    have hafter := h.goNotified t m r
    refine hafter.go (hafter.not_owner ?_) fun hp => hp
    rw [go_of_ne s _ hne, hu]
    exact fun hp => hp
  | notifyNone _ _ _ => exact h.goNotified _ _ _
  | wake hp => exact h.go (h.not_owner (by simp [hp, Phase.mayHold])) fun hp => hp

-- ---------------------------------------------------------------------------
-- No wakeup is lost
-- ---------------------------------------------------------------------------

variable [Fintype τ]

/-- A sum over the threads' phases, when one thread goes to another phase. -/
theorem sum_go (w : Phase μ ρ → Nat) (s : State τ μ ρ σ) (t : τ) (p : Phase μ ρ) :
    ∑ u, w ((s.go t p).phase u) + w (s.phase t) = ∑ u, w (s.phase u) + w p :=
  sum_update w s.phase t p

variable [DecidableEq cv]

/-- What speaks against a lost wakeup on `c`: a notification that is owed, or a thread
that will look. -/
def ticket (method : μ → Method σ ρ cv) (c : cv) (p : Phase μ ρ) : Nat :=
  (if p.owes method = some c then 1 else 0) + if p.looks method = some c then 1 else 0

/-- How much there is for the threads that wait on each condition variable: none exactly
when they are not ready; a method that makes more of it notifies, and one that waits
for it takes some away. -/
structure Counts (method : μ → Method σ ρ cv) (need : cv → σ → Nat) : Prop where
  ready : ∀ m c, (method m).waitsOn = some c → ∀ s, (method m).ready s = false ↔ need c s = 0
  body : ∀ m c s (h : (method m).ready s = true),
    need c ((method m).body s h).1 + (if (method m).waitsOn = some c then 1 else 0) ≤
      need c s + if (method m).notifies ((method m).body s h).2 = some c then 1 else 0

variable {need : cv → σ → Nat}

/-- What there is for the sleepers does not exceed the tickets. -/
def Tickets (method : μ → Method σ ρ cv) (need : cv → σ → Nat) (c : cv)
    (s : State τ μ ρ σ) : Prop :=
  (∃ t, (s.phase t).sleeps method = some c) →
    need c s.shared ≤ ∑ t, ticket method c (s.phase t)

omit [DecidableEq τ] in
theorem tickets_start (c : cv) (shared : σ) :
    Tickets method need c (⟨shared, none, fun _ => .outside⟩ : State τ μ ρ σ) := by
  rintro ⟨t, ht⟩
  cases ht

/-- A thread goes on and does not sleep on `c`; what it changes is made up by its tickets. -/
theorem Tickets.go {c : cv} {t : τ} {p : Phase μ ρ} (h : Tickets method need c s)
    (hp : p.sleeps method ≠ some c) {shared : σ}
    (hle : need c shared + ticket method c (s.phase t) ≤
      need c s.shared + ticket method c p) {owner : Option τ} :
    Tickets method need c { s.go t p with owner := owner, shared := shared } := by
  rintro ⟨u, hu⟩
  have hsleeps : ∃ u, (s.phase u).sleeps method = some c := by
    refine ⟨u, ?_⟩
    rw [show (State.phase _ u) = _ from go_phase s t u p] at hu
    split at hu
    · exact absurd hu hp
    · exact hu
  have hneed := h hsleeps
  have hsum := sum_go (ticket method c) s t p
  show need c shared ≤ ∑ u, ticket method c ((s.go t p).phase u)
  omega

theorem ticket_entering (c : cv) (m : μ) :
    ticket (ρ := ρ) method c (.entering m) = if (method m).waitsOn = some c then 1 else 0 := by
  rw [ticket, if_neg (by simp [Phase.owes]), Nat.zero_add, Phase.looks]

theorem ticket_inside (c : cv) (m : μ) :
    ticket (ρ := ρ) method c (.inside m) = if (method m).waitsOn = some c then 1 else 0 := by
  rw [ticket, if_neg (by simp [Phase.owes]), Nat.zero_add, Phase.looks]

theorem ticket_leaving (c : cv) (m : μ) (r : ρ) :
    ticket method c (.leaving m r false) = if (method m).notifies r = some c then 1 else 0 := by
  rw [ticket, if_neg (by simp [Phase.looks]) (c := Phase.looks _ _ = _), Nat.add_zero, Phase.owes]

theorem ticket_outside (c : cv) : ticket method c (.outside : Phase μ ρ) = 0 := by
  simp [ticket, Phase.owes, Phase.looks]

theorem ticket_notified (c : cv) (m : μ) (r : ρ) : ticket method c (.leaving m r true) = 0 := by
  simp [ticket, Phase.owes, Phase.looks]

theorem ticket_waiting (c : cv) (m : μ) : ticket (ρ := ρ) method c (.waiting m) = 0 := by
  simp [ticket, Phase.owes, Phase.looks]

/-- After its notification a thread has no ticket and does not sleep. -/
theorem notified_spec (method : μ → Method σ ρ cv) (c : cv) (m : μ) (r : ρ) (hold : Prop)
    [Decidable hold] :
    ticket method c (if hold then .leaving m r true else .outside) = 0 ∧
      Phase.sleeps method (if hold then Phase.leaving m r true else .outside) = none := by
  split
  · exact ⟨ticket_notified c m r, rfl⟩
  · exact ⟨ticket_outside c, rfl⟩

theorem Tickets.step {c : cv} (hcounts : Counts method need) (h : Tickets method need c s)
    (hstep : Step method s e s') : Tickets method need c s' := by
  induction hstep with
  | call m hp =>
    refine h.go (by simp [Phase.sleeps]) ?_
    rw [hp, ticket_outside]
    omega
  | lock hp _ =>
    refine h.go (by simp [Phase.sleeps]) ?_
    rw [hp, ticket_entering, ticket_inside]
    exact Nat.le_refl _
  | @wait t m hp hready =>
    by_cases hc : (method m).waitsOn = some c
    · -- it has looked, and there was nothing
      have hzero := (hcounts.ready m c hc s.shared).mp hready
      intro _
      show need c s.shared ≤ _
      omega
    · refine h.go (by simpa [Phase.sleeps] using hc) ?_
      rw [hp, ticket_inside, if_neg hc, ticket_waiting]
      exact Nat.le_refl _
  | @commit t m hready hp =>
    refine h.go (by simp [Phase.sleeps]) ?_
    rw [hp, ticket_inside, ticket_leaving]
    exact hcounts.body m c s.shared hready
  | unlock _ _ _ => exact h
  | @leave t m r notified hp _ hquiet =>
    refine h.go (by simp [Phase.sleeps]) ?_
    rw [hp, ticket_outside]
    obtain rfl | hnone := hquiet
    · rw [ticket_notified]
      exact Nat.le_refl _
    · cases notified
      · rw [ticket_leaving, if_neg (by simp [hnone])]
        exact Nat.le_refl _
      · rw [ticket_notified]
        exact Nat.le_refl _
  | @notify t m r c' u m' hp hc hu hm' =>
    have hne : u ≠ t := by
      rintro rfl
      rw [hp] at hu
      cases hu
    obtain ⟨hticket, hsleeps⟩ := notified_spec method c m r (s.owner = some t)
    -- the ticket of the notification goes over to the thread that is notified
    have hsum := sum_go (ticket method c) s t
      (if s.owner = some t then .leaving m r true else .outside)
    have hsum' := sum_go (ticket method c)
      (s.go t (if s.owner = some t then .leaving m r true else .outside)) u (.entering m')
    rw [hticket, hp, ticket_leaving, hc] at hsum
    rw [go_of_ne s _ hne, hu, ticket_waiting, ticket_entering, hm'] at hsum'
    rintro ⟨v, hv⟩
    have hsleeper : (s.phase v).sleeps method = some c := by
      rw [go_phase] at hv
      split at hv
      · cases hv
      · rw [go_phase] at hv
        split at hv
        · rw [hsleeps] at hv
          cases hv
        · exact hv
    have hneed := h ⟨v, hsleeper⟩
    rw [go_shared, go_shared]
    omega
  | @notifyNone t m r c' hp hc hnone =>
    obtain ⟨hticket, hsleeps⟩ := notified_spec method c m r (s.owner = some t)
    by_cases heq : c' = c
    · subst heq
      rintro ⟨v, hv⟩
      rw [go_phase] at hv
      split at hv
      · rw [hsleeps] at hv
        cases hv
      · exact absurd hv (hnone v)
    · refine h.go (by simp [hsleeps]) ?_
      rw [hticket, hp, ticket_leaving, if_neg (by simp [hc, heq])]
  | wake hp =>
    refine h.go (by simp [Phase.sleeps]) ?_
    rw [hp, ticket_waiting]
    omega

omit [DecidableEq τ] in
/-- **No wakeup is lost**: if nobody owes a notification and nobody is about to look,
there is nothing for a thread that sleeps. -/
theorem Tickets.none_asleep {c : cv} (h : Tickets method need c s)
    (hquiet : ∀ t, (s.phase t).owes method = none ∧ (s.phase t).looks method = none) {t : τ}
    (ht : (s.phase t).sleeps method = some c) : need c s.shared = 0 := by
  have hsum : ∑ u, ticket method c (s.phase u) = 0 :=
    Finset.sum_eq_zero fun u _ => by simp [ticket, (hquiet u).1, (hquiet u).2]
  have := h ⟨t, ht⟩
  omega

-- ---------------------------------------------------------------------------
-- The mutex does not block
-- ---------------------------------------------------------------------------

/-- The events by which threads go on in their methods. -/
def Event.inward : Event τ μ ρ → Prop
  | .call _ _ | .wake _ => False
  | _ => True

omit [DecidableEq cv] [Fintype τ] in
/-- **The mutex does not block**: while a thread is in a method and not asleep, some
thread can go on in its method. -/
theorem Locked.exists_step_of_busy (h : Locked method s) {t : τ} (hbusy : (s.phase t).busy) :
    ∃ e s', e.inward ∧ Step method s e s' := by
  have hinside : ∀ u m, s.phase u = .inside m → ∃ e s', Event.inward e ∧ Step method s e s' := by
    intro u m hu
    cases hready : (method m).ready s.shared with
    | true => exact ⟨.commit u _, _, trivial, .commit hready hu⟩
    | false => exact ⟨.wait u, _, trivial, .wait hu hready⟩
  have hleaving : ∀ u m r notified, s.phase u = .leaving m r notified → s.owner = some u →
      ∃ e s', Event.inward e ∧ Step method s e s' := by
    intro u m r notified hu howner
    by_cases hquiet : notified = true ∨ (method m).notifies r = none
    · exact ⟨.unlock u, _, trivial, .leave hu howner hquiet⟩
    · rw [not_or, Bool.not_eq_true] at hquiet
      obtain ⟨rfl, hnotifies⟩ := hquiet
      exact ⟨.unlock u, _, trivial, .unlock hu howner hnotifies⟩
  -- the owner can go on; with no owner, any thread can
  rcases howner : s.owner with _ | u
  · have hfree : ¬ (s.phase t).holds method := fun hholds => by
      rw [h.holds t hholds] at howner
      cases howner
    rcases hp : s.phase t with _ | m | m | m | ⟨m, r, notified⟩
    · rw [hp] at hbusy
      exact hbusy.elim
    · exact ⟨.lock t, _, trivial, .lock hp howner⟩
    · exact hinside t m hp
    · rw [hp] at hbusy
      exact hbusy.elim
    · rw [hp, Phase.holds, not_or, Bool.not_eq_true] at hfree
      obtain ⟨rfl, hnotifies⟩ := hfree
      obtain ⟨c, hc⟩ := Option.ne_none_iff_exists'.mp hnotifies
      by_cases hsleeps : ∃ u, (s.phase u).sleeps method = some c
      · obtain ⟨u, hu⟩ := hsleeps
        rcases hpu : s.phase u with _ | _ | _ | m' | _
        case waiting =>
          rw [hpu] at hu
          exact ⟨.notify t, _, trivial, .notify hp hc hpu hu⟩
        all_goals
          rw [hpu] at hu
          cases hu
      · exact ⟨.notify t, _, trivial, .notifyNone hp hc fun u hu => hsleeps ⟨u, hu⟩⟩
  · rcases hp : s.phase u with _ | m | m | m | ⟨m, r, notified⟩
    case inside => exact hinside u m hp
    case leaving => exact hleaving u m r notified hp howner
    all_goals
      have := h.owner u howner
      rw [hp] at this
      exact this.elim

-- ---------------------------------------------------------------------------
-- Every call ends
-- ---------------------------------------------------------------------------

/-- How much a thread can still do in its method, with the thread that it notifies. -/
def Phase.effort : Phase μ ρ → Nat
  | .outside | .waiting _ => 0
  | .entering _ => 3
  | .inside _ => 1
  | .leaving _ _ false => 5
  | .leaving _ _ true => 1

/-- How much the threads can still do in their methods, before a body is run. -/
def State.effort (s : State τ μ ρ σ) : Nat :=
  (if s.owner.isSome then 1 else 0) + ∑ t, (s.phase t).effort

omit [DecidableEq cv] in
theorem Step.effort_call {t : τ} {m : μ} (h : Step method s (.call t m) s') :
    s'.effort = s.effort + 3 := by
  cases h with
  | call _ hp =>
    have hsum := sum_go Phase.effort s t (.entering m)
    rw [hp] at hsum
    have : ∑ u, ((s.go t (.entering m)).phase u).effort + 0 = ∑ u, (s.phase u).effort + 3 := hsum
    unfold State.effort
    rw [go_owner]
    omega

omit [DecidableEq cv] in
theorem Step.effort_commit {t : τ} {r : ρ} (h : Step method s (.commit t r) s') :
    s'.effort = s.effort + 4 := by
  cases h with
  | @commit _ m hr hp =>
    have hsum := sum_go Phase.effort s t (.leaving m ((method m).body s.shared hr).2 false)
    rw [hp] at hsum
    have : ∑ u, ((s.go t _).phase u).effort + 1 = ∑ u, (s.phase u).effort + 5 := hsum
    show (if s.owner.isSome then 1 else 0) + ∑ u, ((s.go t _).phase u).effort = s.effort + 4
    unfold State.effort
    omega

omit [DecidableEq cv] in
/-- A thread that has given its notification has less to do, even with the thread that it
has woken. -/
theorem effort_notified {t : τ} {m : μ} {r : ρ} (hp : s.phase t = .leaving m r false) :
    ∑ u, ((s.go t (if s.owner = some t then .leaving m r true else .outside)).phase u).effort + 4 ≤
      ∑ u, (s.phase u).effort := by
  have hsum := sum_go Phase.effort s t (if s.owner = some t then .leaving m r true else .outside)
  rw [hp] at hsum
  have hfive : (Phase.leaving m r false).effort = 5 := rfl
  have hle : (if s.owner = some t then Phase.leaving m r true else .outside).effort ≤ 1 := by
    split
    · exact Nat.le_refl 1
    · exact Nat.zero_le 1
  omega

omit [DecidableEq cv] in
/-- **Every call ends**, but for the bodies that are still to be run: a thread that goes on
in its method has less to do in it. -/
theorem Step.effort_silent (h : Step method s e s') (hsilent : e.silent) (hinward : e.inward) :
    s'.effort < s.effort := by
  unfold State.effort
  induction h with
  | call => exact hinward.elim
  | commit => exact hsilent.elim
  | wake => exact hinward.elim
  | @lock t m hp howner =>
    have hsum := sum_go Phase.effort s t (.inside m)
    rw [hp] at hsum
    have : ∑ u, ((s.go t (.inside m)).phase u).effort + 3 = ∑ u, (s.phase u).effort + 1 := hsum
    rw [howner]
    show 1 + ∑ u, ((s.go t (.inside m)).phase u).effort < 0 + ∑ u, (s.phase u).effort
    omega
  | @wait t m hp _ =>
    have hsum := sum_go Phase.effort s t (.waiting m)
    rw [hp] at hsum
    have : ∑ u, ((s.go t (.waiting m)).phase u).effort + 1 = ∑ u, (s.phase u).effort + 0 := hsum
    show 0 + ∑ u, ((s.go t (.waiting m)).phase u).effort < _
    omega
  | @unlock t m r hp howner _ =>
    rw [howner]
    show 0 + ∑ u, (s.phase u).effort < 1 + ∑ u, (s.phase u).effort
    omega
  | @leave t m r notified hp howner _ =>
    have hsum := sum_go Phase.effort s t .outside
    have : ∑ u, ((s.go t .outside).phase u).effort + (s.phase t).effort =
      ∑ u, (s.phase u).effort + 0 := hsum
    rw [howner]
    show 0 + ∑ u, ((s.go t .outside).phase u).effort < 1 + ∑ u, (s.phase u).effort
    omega
  | @notify t m r c u m' hp _ hu _ =>
    have hne : u ≠ t := by
      rintro rfl
      rw [hp] at hu
      cases hu
    have hle := effort_notified hp
    have hsum := sum_go Phase.effort
      (s.go t (if s.owner = some t then .leaving m r true else .outside)) u (.entering m')
    rw [go_of_ne s _ hne, hu] at hsum
    have hthree : (Phase.entering m' : Phase μ ρ).effort = 3 := rfl
    rw [go_owner, go_owner]
    omega
  | notifyNone hp _ _ =>
    have hle := effort_notified hp
    rw [go_owner]
    omega

end Monitor

end Library
