import ThirdPartDemo.Library.Ring
import Mathlib.Tactic.Common

/-!
# spdlog — the circular queue

`circular_q` keeps the last items pushed onto it in a vector with one cell more than
there is room for items; when it is full, a push drops the oldest item.

* `push_back_items` — a push keeps the last `capacity` items;
* `push_back_cells` — and what it does to the cells: which one is overwritten, and where
  an item that is overrun stays behind;
* `setFront_cells`, `pop_front_cells` — the other end.
-/

namespace Spdlog

open Library

universe u

/-- Arithmetic on `size_t`. -/
def size_t (n : Nat) : Nat := n % 2 ^ 64

/-- `circular_q`. Its two places are in the vector; without any cell it is disabled. -/
structure CircularQ (T : Type u) where
  max_items_ : Nat
  head_ : Nat
  tail_ : Nat
  overrun_counter_ : Nat
  v_ : List T
  length_v : v_.length = max_items_
  head_le : head_ ≤ max_items_ - 1
  tail_le : tail_ ≤ max_items_ - 1

namespace CircularQ

variable {T : Type u}

/-- `circular_q(max_items)`: one cell is reserved as marker for a full queue. -/
def ofMaxItems [Inhabited T] (max_items : Nat) : CircularQ T where
  max_items_ := size_t (max_items + 1)
  head_ := 0
  tail_ := 0
  overrun_counter_ := 0
  v_ := List.replicate (size_t (max_items + 1)) default
  length_v := List.length_replicate
  head_le := Nat.zero_le _
  tail_le := Nat.zero_le _

variable (q : CircularQ T)

/-- `empty` -/
def empty : Bool := q.tail_ == q.head_

/-- `full`: the head is ahead of the tail by one. -/
def full : Bool :=
  if q.max_items_ > 0 then (q.tail_ + 1) % q.max_items_ == q.head_ else false

/-- `size` -/
def size : Nat :=
  if q.tail_ ≥ q.head_ then q.tail_ - q.head_ else q.max_items_ - (q.head_ - q.tail_)

theorem next_le {place : Nat} (h : 0 < q.max_items_) :
    place % q.max_items_ ≤ q.max_items_ - 1 := Nat.le_sub_one_of_lt (Nat.mod_lt _ h)

/-- Write the cell at the tail, and move the tail on. -/
def writeTail (h : 0 < q.max_items_) (item : T) : CircularQ T :=
  { q with
    v_ := q.v_.set q.tail_ item
    tail_ := (q.tail_ + 1) % q.max_items_
    length_v := by rw [List.length_set, q.length_v]
    tail_le := q.next_le h }

/-- Move the head on. -/
def advanceHead (h : 0 < q.max_items_) : CircularQ T :=
  { q with
    head_ := (q.head_ + 1) % q.max_items_
    head_le := q.next_le h }

/-- `push_back`: overrun the oldest item if no room is left. -/
def push_back (item : T) : CircularQ T :=
  if h : 0 < q.max_items_ then
    if (q.writeTail h item).tail_ = q.head_ then
      { (q.writeTail h item).advanceHead h with
        overrun_counter_ := size_t (q.overrun_counter_ + 1) }
    else q.writeTail h item
  else q

variable {q}

theorem pos_of_not_empty (h : q.empty = false) : 0 < q.max_items_ := by
  have hne : q.tail_ ≠ q.head_ := by simpa [empty] using h
  have := q.head_le
  have := q.tail_le
  omega

theorem head_lt (h : 0 < q.max_items_) : q.head_ < q.max_items_ := by
  have := q.head_le
  omega

theorem tail_lt (h : 0 < q.max_items_) : q.tail_ < q.max_items_ := by
  have := q.tail_le
  omega

variable (q)

/-- `front`; undefined when there are no elements in the container. -/
def front (h : q.empty = false) : T :=
  q.v_.get ⟨q.head_, by rw [q.length_v]; exact head_lt (pos_of_not_empty h)⟩

/-- Assign through the reference that `front` returns. -/
def setFront (item : T) : CircularQ T :=
  { q with
    v_ := q.v_.set q.head_ item
    length_v := by rw [List.length_set, q.length_v] }

/-- `pop_front`; undefined when there are no elements in the container. -/
def pop_front (h : q.empty = false) : CircularQ T := q.advanceHead (pos_of_not_empty h)

-- ---------------------------------------------------------------------------
-- What the cells hold
-- ---------------------------------------------------------------------------

/-- How many items there is room for. -/
def capacity : Nat := q.max_items_ - 1

/-- The items in the queue, oldest first. -/
def items : List T := (q.v_.rotate q.head_).take q.size

/-- The cells behind the queue, the next one to be written first. -/
def stale : List T := (q.v_.rotate q.head_).drop q.size

theorem items_append_stale : q.items ++ q.stale = q.v_.rotate q.head_ :=
  List.take_append_drop _ _

theorem size_le : q.size ≤ q.capacity := by
  have := q.head_le
  have := q.tail_le
  unfold size capacity
  split <;> omega

theorem length_items : q.items.length = q.size := by
  have := q.size_le
  unfold items capacity at *
  rw [List.length_take, List.length_rotate, q.length_v]
  omega

theorem length_items_le : q.items.length ≤ q.capacity := by
  rw [length_items]
  exact q.size_le

theorem length_items_add_stale : q.items.length + q.stale.length = q.max_items_ := by
  rw [← List.length_append, items_append_stale, List.length_rotate, q.length_v]

variable {q}

/-- The tail is as many places ahead of the head as there are items. -/
theorem tail_eq (h : 0 < q.max_items_) : q.tail_ = (q.head_ + q.items.length) % q.max_items_ := by
  have hhead := head_lt h
  have htail := tail_lt h
  rw [length_items]
  unfold size
  split
  · rw [show q.head_ + (q.tail_ - q.head_) = q.tail_ by omega, Nat.mod_eq_of_lt htail]
  · rw [show q.head_ + (q.max_items_ - (q.head_ - q.tail_)) = q.tail_ + q.max_items_ by omega,
      Nat.add_mod_right, Nat.mod_eq_of_lt htail]

/-- Two places in the ring at which the same number of items ends. -/
theorem size_eq {head t n : Nat} (hhead : head < q.max_items_) (hn : n < q.max_items_)
    (htail : t = (head + n) % q.max_items_) :
    (if t ≥ head then t - head else q.max_items_ - (head - t)) = n := by
  rcases Nat.lt_or_ge (head + n) q.max_items_ with hlt | hge
  · rw [Nat.mod_eq_of_lt hlt] at htail
    rw [if_pos (by omega)]
    omega
  · rw [Nat.mod_eq_sub_mod hge, Nat.mod_eq_of_lt (by omega)] at htail
    rw [if_neg (by omega)]
    omega

/-- The queue whose cells are laid out as two lists. -/
theorem cells_of_rotate {p : CircularQ T} {x y : List T} (hpos : 0 < p.max_items_)
    (hrotate : p.v_.rotate p.head_ = x ++ y) (hy : y ≠ [])
    (htail : p.tail_ = (p.head_ + x.length) % p.max_items_) :
    p.items = x ∧ p.stale = y := by
  have hlength : x.length + y.length = p.max_items_ := by
    rw [← List.length_append, ← hrotate, List.length_rotate, p.length_v]
  have := List.length_pos_iff.mpr hy
  have hsize : p.size = x.length := size_eq (head_lt hpos) (by omega) htail
  unfold items stale
  rw [hrotate, hsize]
  exact ⟨List.take_left .., List.drop_left ..⟩

theorem stale_ne_nil (h : 0 < q.max_items_) : q.stale ≠ [] := by
  have := q.length_items_add_stale
  have := q.length_items_le
  unfold capacity at this
  apply List.ne_nil_of_length_pos
  omega

theorem items_of_disabled (h : q.max_items_ = 0) : q.items = [] := by
  have := q.length_items_add_stale
  exact List.eq_nil_of_length_eq_zero (by omega)

theorem empty_iff : q.empty = true ↔ q.items = [] := by
  rw [← List.length_eq_zero_iff, length_items, empty, beq_iff_eq]
  have := q.head_le
  have := q.tail_le
  unfold size
  split <;> omega

theorem full_iff (h : 0 < q.max_items_) : q.full = true ↔ q.items.length = q.capacity := by
  have hhead := head_lt h
  have hle := q.length_items_le
  unfold full capacity at *
  rw [if_pos h, beq_iff_eq, tail_eq h, Nat.mod_add_mod]
  constructor
  · intro hfull
    by_contra hne
    have hsize := size_eq (t := q.head_) (n := q.items.length + 1) hhead (by omega)
      (by rw [← Nat.add_assoc, hfull])
    rw [if_pos (Nat.le_refl _)] at hsize
    omega
  · intro hlen
    rw [hlen, show q.head_ + (q.max_items_ - 1) + 1 = q.head_ + q.max_items_ by omega,
      Nat.add_mod_right, Nat.mod_eq_of_lt hhead]

-- ---------------------------------------------------------------------------
-- The operations on the cells
-- ---------------------------------------------------------------------------

/-- The cell at the tail is written. -/
theorem written (h : 0 < q.max_items_) (item : T) {gone : T} {rest : List T}
    (hstale : q.stale = gone :: rest) :
    (q.v_.set q.tail_ item).rotate q.head_ = q.items ++ item :: rest := by
  have hlt : q.items.length < q.v_.length := by
    have := q.length_items_add_stale
    rw [hstale, List.length_cons] at this
    rw [q.length_v]
    omega
  rw [tail_eq h, ← q.length_v, rotate_set _ _ _ hlt, ← q.items_append_stale, hstale,
    set_length_append]

theorem full_eq (h : 0 < q.max_items_) (item : T) :
    q.full = decide ((q.writeTail h item).tail_ = q.head_) := by
  unfold full
  rw [if_pos h]
  rfl

/-- A push onto a queue with room writes the next cell behind it. -/
theorem push_back_of_not_full (h : 0 < q.max_items_) (hfull : q.full = false) (item : T)
    {gone : T} {rest : List T} (hstale : q.stale = gone :: rest) :
    (q.push_back item).items = q.items ++ [item] ∧ (q.push_back item).stale = rest ∧
      (q.push_back item).overrun_counter_ = q.overrun_counter_ := by
  have hrest : rest ≠ [] := by
    rintro rfl
    have hlength := q.length_items_add_stale
    have hnot : ¬ q.items.length = q.capacity := by
      rw [← full_iff h, hfull]
      exact Bool.false_ne_true
    rw [hstale, List.length_singleton] at hlength
    unfold capacity at hnot
    omega
  have hq : q.push_back item = q.writeTail h item := by
    rw [full_eq h item, decide_eq_false_iff_not] at hfull
    unfold push_back
    rw [dif_pos h, if_neg hfull]
  have hcells := cells_of_rotate (p := q.writeTail h item) (x := q.items ++ [item]) (y := rest)
    h (by rw [List.append_assoc]; exact written h item hstale) hrest (by
      show (q.tail_ + 1) % q.max_items_ = (q.head_ + _) % q.max_items_
      rw [tail_eq h, Nat.mod_add_mod, List.length_append, List.length_singleton, Nat.add_assoc])
  rw [hq]
  exact ⟨hcells.1, hcells.2, rfl⟩

/-- A push onto a full queue overruns the oldest item, which stays in the cell behind it. -/
theorem push_back_of_full (h : 0 < q.max_items_) (hfull : q.full = true) (item : T)
    {oldest : T} {kept : List T} (hitems : q.items ++ [item] = oldest :: kept) :
    (q.push_back item).items = kept ∧ (q.push_back item).stale = [oldest] ∧
      (q.push_back item).overrun_counter_ = size_t (q.overrun_counter_ + 1) := by
  have hlength : q.items.length + 1 = q.max_items_ := by
    have := (full_iff h).mp hfull
    unfold capacity at this
    omega
  obtain ⟨gone, hstale⟩ : ∃ gone, q.stale = [gone] := by
    have := q.length_items_add_stale
    exact List.length_eq_one_iff.mp (by omega)
  have hkept : kept.length = q.items.length := by
    have := congrArg List.length hitems
    simpa using this.symm
  have htail : (q.writeTail h item).tail_ = q.head_ := by
    rwa [full_eq h item, decide_eq_true_iff] at hfull
  have hq : q.push_back item = { (q.writeTail h item).advanceHead h with
      overrun_counter_ := size_t (q.overrun_counter_ + 1) } := by
    unfold push_back
    rw [dif_pos h, if_pos htail]
  have hlen : (q.v_.set q.tail_ item).length = q.max_items_ := (q.writeTail h item).length_v
  have hcells := cells_of_rotate (p := q.push_back item) (x := kept) (y := [oldest])
    (by rw [hq]; exact h)
    (by
      rw [hq]
      show (q.v_.set q.tail_ item).rotate ((q.head_ + 1) % q.max_items_) = _
      rw [← hlen, rotate_succ_mod, written h item hstale, hitems, List.rotate_cons_succ,
        List.rotate_zero])
    (List.cons_ne_nil _ _)
    (by
      rw [hq]
      show (q.writeTail h item).tail_ = ((q.head_ + 1) % q.max_items_ + kept.length) % q.max_items_
      rw [htail, Nat.mod_add_mod, hkept,
        show q.head_ + 1 + q.items.length = q.head_ + q.max_items_ by omega, Nat.add_mod_right,
        Nat.mod_eq_of_lt (head_lt h)])
  exact ⟨hcells.1, hcells.2, by rw [hq]⟩

theorem push_back_of_disabled (h : q.max_items_ = 0) (item : T) : q.push_back item = q := by
  unfold push_back
  rw [dif_neg (by omega)]

theorem push_back_max_items (item : T) : (q.push_back item).max_items_ = q.max_items_ := by
  unfold push_back
  split
  · split
    · rfl
    · rfl
  · rfl

/-- **A push keeps the last items** that there is room for. -/
theorem push_back_items (item : T) :
    (q.push_back item).items = (q.items ++ [item]).rtake q.capacity := by
  rcases Nat.eq_zero_or_pos q.max_items_ with h | h
  · rw [push_back_of_disabled h, items_of_disabled h, capacity, h]
    rfl
  · by_cases hfull : q.full = true
    · obtain ⟨oldest, kept, hitems⟩ := List.exists_cons_of_ne_nil
        (List.append_ne_nil_of_right_ne_nil q.items (List.cons_ne_nil item []))
      have hlength := congrArg List.length hitems
      rw [List.length_append, (full_iff h).mp hfull] at hlength
      have hkept : kept.length = q.capacity := by simpa using hlength.symm
      rw [(push_back_of_full h hfull item hitems).1, hitems, List.rtake, List.length_cons, hkept,
        Nat.add_sub_cancel_left, List.drop_one, List.tail_cons]
    · obtain ⟨gone, rest, hstale⟩ := List.exists_cons_of_ne_nil (stale_ne_nil h)
      rw [Bool.not_eq_true] at hfull
      have hle := q.length_items_le
      have hnot : ¬ q.items.length = q.capacity := by
        rw [← full_iff h, hfull]
        exact Bool.false_ne_true
      rw [(push_back_of_not_full h hfull item hstale).1, rtake_of_length_le]
      rw [List.length_append, List.length_singleton]
      omega

/-- The item that `front` refers to. -/
theorem exists_front (h : q.empty = false) : ∃ rest, q.items = q.front h :: rest := by
  have hpos := pos_of_not_empty h
  have hne : q.items ≠ [] := by
    rw [ne_eq, ← empty_iff, h]
    exact Bool.false_ne_true
  have hhead := head_lt hpos
  have : (q.items ++ q.stale).head? = some (q.front h) := by
    rw [items_append_stale, List.head?_rotate (by rw [q.length_v]; exact hhead)]
    exact List.getElem?_eq_getElem _
  rw [List.head?_append_of_ne_nil _ hne] at this
  exact ⟨q.items.tail, (List.cons_head?_tail this).symm⟩

/-- The first item is taken off; its cell becomes the last one behind the queue. -/
theorem pop_front_cells (h : q.empty = false) {item : T} {rest : List T}
    (hitems : q.items = item :: rest) :
    (q.pop_front h).items = rest ∧ (q.pop_front h).stale = q.stale ++ [item] := by
  have hpos := pos_of_not_empty h
  refine cells_of_rotate (p := q.pop_front h) hpos ?_ (by simp) ?_
  · show q.v_.rotate ((q.head_ + 1) % q.max_items_) = _
    rw [← q.length_v, rotate_succ_mod, ← items_append_stale, hitems, List.cons_append,
      List.rotate_cons_succ, List.rotate_zero, List.append_assoc]
  · show q.tail_ = ((q.head_ + 1) % q.max_items_ + rest.length) % q.max_items_
    rw [tail_eq hpos, hitems, Nat.mod_add_mod, List.length_cons, Nat.add_right_comm,
      Nat.add_assoc]

/-- The first item is assigned. -/
theorem setFront_cells (x : T) {item : T} {rest : List T} (hitems : q.items = item :: rest) :
    (q.setFront x).items = x :: rest ∧ (q.setFront x).stale = q.stale := by
  have hpos : 0 < q.max_items_ := by
    have := q.length_items_add_stale
    rw [hitems, List.length_cons] at this
    omega
  refine cells_of_rotate (p := q.setFront x) hpos ?_ (stale_ne_nil hpos) ?_
  · have hwrite := rotate_set q.v_ q.head_ x (i := 0) (by rw [q.length_v]; exact hpos)
    rw [Nat.add_zero, q.length_v, Nat.mod_eq_of_lt (head_lt hpos)] at hwrite
    show (q.v_.set q.head_ x).rotate q.head_ = _
    rw [hwrite, ← items_append_stale, hitems, List.cons_append, List.set_cons_zero,
      List.cons_append]
  · show q.tail_ = (q.head_ + _) % q.max_items_
    rw [tail_eq hpos, hitems, List.length_cons, List.length_cons]

/-- The first item is moved out, and its cell `x` is taken off. -/
theorem moveFront_cells (h : q.empty = false) (x : T) {item : T} {rest : List T}
    (hitems : q.items = item :: rest) :
    ((q.setFront x).pop_front h).items = rest ∧
      ((q.setFront x).pop_front h).stale = q.stale ++ [x] := by
  obtain ⟨hset, hstale⟩ := setFront_cells x hitems
  rw [← hstale]
  exact pop_front_cells (q := q.setFront x) h hset

/-- At first the cells hold what the vector was made of. -/
theorem stale_ofMaxItems [Inhabited T] {max_items : Nat} {c : T}
    (h : c ∈ (ofMaxItems max_items : CircularQ T).stale) : c = default :=
  List.eq_of_mem_replicate (List.mem_rotate.mp (List.mem_of_mem_drop h))

theorem items_ofMaxItems [Inhabited T] (max_items : Nat) :
    (ofMaxItems max_items : CircularQ T).items = [] := by
  unfold items size ofMaxItems
  simp

end CircularQ

end Spdlog
