import Mathlib.Data.List.Rotate
import Mathlib.Data.List.DropRight
import Mathlib.Data.Nat.ModEq

/-!
# Library — lists that are read around a ring

A circular buffer is a list `v` and the place `h` at which reading begins: what is read
is `v.rotate h`. A cell that is `i` places ahead of the beginning is written by
`rotate_set`, and the beginning moves on by `rotate_succ_mod`.
-/

namespace Library

universe u

variable {α : Type u}

/-- Writing the cell `i` places ahead of the beginning. -/
theorem rotate_set (v : List α) (h : Nat) (x : α) {i : Nat} (hi : i < v.length) :
    (v.set ((h + i) % v.length) x).rotate h = (v.rotate h).set i x := by
  apply List.ext_getElem
  · simp
  · intro k hk _
    have hk : k < v.length := by simpa using hk
    rw [List.getElem_rotate, List.getElem_set, List.getElem_set, List.getElem_rotate]
    simp only [List.length_set]
    congr 1
    rw [Nat.add_comm k h, eq_iff_iff]
    constructor
    · intro heq
      have := Nat.ModEq.add_left_cancel' h heq
      rwa [Nat.ModEq, Nat.mod_eq_of_lt hi, Nat.mod_eq_of_lt hk] at this
    · rintro rfl
      rfl

/-- The beginning moves on by one cell. -/
theorem rotate_succ_mod (v : List α) (h : Nat) :
    v.rotate ((h + 1) % v.length) = (v.rotate h).rotate 1 := by
  rw [List.rotate_mod, List.rotate_rotate]

/-- The cell behind the first `items` is written. -/
theorem set_length_append (items rest : List α) (gone x : α) :
    (items ++ gone :: rest).set items.length x = items ++ x :: rest := by
  rw [List.set_append_right _ _ (Nat.le_refl _), Nat.sub_self, List.set_cons_zero]

/-- A window of the last `n` items holds a list that is no longer. -/
theorem rtake_of_length_le {n : Nat} {l : List α} (h : l.length ≤ n) : l.rtake n = l := by
  unfold List.rtake
  rw [Nat.sub_eq_zero_of_le h, List.drop_zero]

end Library
