import Mathlib.Data.List.Basic

/-!
# Library — allocations with a lifetime

A heap of blocks that are live from `alloc` to `free`. Addresses are never used
twice, so `lookup` tells a live block from a dead one and a reference that
outlives its block can be seen. What a dead block holds is nobody's business
here: the program that reads one says where the bytes come from.
-/

namespace Library

universe u

/-- The blocks in order of allocation; `none` marks a freed one. -/
structure Heap (α : Type u) where
  blocks : List (Option α) := []

variable {α : Type u}

namespace Heap

/-- The address of the new block, and the heap with it. -/
def alloc (h : Heap α) (a : α) : Nat × Heap α :=
  (h.blocks.length, ⟨h.blocks ++ [some a]⟩)

def free (h : Heap α) (addr : Nat) : Heap α :=
  ⟨h.blocks.set addr none⟩

/-- The content of a live block. -/
def lookup (h : Heap α) (addr : Nat) : Option α :=
  h.blocks[addr]?.join

/-- No block is live. -/
def Dead (h : Heap α) : Prop :=
  ∀ addr, h.lookup addr = none

theorem dead_empty : (⟨[]⟩ : Heap α).Dead := fun _ => rfl

@[simp] theorem lookup_free (h : Heap α) (addr : Nat) : (h.free addr).lookup addr = none := by
  unfold free lookup
  by_cases hlt : addr < h.blocks.length
  · simp [List.getElem?_set_self hlt]
  · simp [List.set_eq_of_length_le (Nat.le_of_not_lt hlt),
      List.getElem?_eq_none (Nat.le_of_not_lt hlt)]

theorem lookup_free_of_ne (h : Heap α) {addr other : Nat} (hne : addr ≠ other) :
    (h.free addr).lookup other = h.lookup other := by
  simp [free, lookup, List.getElem?_set_ne hne]

theorem lookup_alloc_of_ne (h : Heap α) (a : α) {other : Nat} (hne : other ≠ (h.alloc a).1) :
    (h.alloc a).2.lookup other = h.lookup other := by
  unfold alloc lookup
  rw [List.getElem?_append]
  split_ifs with hlt
  · rfl
  · rw [List.getElem?_eq_none (l := h.blocks) (by omega),
      List.getElem?_eq_none (by change other ≠ h.blocks.length at hne; simp; omega)]

/-- **A block that lives for one scope leaves a dead heap dead.** -/
theorem Dead.free_alloc {h : Heap α} (hdead : h.Dead) (a : α) :
    ((h.alloc a).2.free (h.alloc a).1).Dead := by
  intro addr
  by_cases heq : addr = (h.alloc a).1
  · rw [heq, lookup_free]
  · rw [lookup_free_of_ne _ (Ne.symm heq), lookup_alloc_of_ne _ _ heq]
    exact hdead addr

end Heap

end Library
