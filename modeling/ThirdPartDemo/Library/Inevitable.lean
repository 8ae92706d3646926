import Mathlib.Tactic.Common

/-!
# Library — what every run comes to

`Inevitable step P s` says of a state that every run from it ends, whichever steps are
taken, and that `P` holds where it ends. It is shown with an invariant and a measure that
every step brings down (`inevitable_of_measure`).
-/

namespace Library

universe u

variable {σ : Type u}

/-- Every run from the state ends, in a state where `P` holds. -/
inductive Inevitable (step : σ → σ → Prop) (P : σ → Prop) : σ → Prop
  | intro {s} : ((∃ s', step s s') ∨ P s) → (∀ s', step s s' → Inevitable step P s') →
      Inevitable step P s

variable {step : σ → σ → Prop} {P : σ → Prop}

/-- **Measure rule.** Every step keeps the invariant and brings the measure down, and where
there is no step, `P` holds. -/
theorem inevitable_of_measure {I : σ → Prop} (measure : σ → Nat)
    (hkeep : ∀ s s', I s → step s s' → I s')
    (hlt : ∀ s s', I s → step s s' → measure s' < measure s)
    (hend : ∀ s, I s → (∃ s', step s s') ∨ P s) {s : σ} (hs : I s) : Inevitable step P s := by
  induction hm : measure s using Nat.strongRecOn generalizing s with
  | ind m ih =>
    refine .intro (hend s hs) fun s' hstep => ?_
    have hless := hlt s s' hs hstep
    rw [hm] at hless
    exact ih (measure s') hless (hkeep s s' hs hstep) rfl

end Library
