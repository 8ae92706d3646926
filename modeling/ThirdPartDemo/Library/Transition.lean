import Mathlib.Data.List.Induction

/-!
# Library — event-driven systems

An event-driven component is a state type with a guarded step
`step : σ → ε → Option σ`: `none` says that the event cannot occur in that
state. `run` plays a whole list of events. The rules are the invariant rule
over runs (`run_invariant`), its form for runs whose events all meet a
condition (`run_invariant_of_events`) and the one for what holds of a state and
the events that led to it (`run_history`), and the composition and splitting of
runs (`run_append`, `exists_run_of_prefix`, `exists_step_of_run`). `EachAfter`
says of a list of events what each of them meets in the events before it.
-/

namespace Library

universe u v

variable {σ : Type u} {ε : Type v}

/-- Play a list of events from a state; `none` when one of them is not enabled. -/
def run (step : σ → ε → Option σ) : σ → List ε → Option σ
  | s, [] => some s
  | s, e :: es => (step s e).bind fun s' => run step s' es

variable {step : σ → ε → Option σ} {s t : σ}

theorem run_cons {e : ε} {es : List ε} :
    run step s (e :: es) = (step s e).bind fun s' => run step s' es := rfl

theorem run_append (es fs : List ε) :
    run step s (es ++ fs) = (run step s es).bind fun t => run step t fs := by
  induction es generalizing s with
  | nil => rfl
  | cons e es ih =>
    rw [List.cons_append, run_cons, run_cons]
    cases step s e with
    | none => rfl
    | some s' => exact ih

/-- A run passes through a state after each of its prefixes. -/
theorem exists_run_of_prefix {es pre : List ε} (hrun : run step s es = some t)
    (hpre : pre <+: es) : ∃ u, run step s pre = some u := by
  obtain ⟨post, rfl⟩ := hpre
  rw [run_append] at hrun
  obtain ⟨u, hu, -⟩ := Option.bind_eq_some_iff.mp hrun
  exact ⟨u, hu⟩

theorem run_concat {es : List ε} {e : ε} :
    run step s (es ++ [e]) = (run step s es).bind fun t => step t e := by
  rw [run_append]
  congr 1
  funext t
  rw [run_cons]
  cases step t e with
  | none => rfl
  | some t' => rfl

/-- A run comes to each of its events in some state, and takes the step there. -/
theorem exists_step_of_run {pre post : List ε} {e : ε}
    (hrun : run step s (pre ++ e :: post) = some t) :
    ∃ u u', run step s pre = some u ∧ step u e = some u' ∧
      run step s (pre ++ [e]) = some u' := by
  rw [run_append] at hrun
  obtain ⟨u, hu, hrest⟩ := Option.bind_eq_some_iff.mp hrun
  obtain ⟨u', hu', -⟩ := Option.bind_eq_some_iff.mp hrest
  exact ⟨u, u', hu, hu', by rw [run_concat, hu, Option.bind_some, hu']⟩

/-- **History rule.** What holds of the first state and no events, and is carried
on by every step and its event, holds of every run and the state it ends in. -/
theorem run_history {I : List ε → σ → Prop} (hs : I [] s)
    (hstep : ∀ es u e u', run step s es = some u → I es u → step u e = some u' →
      I (es ++ [e]) u')
    {es : List ε} (hrun : run step s es = some t) : I es t := by
  induction es using List.reverseRecOn generalizing t with
  | nil =>
    cases hrun
    exact hs
  | append_singleton es e ih =>
    rw [run_concat] at hrun
    obtain ⟨u, hu, hlast⟩ := Option.bind_eq_some_iff.mp hrun
    exact hstep es u e t hu (ih hu) hlast

/-- **Invariant rule, conditional form.** What every step on an event meeting
`P` preserves holds after a run of such events. -/
theorem run_invariant_of_events {I : σ → Prop} {P : ε → Prop}
    (hstep : ∀ s e s', I s → P e → step s e = some s' → I s')
    {es : List ε} (hP : ∀ e ∈ es, P e) (hrun : run step s es = some t) (hs : I s) :
    I t := by
  induction es generalizing s with
  | nil =>
    cases hrun
    exact hs
  | cons e es ih =>
    obtain ⟨s', hstep', hrest⟩ := Option.bind_eq_some_iff.mp hrun
    exact ih (fun e' he' => hP e' (List.mem_cons_of_mem _ he')) hrest
      (hstep s e s' hs (hP e (List.mem_cons_self ..)) hstep')

/-- **Invariant rule.** What every step preserves holds after every run. -/
theorem run_invariant {I : σ → Prop}
    (hstep : ∀ s e s', I s → step s e = some s' → I s')
    {es : List ε} (hrun : run step s es = some t) (hs : I s) : I t :=
  run_invariant_of_events (P := fun _ => True) (fun s e s' h _ => hstep s e s' h)
    (fun _ _ => trivial) hrun hs

/-- Each event of the list comes after events that it stands in the relation `Q` to. -/
def EachAfter (Q : List ε → ε → Prop) (es : List ε) : Prop :=
  ∀ pre e post, es = pre ++ e :: post → Q pre e

variable {Q : List ε → ε → Prop}

theorem eachAfter_nil : EachAfter Q [] := by
  intro pre e post hes
  simp at hes

/-- Where an event stands in a list with one more event: it is the last one, or it
stands in the list before. -/
theorem append_cons_eq_concat {pre post es : List ε} {e last : ε}
    (h : pre ++ e :: post = es ++ [last]) :
    (pre = es ∧ e = last ∧ post = []) ∨
      ∃ post', post = post' ++ [last] ∧ pre ++ e :: post' = es := by
  rcases List.eq_nil_or_concat post with rfl | ⟨post', last', rfl⟩
  · obtain ⟨hpre, he⟩ := List.append_inj' h rfl
    exact Or.inl ⟨hpre, List.singleton_inj.mp he, rfl⟩
  · rw [List.concat_eq_append, ← List.cons_append, ← List.append_assoc] at h
    obtain ⟨hes, hlast⟩ := List.append_inj' h rfl
    refine Or.inr ⟨post', ?_, hes⟩
    rw [List.concat_eq_append, hlast]

theorem eachAfter_concat (es : List ε) (last : ε) :
    EachAfter Q (es ++ [last]) ↔ EachAfter Q es ∧ Q es last := by
  constructor
  · intro h
    refine ⟨?_, h es last [] rfl⟩
    intro pre e post hes
    exact h pre e (post ++ [last]) (by rw [hes, List.append_assoc, List.cons_append])
  · rintro ⟨hbefore, hlast⟩ pre e post hes
    rcases append_cons_eq_concat hes.symm with ⟨rfl, rfl, -⟩ | ⟨post', -, hpre⟩
    · exact hlast
    · exact hbefore pre e post' hpre.symm

end Library
