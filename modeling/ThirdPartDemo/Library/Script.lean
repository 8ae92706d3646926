import ThirdPartDemo.Library.Sax

/-!
# Library — readers as scripts of handler calls

A SAX reader learns one thing from its handler: whether a call returned `false`,
and then it stops. So what a reader does on an input is a `Script`: the calls it
makes, each with the error it reports if that call is refused, and how it ends if
none is. Scripts are put together with `bind`, as the statements of the reader
are, and `play` runs one on a handler.

A reader that recurses on a budget may also run out of it, which is an ending of
its own (`outOfFuel`), and so is a failed assertion (`aborted`).

* `play_eq` — a handler meets the events of the script one by one, and the first
  one it refuses ends the run;
* `Script.Yields.bind`, `Script.exists_of_bind` — a composition and its parts;
* `Script.Ensures.bind` — what holds however a script ends;
* `Script.Tells.bind` — what the events of a script are a beginning of;
* `Script.Alike.bind`, `Script.Alike.play` — scripts that make the same calls;
* `Script.Follows.bind`, `Script.Follows.play` — and come to results of different kinds.
-/

namespace Library

universe u v w

/-- How a computation on a budget ends. -/
inductive Ending (ε : Type u) (α : Type v) where
  | done (a : α)
  | fail (e : ε)
  | aborted
  | outOfFuel
  deriving DecidableEq, Repr

namespace Ending

variable {ε : Type u} {α : Type v} {β : Type w}

/-- Go on from a result. -/
def bind (x : Ending ε α) (f : α → Ending ε β) : Ending ε β :=
  match x with
  | done a => f a
  | fail e => fail e
  | aborted => aborted
  | outOfFuel => outOfFuel

@[simp] theorem bind_done (a : α) (f : α → Ending ε β) : (done a).bind f = f a := rfl
@[simp] theorem bind_fail (e : ε) (f : α → Ending ε β) : (fail e).bind f = fail e := rfl
@[simp] theorem bind_aborted (f : α → Ending ε β) :
    (aborted : Ending ε α).bind f = aborted := rfl
@[simp] theorem bind_outOfFuel (f : α → Ending ε β) :
    (outOfFuel : Ending ε α).bind f = outOfFuel := rfl

theorem bind_eq_done {x : Ending ε α} {f : α → Ending ε β} {b : β} :
    x.bind f = done b ↔ ∃ a, x = done a ∧ f a = done b := by
  cases x <;> simp

/-- The budget suffices, `P` holds of the result if there is one, `E` of the error if
there is one, and `A` if the computation is aborted. -/
def Ensures (A : Prop) (E : ε → Prop) (P : α → Prop) (x : Ending ε α) : Prop :=
  match x with
  | done a => P a
  | fail e => E e
  | aborted => A
  | outOfFuel => False

variable {A : Prop} {E : ε → Prop}

theorem Ensures.bind {P : α → Prop} {Q : β → Prop} {x : Ending ε α} {f : α → Ending ε β}
    (hx : x.Ensures A E P) (hf : ∀ a, P a → (f a).Ensures A E Q) : (x.bind f).Ensures A E Q := by
  cases x with
  | done a => exact hf a hx
  | fail e => exact hx
  | aborted => exact hx
  | outOfFuel => exact hx

theorem Ensures.mono {P Q : α → Prop} {x : Ending ε α} (hx : x.Ensures A E P)
    (h : ∀ a, P a → Q a) : x.Ensures A E Q := by
  cases x with
  | done a => exact h a hx
  | fail e => exact hx
  | aborted => exact hx
  | outOfFuel => exact hx

theorem Ensures.of_done {P : α → Prop} {x : Ending ε α} (h : x.Ensures A E P) {a : α}
    (hx : x = done a) : P a := by
  rw [hx] at h
  exact h

theorem Ensures.imp_done {P Q : α → Prop} {x : Ending ε α} (hx : x.Ensures A E P)
    (h : ∀ a, x = done a → Q a) : x.Ensures A E Q := by
  cases x with
  | done a => exact h a rfl
  | fail e => exact hx
  | aborted => exact hx
  | outOfFuel => exact hx

/-- Two computations end alike, with results that `R` relates. -/
def Related (R : α → β → Prop) : Ending ε α → Ending ε β → Prop
  | done a, done b => R a b
  | fail e, fail e' => e = e'
  | aborted, aborted => True
  | outOfFuel, outOfFuel => True
  | _, _ => False

theorem Related.mono {R S : α → β → Prop} {x : Ending ε α} {y : Ending ε β} (h : x.Related R y)
    (hRS : ∀ a b, R a b → S a b) : x.Related S y := by
  cases x
  all_goals cases y
  case done.done a b => exact hRS a b h
  all_goals exact h

theorem Related.bind {γ δ : Type*} {R : α → β → Prop} {S : γ → δ → Prop} {x : Ending ε α}
    {y : Ending ε β} {f : α → Ending ε γ} {g : β → Ending ε δ} (h : x.Related R y)
    (hfg : ∀ a b, x = done a → R a b → (f a).Related S (g b)) :
    (x.bind f).Related S (y.bind g) := by
  cases x
  all_goals cases y
  case done.done a b => exact hfg a b rfl h
  all_goals first | exact h | exact h.elim

end Ending

/-- The calls of a run, each with the error that its refusal leads to, and the end
that the run comes to if no call is refused. -/
structure Script (ε : Type u) (α : Type v) where
  calls : List (SaxEvent × ε)
  result : Ending ε α

namespace Script

variable {ε : Type u} {α : Type v} {β : Type w}

/-- No call and a result. -/
def pure (a : α) : Script ε α := ⟨[], .done a⟩

/-- No call and an error. -/
def fail (e : ε) : Script ε α := ⟨[], .fail e⟩

/-- No call, and the budget is used up. -/
def outOfFuel : Script ε α := ⟨[], .outOfFuel⟩

/-- One call, which fails with `e` if it is refused. -/
def call (event : SaxEvent) (e : ε) (a : α) : Script ε α := ⟨[(event, e)], .done a⟩

/-- A computation that makes no calls. -/
def lift (x : Ending ε α) : Script ε α := ⟨[], x⟩

/-- One script after the other. -/
def bind (x : Script ε α) (f : α → Script ε β) : Script ε β :=
  match x.result with
  | .done a => ⟨x.calls ++ (f a).calls, (f a).result⟩
  | .fail e => ⟨x.calls, .fail e⟩
  | .aborted => ⟨x.calls, .aborted⟩
  | .outOfFuel => ⟨x.calls, .outOfFuel⟩

/-- The events of the calls. -/
def events (x : Script ε α) : List SaxEvent := x.calls.map Prod.fst

@[simp] theorem pure_bind (a : α) (f : α → Script ε β) : (pure a).bind f = f a := rfl

@[simp] theorem events_pure (a : α) : (pure a : Script ε α).events = [] := rfl
@[simp] theorem events_call (event : SaxEvent) (e : ε) (a : α) :
    (call event e a).events = [event] := rfl
@[simp] theorem events_lift (x : Ending ε α) : (lift x).events = [] := rfl
@[simp] theorem result_lift (x : Ending ε α) : (lift x).result = x := rfl

theorem bind_of_done {x : Script ε α} {a : α} (h : x.result = .done a) (f : α → Script ε β) :
    x.bind f = ⟨x.calls ++ (f a).calls, (f a).result⟩ := by
  rw [bind, h]

theorem events_bind_of_done {x : Script ε α} {a : α} (h : x.result = .done a)
    (f : α → Script ε β) : (x.bind f).events = x.events ++ (f a).events := by
  rw [bind_of_done h, events, List.map_append]
  rfl

theorem result_bind_of_done {x : Script ε α} {a : α} (h : x.result = .done a)
    (f : α → Script ε β) : (x.bind f).result = (f a).result := by
  rw [bind_of_done h]

theorem bind_of_fail {x : Script ε α} {e : ε} (h : x.result = .fail e) (f : α → Script ε β) :
    x.bind f = ⟨x.calls, .fail e⟩ := by
  rw [bind, h]

theorem bind_of_aborted {x : Script ε α} (h : x.result = .aborted) (f : α → Script ε β) :
    x.bind f = ⟨x.calls, .aborted⟩ := by
  rw [bind, h]

theorem bind_of_outOfFuel {x : Script ε α} (h : x.result = .outOfFuel) (f : α → Script ε β) :
    x.bind f = ⟨x.calls, .outOfFuel⟩ := by
  rw [bind, h]

@[simp] theorem result_bind (x : Script ε α) (f : α → Script ε β) :
    (x.bind f).result = x.result.bind fun a => (f a).result := by
  cases hx : x.result with
  | done a => rw [result_bind_of_done hx, Ending.bind_done]
  | fail e => rw [bind_of_fail hx, Ending.bind_fail]
  | aborted => rw [bind_of_aborted hx, Ending.bind_aborted]
  | outOfFuel => rw [bind_of_outOfFuel hx, Ending.bind_outOfFuel]

/-- A composition is done when both parts are. -/
theorem bind_eq_done {x : Script ε α} {f : α → Script ε β} {b : β}
    (h : (x.bind f).result = .done b) :
    ∃ a, x.result = .done a ∧ (f a).result = .done b ∧
      (x.bind f).events = x.events ++ (f a).events := by
  cases hx : x.result with
  | done a =>
    rw [result_bind_of_done hx] at h
    exact ⟨a, rfl, h, events_bind_of_done hx f⟩
  | fail e =>
    rw [bind_of_fail hx] at h
    cases h
  | aborted =>
    rw [bind_of_aborted hx] at h
    cases h
  | outOfFuel =>
    rw [bind_of_outOfFuel hx] at h
    cases h

end Script

-- ---------------------------------------------------------------------------
-- Rules
-- ---------------------------------------------------------------------------

namespace Script

variable {ε : Type u} {α : Type v} {β : Type w}

/-- The script comes to the result `a` after the events `es`. -/
def Yields (x : Script ε α) (es : List SaxEvent) (a : α) : Prop :=
  x.result = .done a ∧ x.events = es

theorem Yields.bind {x : Script ε α} {es fs : List SaxEvent} {a : α} {f : α → Script ε β} {b : β}
    (hx : x.Yields es a) (hf : (f a).Yields fs b) : (x.bind f).Yields (es ++ fs) b := by
  obtain ⟨hx, rfl⟩ := hx
  obtain ⟨hf, rfl⟩ := hf
  exact ⟨(result_bind_of_done hx f).trans hf, events_bind_of_done hx f⟩

theorem yields_call (event : SaxEvent) (e : ε) (a : α) : (call event e a).Yields [event] a :=
  ⟨rfl, rfl⟩

/-- Both parts of a composition that comes to a result do. -/
theorem exists_of_bind {x : Script ε α} {f : α → Script ε β} {b : β}
    (h : (x.bind f).result = .done b) :
    ∃ a, x.Yields x.events a ∧ (f a).result = .done b ∧
      (x.bind f).events = x.events ++ (f a).events := by
  obtain ⟨a, hx, hf, hevents⟩ := bind_eq_done h
  exact ⟨a, ⟨hx, rfl⟩, hf, hevents⟩

/-- The budget suffices, `P` holds of the result if there is one, `E` of the error if
there is one, `A` if the script is aborted, and `C` of the errors that refused calls are
reported as. -/
def Ensures (A : Prop) (C E : ε → Prop) (P : α → Prop) (x : Script ε α) : Prop :=
  (∀ c ∈ x.calls, C c.2) ∧ x.result.Ensures A E P

variable {A : Prop} {C E : ε → Prop}

theorem Ensures.bind {P : α → Prop} {Q : β → Prop} {x : Script ε α} {f : α → Script ε β}
    (hx : x.Ensures A C E P) (hf : ∀ a, P a → (f a).Ensures A C E Q) :
    (x.bind f).Ensures A C E Q := by
  obtain ⟨hcalls, hresult⟩ := hx
  cases h : x.result with
  | done a =>
    rw [h] at hresult
    obtain ⟨hcalls', hresult'⟩ := hf a hresult
    rw [bind_of_done h]
    refine ⟨fun c hc => ?_, hresult'⟩
    obtain hc | hc := List.mem_append.mp hc
    · exact hcalls c hc
    · exact hcalls' c hc
  | fail e =>
    rw [h] at hresult
    rw [bind_of_fail h]
    exact ⟨hcalls, hresult⟩
  | aborted =>
    rw [h] at hresult
    rw [bind_of_aborted h]
    exact ⟨hcalls, hresult⟩
  | outOfFuel =>
    rw [h] at hresult
    exact hresult.elim

theorem Ensures.mono {P Q : α → Prop} {x : Script ε α} (hx : x.Ensures A C E P)
    (h : ∀ a, P a → Q a) : x.Ensures A C E Q := ⟨hx.1, hx.2.mono h⟩

theorem ensures_lift {P : α → Prop} {x : Ending ε α} (h : x.Ensures A E P) :
    (lift x).Ensures A C E P := ⟨fun _ hc => absurd hc List.not_mem_nil, h⟩

theorem ensures_pure {P : α → Prop} {a : α} (h : P a) : (pure a : Script ε α).Ensures A C E P :=
  ⟨fun _ hc => absurd hc List.not_mem_nil, h⟩

theorem ensures_fail {P : α → Prop} {e : ε} (h : E e) : (fail e : Script ε α).Ensures A C E P :=
  ⟨fun _ hc => absurd hc List.not_mem_nil, h⟩

theorem ensures_call {P : α → Prop} {event : SaxEvent} {e : ε} {a : α} (he : C e) (h : P a) :
    (call event e a).Ensures A C E P :=
  ⟨fun _ hc => List.mem_singleton.mp hc ▸ he, h⟩

theorem Ensures.of_done {P : α → Prop} {x : Script ε α} (h : x.Ensures A C E P) {a : α}
    (hx : x.result = .done a) : P a := h.2.of_done hx

/-- The events of the script are a beginning of events for which `P` holds, and `P` holds
of them if the script comes to a result. -/
def Tells (P : List SaxEvent → Prop) (x : Script ε α) : Prop :=
  (∃ rest, P (x.events ++ rest)) ∧ ∀ a, x.result = .done a → P x.events

theorem Tells.bind {P Q R : List SaxEvent → Prop} {x : Script ε α} {f : α → Script ε β}
    (hx : x.Tells P) (hf : ∀ a, (f a).Tells Q) (hQ : ∃ es, Q es)
    (hR : ∀ es fs, P es → Q fs → R (es ++ fs)) : (x.bind f).Tells R := by
  obtain ⟨⟨rest, hrest⟩, hdone⟩ := hx
  obtain ⟨es, hes⟩ := hQ
  -- a script that fails is continued to `P` first
  have hfailed : ∀ y : Script ε β, y.events = x.events → (∀ b, y.result ≠ .done b) → y.Tells R := by
    intro y hevents hresult
    refine ⟨⟨rest ++ es, ?_⟩, fun b hb => absurd hb (hresult b)⟩
    rw [hevents, ← List.append_assoc]
    exact hR _ _ hrest hes
  cases hresult : x.result with
  | done a =>
    obtain ⟨⟨rest', hrest'⟩, hdone'⟩ := hf a
    refine ⟨⟨rest', ?_⟩, fun b hb => ?_⟩
    · rw [events_bind_of_done hresult, List.append_assoc]
      exact hR _ _ (hdone a hresult) hrest'
    · rw [events_bind_of_done hresult]
      rw [result_bind_of_done hresult] at hb
      exact hR _ _ (hdone a hresult) (hdone' b hb)
  | fail e =>
    rw [bind_of_fail hresult]
    exact hfailed _ rfl fun _ => nofun
  | aborted =>
    rw [bind_of_aborted hresult]
    exact hfailed _ rfl fun _ => nofun
  | outOfFuel =>
    rw [bind_of_outOfFuel hresult]
    exact hfailed _ rfl fun _ => nofun

theorem Tells.mono {P Q : List SaxEvent → Prop} {x : Script ε α} (h : x.Tells P)
    (hPQ : ∀ es, P es → Q es) : x.Tells Q :=
  ⟨h.1.imp fun _ => hPQ _, fun a ha => hPQ _ (h.2 a ha)⟩

theorem tells_lift (x : Ending ε α) : (lift x).Tells (· = []) := ⟨⟨[], rfl⟩, fun _ _ => rfl⟩

theorem tells_pure (a : α) : (pure a : Script ε α).Tells (· = []) := ⟨⟨[], rfl⟩, fun _ _ => rfl⟩

theorem tells_call (event : SaxEvent) (e : ε) (a : α) : (call event e a).Tells (· = [event]) :=
  ⟨⟨[], rfl⟩, fun _ _ => rfl⟩

theorem tells_fail {P : List SaxEvent → Prop} (e : ε) (hP : ∃ es, P es) :
    (fail e : Script ε α).Tells P := ⟨hP, nofun⟩

theorem tells_outOfFuel {P : List SaxEvent → Prop} (hP : ∃ es, P es) :
    (outOfFuel : Script ε α).Tells P := ⟨hP, nofun⟩

-- ---------------------------------------------------------------------------
-- Composition, and scripts that are alike
-- ---------------------------------------------------------------------------

theorem bind_assoc {γ : Type*} (x : Script ε α) (f : α → Script ε β) (g : β → Script ε γ) :
    (x.bind f).bind g = x.bind fun a => (f a).bind g := by
  cases hx : x.result with
  | done a =>
    rw [bind_of_done hx f, bind_of_done hx]
    unfold bind
    cases (f a).result with
    | done b => simp
    | _ => rfl
  | fail e =>
    rw [bind_of_fail hx f, bind_of_fail hx]
    rfl
  | aborted =>
    rw [bind_of_aborted hx f, bind_of_aborted hx]
    rfl
  | outOfFuel =>
    rw [bind_of_outOfFuel hx f, bind_of_outOfFuel hx]
    rfl

theorem bind_congr {x : Script ε α} {f g : α → Script ε β}
    (h : ∀ a, x.result = .done a → f a = g a) : x.bind f = x.bind g := by
  cases hx : x.result with
  | done a => rw [bind_of_done hx, bind_of_done hx, h a hx]
  | fail e => rw [bind_of_fail hx, bind_of_fail hx]
  | aborted => rw [bind_of_aborted hx, bind_of_aborted hx]
  | outOfFuel => rw [bind_of_outOfFuel hx, bind_of_outOfFuel hx]

theorem call_bind_congr {γ : Type*} (event : SaxEvent) (e : ε) {a : α} {b : β}
    {f : α → Script ε γ} {g : β → Script ε γ} (h : f a = g b) :
    (call event e a).bind f = (call event e b).bind g := by
  rw [bind_of_done rfl, bind_of_done rfl, h]
  rfl

variable {κ : Type*} {k : ε → κ}

/-- The same calls and the same end. Of the errors that refused calls are reported as,
only `k` has to be the same. -/
def Alike (k : ε → κ) (x y : Script ε α) : Prop :=
  x.calls.map (Prod.map id k) = y.calls.map (Prod.map id k) ∧ x.result = y.result

theorem Alike.refl (k : ε → κ) (x : Script ε α) : x.Alike k x := ⟨rfl, rfl⟩

theorem Alike.trans {x y z : Script ε α} (h : x.Alike k y) (h' : y.Alike k z) : x.Alike k z :=
  ⟨h.1.trans h'.1, h.2.trans h'.2⟩

theorem Alike.bind {x y : Script ε α} {f g : α → Script ε β} (h : x.Alike k y)
    (hf : ∀ a, x.result = .done a → (f a).Alike k (g a)) : (x.bind f).Alike k (y.bind g) := by
  obtain ⟨hcalls, hresult⟩ := h
  cases hx : x.result with
  | done a =>
    obtain ⟨hcalls', hresult'⟩ := hf a hx
    rw [bind_of_done hx, bind_of_done (hresult.symm.trans hx)]
    refine ⟨?_, hresult'⟩
    rw [List.map_append, List.map_append, hcalls, hcalls']
  | fail e =>
    rw [bind_of_fail hx, bind_of_fail (hresult.symm.trans hx)]
    exact ⟨hcalls, rfl⟩
  | aborted =>
    rw [bind_of_aborted hx, bind_of_aborted (hresult.symm.trans hx)]
    exact ⟨hcalls, rfl⟩
  | outOfFuel =>
    rw [bind_of_outOfFuel hx, bind_of_outOfFuel (hresult.symm.trans hx)]
    exact ⟨hcalls, rfl⟩

theorem alike_call (event : SaxEvent) {e e' : ε} (h : k e = k e') (a : α) :
    (call event e a).Alike k (call event e' a) := by
  refine ⟨?_, rfl⟩
  rw [call, call, List.map_singleton, List.map_singleton, Prod.map, Prod.map, h]

section Follows

variable {α' : Type*} {β' : Type*}

/-- Two scripts make the same calls, to be refused with the same errors, and end alike,
with results that `R` relates after the events. -/
def Follows (R : List SaxEvent → α → β → Prop) (x : Script ε α) (y : Script ε β) : Prop :=
  x.calls = y.calls ∧ x.result.Related (R x.events) y.result

theorem follows_lift {R : List SaxEvent → α → β → Prop} {x : Ending ε α} {y : Ending ε β}
    (h : x.Related (R []) y) : (lift x).Follows R (lift y) := ⟨rfl, h⟩

theorem follows_call {R : List SaxEvent → α → β → Prop} (event : SaxEvent) (e : ε) {a : α} {b : β}
    (h : R [event] a b) : (call event e a).Follows R (call event e b) := ⟨rfl, h⟩

theorem follows_fail {R : List SaxEvent → α → β → Prop} (e : ε) :
    (fail e : Script ε α).Follows R (fail e) := ⟨rfl, rfl⟩

theorem follows_pure {R : List SaxEvent → α → β → Prop} {a : α} {b : β} (h : R [] a b) :
    (pure a : Script ε α).Follows R (pure b) := ⟨rfl, h⟩

theorem Follows.mono {R S : List SaxEvent → α → β → Prop} {x : Script ε α} {y : Script ε β}
    (h : x.Follows R y) (hRS : ∀ es a b, R es a b → S es a b) : x.Follows S y :=
  ⟨h.1, h.2.mono (hRS _)⟩

theorem Follows.bind {R : List SaxEvent → α → β → Prop} {S : List SaxEvent → α' → β' → Prop}
    {x : Script ε α} {y : Script ε β} {f : α → Script ε α'} {g : β → Script ε β'}
    (h : x.Follows R y)
    (hfg : ∀ es a b, R es a b → (f a).Follows (fun es' => S (es ++ es')) (g b)) :
    (x.bind f).Follows S (y.bind g) := by
  obtain ⟨hcalls, hresult⟩ := h
  cases hx : x.result
  all_goals cases hy : y.result
  all_goals rw [hx, hy] at hresult
  case done.done a b =>
    obtain ⟨hcalls', hresult'⟩ := hfg _ a b hresult
    rw [bind_of_done hx, bind_of_done hy]
    refine ⟨?_, ?_⟩
    · rw [hcalls, hcalls']
    · unfold events at hresult' ⊢
      rwa [List.map_append]
  case fail.fail e e' =>
    rw [bind_of_fail hx, bind_of_fail hy]
    exact ⟨hcalls, hresult⟩
  case aborted.aborted =>
    rw [bind_of_aborted hx, bind_of_aborted hy]
    exact ⟨hcalls, trivial⟩
  case outOfFuel.outOfFuel =>
    rw [bind_of_outOfFuel hx, bind_of_outOfFuel hy]
    exact ⟨hcalls, trivial⟩
  all_goals exact hresult.elim

end Follows

end Script

-- ---------------------------------------------------------------------------
-- Playing a script
-- ---------------------------------------------------------------------------

variable {ε : Type u} {α : Type v} {σ : Type w} {handler : σ → SaxEvent → Bool × σ}

/-- The first refused call's error, if a call is refused, and the handler then. -/
def playCalls (handler : σ → SaxEvent → Bool × σ) : σ → List (SaxEvent × ε) → Option ε × σ
  | s, [] => (none, s)
  | s, (event, e) :: calls =>
    match handler s event with
    | (true, s') => playCalls handler s' calls
    | (false, s') => (some e, s')

/-- Run a script on a handler. -/
def Script.play (x : Script ε α) (handler : σ → SaxEvent → Bool × σ) (s : σ) :
    Ending ε α × σ :=
  match playCalls handler s x.calls with
  | (none, s') => (x.result, s')
  | (some e, s') => (.fail e, s')

theorem playCalls_eq (handler : σ → SaxEvent → Bool × σ) (calls : List (SaxEvent × ε))
    (s : σ) :
    (playCalls handler s calls).2 = (fire handler s (calls.map Prod.fst)).2 ∧
      ((playCalls handler s calls).1 = none ↔
        (fire handler s (calls.map Prod.fst)).1 = true) := by
  induction calls generalizing s with
  | nil => exact ⟨rfl, iff_of_true rfl rfl⟩
  | cons c calls ih =>
    obtain ⟨event, e⟩ := c
    rw [List.map_cons, playCalls, fire]
    dsimp only
    obtain ⟨_ | _, s'⟩ := handler s event
    · exact ⟨rfl, by simp⟩
    · exact ih s'

/-- A run that is stopped is stopped with the error of one of its calls. -/
theorem mem_of_playCalls {calls : List (SaxEvent × ε)} {s s' : σ} {e : ε}
    (h : playCalls handler s calls = (some e, s')) : ∃ event, (event, e) ∈ calls := by
  induction calls generalizing s with
  | nil => cases h
  | cons c calls ih =>
    obtain ⟨event, e'⟩ := c
    rw [playCalls] at h
    rcases hh : handler s event with ⟨_ | _, s₁⟩
    · rw [hh] at h
      cases h
      exact ⟨event, List.mem_cons_self⟩
    · rw [hh] at h
      obtain ⟨event', hevent'⟩ := ih h
      exact ⟨event', List.mem_cons_of_mem _ hevent'⟩

/-- **Playing a script.** The handler gets the events of the script up to the first
one that it refuses. If it refuses none the run ends as the script does, and
otherwise with the error of the refused call. -/
theorem play_eq (handler : σ → SaxEvent → Bool × σ) (x : Script ε α) (s : σ) :
    (x.play handler s).2 = (fire handler s x.events).2 ∧
      ((fire handler s x.events).1 = true → (x.play handler s).1 = x.result) ∧
      ((fire handler s x.events).1 = false →
        ∃ event e, (event, e) ∈ x.calls ∧ (x.play handler s).1 = .fail e) := by
  obtain ⟨hstate, hnone⟩ := playCalls_eq handler x.calls s
  unfold Script.events Script.play
  rcases hplay : playCalls handler s x.calls with ⟨_ | e, s'⟩
  · rw [hplay] at hstate hnone
    refine ⟨hstate, fun _ => rfl, fun hfalse => ?_⟩
    rw [hnone.mp rfl] at hfalse
    cases hfalse
  · rw [hplay] at hstate hnone
    refine ⟨hstate, fun htrue => ?_, fun _ => ?_⟩
    · cases hnone.mpr htrue
    · obtain ⟨event, hevent⟩ := mem_of_playCalls hplay
      exact ⟨event, e, hevent, rfl⟩

/-- A run comes to a result when the script does and no call is refused. -/
theorem play_eq_done (handler : σ → SaxEvent → Bool × σ) (x : Script ε α) (s : σ) :
    (∃ a, (x.play handler s).1 = .done a) ↔
      (∃ a, x.result = .done a) ∧ (fire handler s x.events).1 = true := by
  obtain ⟨-, htrue, hfalse⟩ := play_eq handler x s
  cases hfire : (fire handler s x.events).1 with
  | true => rw [htrue hfire, and_iff_left rfl]
  | false =>
    obtain ⟨event, e, -, heq⟩ := hfalse hfire
    rw [heq]
    exact iff_of_false (fun ⟨_, h⟩ => nomatch h) fun h => nomatch h.2

/-- A handler cannot tell a script from one that it follows. -/
theorem Script.Follows.play {β : Type*} {R : List SaxEvent → α → β → Prop} {x : Script ε α}
    {y : Script ε β} (h : x.Follows R y) (handler : σ → SaxEvent → Bool × σ) (s : σ) :
    (x.play handler s).2 = (y.play handler s).2 ∧
      (x.play handler s).1.Related (R x.events) (y.play handler s).1 := by
  unfold Script.play
  rw [← h.1]
  rcases playCalls handler s x.calls with ⟨_ | e, s'⟩
  · exact ⟨rfl, h.2⟩
  · exact ⟨rfl, rfl⟩

/-- A handler cannot tell scripts that are alike apart, and neither does how they end,
up to `k` where a call is refused. -/
theorem Script.Alike.play {κ : Type*} {k : ε → κ} {x y : Script ε α} (h : x.Alike k y)
    (handler : σ → SaxEvent → Bool × σ) (s : σ) :
    (x.play handler s).2 = (y.play handler s).2 ∧
      (((fire handler s x.events).1 = true ∧ (x.play handler s).1 = (y.play handler s).1) ∨
        ∃ event e e', (event, e') ∈ y.calls ∧ (x.play handler s).1 = .fail e ∧
          (y.play handler s).1 = .fail e' ∧ k e = k e') := by
  unfold Script.events Script.play
  rw [← h.2]
  have hcalls := h.1
  generalize x.calls = xs at hcalls ⊢
  generalize y.calls = ys at hcalls ⊢
  induction xs generalizing s ys with
  | nil =>
    rw [List.map_eq_nil_iff.mp hcalls.symm]
    exact ⟨rfl, .inl ⟨rfl, rfl⟩⟩
  | cons c xs ih =>
    obtain ⟨event, e⟩ := c
    cases ys with
    | nil => cases hcalls
    | cons c' ys =>
      obtain ⟨event', e'⟩ := c'
      rw [List.map_cons, List.map_cons, List.cons.injEq, Prod.map, Prod.map, Prod.mk.injEq]
        at hcalls
      obtain ⟨⟨rfl, he⟩, hcalls⟩ := hcalls
      rw [List.map_cons, playCalls, playCalls, fire]
      dsimp only [id]
      obtain ⟨_ | _, s'⟩ := handler s event
      · exact ⟨rfl, .inr ⟨event, e, e', List.mem_cons_self, rfl, rfl, he⟩⟩
      · obtain ⟨hstate, heq | ⟨event', e₁, e₂, hmem, hrest⟩⟩ := ih s' ys hcalls
        · exact ⟨hstate, .inl heq⟩
        · exact ⟨hstate, .inr ⟨event', e₁, e₂, List.mem_cons_of_mem _ hmem, hrest⟩⟩

/-- However a script is played, it ends as was ensured: with the error of a refused
call, or with an end that the script comes to by itself. -/
theorem Script.Ensures.play {A : Prop} {C E : ε → Prop} {P : α → Prop} {x : Script ε α}
    (h : x.Ensures A C E P) (handler : σ → SaxEvent → Bool × σ) (s : σ) :
    ((fire handler s x.events).1 = true ∧ (x.play handler s).1.Ensures A E P) ∨
      ((fire handler s x.events).1 = false ∧ ∃ e, (x.play handler s).1 = .fail e ∧ C e) := by
  obtain ⟨-, htrue, hfalse⟩ := play_eq handler x s
  cases hfire : (fire handler s x.events).1 with
  | true =>
    rw [htrue hfire]
    exact .inl ⟨rfl, h.2⟩
  | false =>
    obtain ⟨event, e, hmem, heq⟩ := hfalse hfire
    exact .inr ⟨rfl, e, heq, h.1 _ hmem⟩

end Library
