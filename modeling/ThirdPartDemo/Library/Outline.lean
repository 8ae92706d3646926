import ThirdPartDemo.Library.Sax

/-!
# Library — documents out of their events

The calls of a SAX handler describe a document. An `Outline` is what they have
described so far: the arrays and objects that are open, innermost first, each with
what it holds, or the document once it is complete. `Outline.step` is one call, and
there is none where the call has no place.

As handlers do, it takes a string for a name where a name is expected, and a raw number
for a string.

* `Outline.run_events` — the events of a value put the value where one is expected;
* `Json.events_injective` — so the events of a document determine it.

`asserting` makes a handler of a function whose assertions can fail.
-/

namespace Library

universe u

/-- An array or an object that is open. In an object the last name may be waiting for
its value. -/
inductive Frame where
  | array (elements : List Json)
  | object (members : List (Bytes × Json)) (name : Option Bytes)

inductive Outline where
  | building (frames : List Frame)
  | complete (root : Json)

namespace Outline

/-- A value can come next. -/
def expectsValue : Outline → Bool
  | building [] | building (.array _ :: _) | building (.object _ (some _) :: _) => true
  | building (.object _ none :: _) | complete _ => false

/-- The outline with another value. -/
def put (v : Json) : Outline → Option Outline
  | building [] => some (complete v)
  | building (.array vs :: frames) => some (building (.array (vs ++ [v]) :: frames))
  | building (.object ms (some name) :: frames) =>
    some (building (.object (ms ++ [(name, v)]) none :: frames))
  | building (.object _ none :: _) | complete _ => none

/-- The outline with a string, or with a name if that is expected. -/
def putString (s : Bytes) : Outline → Option Outline
  | building (.object ms none :: frames) => some (building (.object ms (some s) :: frames))
  | o => o.put (.string s)

/-- The outline with another array or object open. -/
def enter (frame : Frame) : Outline → Option Outline
  | building frames =>
    if (building frames).expectsValue then some (building (frame :: frames)) else none
  | complete _ => none

/-- One call. -/
def step (o : Outline) : SaxEvent → Option Outline
  | .null => o.put .null
  | .bool b => o.put (.bool b)
  | .number n => o.put (.number n)
  | .rawNumber s => o.put (.string s)
  | .string s | .key s => o.putString s
  | .startObject => o.enter (.object [] none)
  | .startArray => o.enter (.array [])
  | .endObject _ =>
    match o with
    | building (.object ms none :: frames) => (building frames).put (.object ms)
    | _ => none
  | .endArray _ =>
    match o with
    | building (.array vs :: frames) => (building frames).put (.array vs)
    | _ => none

/-- One call after the other. -/
def run (o : Outline) : List SaxEvent → Option Outline
  | [] => some o
  | e :: es => (o.step e).bind fun o => o.run es

theorem run_cons {o o' : Outline} {e : SaxEvent} (h : o.step e = some o') (es : List SaxEvent) :
    o.run (e :: es) = o'.run es := by
  rw [run, h]
  rfl

theorem expectsValue_iff {o : Outline} (v : Json) :
    o.expectsValue = true ↔ ∃ o', o.put v = some o' := by
  rcases o with (_ | ⟨_ | ⟨_, _ | _⟩, _⟩) | _
  all_goals simp [expectsValue, put]

theorem putString_of_expectsValue {o : Outline} (h : o.expectsValue = true) (s : Bytes) :
    o.putString s = o.put (.string s) := by
  rcases o with (_ | ⟨_ | ⟨_, _ | _⟩, _⟩) | _
  all_goals first | rfl | cases h

theorem enter_of_expectsValue {frames : List Frame} (h : (building frames).expectsValue = true)
    (frame : Frame) : (building frames).enter frame = some (building (frame :: frames)) := if_pos h

theorem of_enter {frames : List Frame} {frame : Frame} {o : Outline}
    (h : (building frames).enter frame = some o) :
    (building frames).expectsValue = true ∧ o = building (frame :: frames) := by
  by_cases hexpects : (building frames).expectsValue = true
  · rw [enter_of_expectsValue hexpects] at h
    exact ⟨hexpects, (Option.some.inj h).symm⟩
  · rw [enter, if_neg hexpects] at h
    cases h

/-- Every array and object around the innermost one waits for it. -/
def Nested : Outline → Prop
  | building (_ :: frames) => ∀ frame ∈ frames, (building [frame]).expectsValue = true
  | building [] | complete _ => True

theorem Nested.expectsValue {frame : Frame} {frames : List Frame}
    (h : (building (frame :: frames)).Nested) : (building frames).expectsValue = true := by
  rcases frames with _ | ⟨_ | ⟨_, _ | _⟩, frames⟩
  all_goals first | rfl | exact h _ List.mem_cons_self

theorem Nested.tail {frame : Frame} {frames : List Frame}
    (h : (building (frame :: frames)).Nested) : (building frames).Nested := by
  cases frames with
  | nil => trivial
  | cons frame' frames => exact fun f hf => h f (.tail _ hf)

theorem Nested.put {o o' : Outline} {v : Json} (ho : o.Nested) (h : o.put v = some o') :
    o'.Nested := by
  rcases o with (_ | ⟨_ | ⟨_, _ | _⟩, _⟩) | _
  all_goals cases h
  all_goals trivial

theorem Nested.enter {o o' : Outline} {frame : Frame} (ho : o.Nested)
    (h : o.enter frame = some o') : o'.Nested := by
  cases o with
  | complete root => cases h
  | building frames =>
    obtain ⟨hexpects, rfl⟩ := of_enter h
    intro f hf
    cases frames with
    | nil => cases hf
    | cons frame' frames =>
      obtain rfl | hf := List.mem_cons.mp hf
      · rcases f with _ | ⟨_, _ | _⟩
        all_goals first | rfl | cases hexpects
      · exact ho f hf

/-- What is open stays nested. -/
theorem Nested.step {o o' : Outline} {e : SaxEvent} (ho : o.Nested) (h : o.step e = some o') :
    o'.Nested := by
  have hstring : ∀ s : Bytes, o.putString s = some o' → o'.Nested := by
    intro s hs
    rcases o with (_ | ⟨_ | ⟨ms, _ | name⟩, frames⟩) | _
    case building.cons.object.none =>
      cases hs
      exact ho
    all_goals exact ho.put (v := .string s) hs
  cases e with
  | null => exact ho.put h
  | bool b => exact ho.put h
  | number n => exact ho.put h
  | rawNumber s => exact ho.put h
  | string s => exact hstring s h
  | key s => exact hstring s h
  | startObject => exact ho.enter h
  | startArray => exact ho.enter h
  | endObject count =>
    rcases o with (_ | ⟨_ | ⟨ms, _ | name⟩, frames⟩) | _
    case building.cons.object.none => exact ho.tail.put h
    all_goals cases h
  | endArray count =>
    rcases o with (_ | ⟨_ | _, frames⟩) | _
    case building.cons.array => exact ho.tail.put h
    all_goals cases h

mutual

/-- **The events of a value** put it where a value is expected. -/
theorem run_events (v : Json) {o o' : Outline} (h : o.put v = some o') (es : List SaxEvent) :
    o.run (v.events ++ es) = o'.run es := by
  have hexpects := (expectsValue_iff v).mpr ⟨o', h⟩
  match v with
  | .null => exact run_cons (e := .null) h es
  | .bool b => exact run_cons (e := .bool b) h es
  | .number n => exact run_cons (e := .number n) h es
  | .string s => exact run_cons (e := .string s) ((putString_of_expectsValue hexpects s).trans h) es
  | .array vs =>
    cases o with
    | complete _ => cases hexpects
    | building frames =>
      have henter : (building frames).step .startArray = some (building (.array [] :: frames)) :=
        enter_of_expectsValue hexpects _
      have hleave : (building (.array vs :: frames)).step (.endArray vs.length) = some o' := h
      rw [Json.events, List.cons_append, List.append_assoc, run_cons henter,
        run_elementEvents vs]
      exact run_cons hleave es
  | .object ms =>
    cases o with
    | complete _ => cases hexpects
    | building frames =>
      have henter : (building frames).step .startObject =
          some (building (.object [] none :: frames)) := enter_of_expectsValue hexpects _
      have hleave : (building (.object ms none :: frames)).step (.endObject ms.length) =
          some o' := h
      rw [Json.events, List.cons_append, List.append_assoc, run_cons henter, run_memberEvents ms]
      exact run_cons hleave es

theorem run_elementEvents (vs : List Json) {frames : List Frame} {ws : List Json}
    (es : List SaxEvent) :
    (building (.array ws :: frames)).run (elementEvents vs ++ es) =
      (building (.array (ws ++ vs) :: frames)).run es := by
  match vs with
  | [] => rw [elementEvents, List.nil_append, List.append_nil]
  | v :: vs =>
    rw [elementEvents, List.append_assoc, run_events v rfl, run_elementEvents vs,
      List.append_assoc]
    rfl

theorem run_memberEvents (ms : List (Bytes × Json)) {frames : List Frame}
    {ns : List (Bytes × Json)} (es : List SaxEvent) :
    (building (.object ns none :: frames)).run (memberEvents ms ++ es) =
      (building (.object (ns ++ ms) none :: frames)).run es := by
  match ms with
  | [] => rw [memberEvents, List.nil_append, List.append_nil]
  | (k, v) :: ms =>
    rw [memberEvents, List.cons_append, List.append_assoc, run_cons rfl, run_events v rfl,
      run_memberEvents ms, List.append_assoc]
    rfl

end

end Outline

section MapNumbers

variable (f : JsonNumber → JsonNumber)

mutual

/-- The document with other numbers. -/
def Json.mapNumbers : Json → Json
  | .null => .null
  | .bool b => .bool b
  | .number n => .number (f n)
  | .string s => .string s
  | .array vs => .array (mapElements vs)
  | .object ms => .object (mapMembers ms)

def Json.mapElements : List Json → List Json
  | [] => []
  | v :: vs => v.mapNumbers :: mapElements vs

def Json.mapMembers : List (Bytes × Json) → List (Bytes × Json)
  | [] => []
  | (name, v) :: ms => (name, v.mapNumbers) :: mapMembers ms

end

def SaxEvent.mapNumber : SaxEvent → SaxEvent
  | .number n => .number (f n)
  | e => e

theorem Json.mapElements_eq (vs : List Json) :
    mapElements f vs = vs.map (Json.mapNumbers f) := by
  induction vs with
  | nil => rfl
  | cons v vs ih => rw [mapElements, ih, List.map_cons]

theorem Json.mapMembers_eq (ms : List (Bytes × Json)) :
    mapMembers f ms = ms.map fun m => (m.1, m.2.mapNumbers f) := by
  induction ms with
  | nil => rfl
  | cons m ms ih => rw [mapMembers, ih, List.map_cons]

mutual

theorem Json.events_mapNumbers (v : Json) :
    (v.mapNumbers f).events = v.events.map (SaxEvent.mapNumber f) := by
  match v with
  | .null => rfl
  | .bool b => rfl
  | .number n => rfl
  | .string s => rfl
  | .array vs =>
    rw [mapNumbers, events, events, List.map_cons, List.map_append, elementEvents_mapElements vs,
      mapElements_eq, List.length_map]
    rfl
  | .object ms =>
    rw [mapNumbers, events, events, List.map_cons, List.map_append, memberEvents_mapMembers ms,
      mapMembers_eq, List.length_map]
    rfl

theorem Json.elementEvents_mapElements (vs : List Json) :
    elementEvents (mapElements f vs) = (elementEvents vs).map (SaxEvent.mapNumber f) := by
  match vs with
  | [] => rfl
  | v :: vs =>
    rw [mapElements, elementEvents, elementEvents, List.map_append, events_mapNumbers v,
      elementEvents_mapElements vs]

theorem Json.memberEvents_mapMembers (ms : List (Bytes × Json)) :
    memberEvents (mapMembers f ms) = (memberEvents ms).map (SaxEvent.mapNumber f) := by
  match ms with
  | [] => rfl
  | (name, v) :: ms =>
    rw [mapMembers, memberEvents, memberEvents, List.map_cons, List.map_append,
      events_mapNumbers v, memberEvents_mapMembers ms]
    rfl

end

/-- The frame with other numbers. -/
def Frame.mapNumbers : Frame → Frame
  | .array vs => .array (vs.map (Json.mapNumbers f))
  | .object ms name => .object (ms.map fun m => (m.1, m.2.mapNumbers f)) name

/-- The outline with other numbers. -/
def Outline.mapNumbers : Outline → Outline
  | building frames => building (frames.map (Frame.mapNumbers f))
  | complete root => complete (root.mapNumbers f)

theorem Outline.put_mapNumbers (o : Outline) (v : Json) :
    (o.mapNumbers f).put (v.mapNumbers f) = (o.put v).map (Outline.mapNumbers f) := by
  rcases o with (_ | ⟨vs | ⟨ms, _ | name⟩, frames⟩) | document
  · rfl
  · show some (building (.array (vs.map _ ++ [v.mapNumbers f]) :: _)) = some (building _)
    rw [List.map_cons, Frame.mapNumbers, List.map_append]
    rfl
  · rfl
  · show some (building (.object (ms.map _ ++ [(name, v.mapNumbers f)]) none :: _)) =
      some (building _)
    rw [List.map_cons, Frame.mapNumbers, List.map_append]
    rfl
  · rfl

theorem Outline.enter_mapNumbers (o : Outline) (frame : Frame) :
    (o.mapNumbers f).enter (frame.mapNumbers f) = (o.enter frame).map (Outline.mapNumbers f) := by
  rcases o with (_ | ⟨vs | ⟨ms, _ | name⟩, frames⟩) | document
  all_goals rfl

theorem Outline.step_mapNumbers (o : Outline) (e : SaxEvent) :
    (o.mapNumbers f).step (e.mapNumber f) = (o.step e).map (Outline.mapNumbers f) := by
  have hstring : ∀ s : Bytes,
      (o.mapNumbers f).putString s = (o.putString s).map (Outline.mapNumbers f) := by
    intro s
    rcases o with (_ | ⟨vs | ⟨ms, _ | name⟩, frames⟩) | document
    · rfl
    · exact put_mapNumbers f (building (.array vs :: frames)) (.string s)
    · rfl
    · exact put_mapNumbers f (building (.object ms (some name) :: frames)) (.string s)
    · rfl
  cases e with
  | null => exact put_mapNumbers f o .null
  | bool b => exact put_mapNumbers f o (.bool b)
  | number n => exact put_mapNumbers f o (.number n)
  | rawNumber s => exact put_mapNumbers f o (.string s)
  | string s => exact hstring s
  | key s => exact hstring s
  | startObject => exact enter_mapNumbers f o (.object [] none)
  | startArray => exact enter_mapNumbers f o (.array [])
  | endObject count =>
    rcases o with (_ | ⟨vs | ⟨ms, _ | name⟩, frames⟩) | document
    case building.cons.object.none =>
      have := put_mapNumbers f (building frames) (.object ms)
      rwa [Json.mapNumbers, Json.mapMembers_eq] at this
    all_goals rfl
  | endArray count =>
    rcases o with (_ | ⟨vs | ⟨ms, name⟩, frames⟩) | document
    case building.cons.array =>
      have := put_mapNumbers f (building frames) (.array vs)
      rwa [Json.mapNumbers, Json.mapElements_eq] at this
    all_goals rfl

end MapNumbers

-- ---------------------------------------------------------------------------
-- Handlers
-- ---------------------------------------------------------------------------

variable {σ : Type u}

/-- Two sequences of events, and what is left of the handler after the first. -/
theorem fire_append_eq (handler : σ → SaxEvent → Bool × σ) (s : σ) (es fs : List SaxEvent) :
    fire handler s (es ++ fs) =
      match fire handler s es with
      | (true, s') => fire handler s' fs
      | (false, s') => (false, s') := by
  induction es generalizing s with
  | nil => rfl
  | cons e es ih =>
    rw [List.cons_append, fire, fire]
    obtain ⟨_ | _, s'⟩ := handler s e
    · rfl
    · exact ih s'

theorem fire_of_append {handler : σ → SaxEvent → Bool × σ} {s : σ} {es fs : List SaxEvent}
    (h : (fire handler s (es ++ fs)).1 = true) : (fire handler s es).1 = true := by
  rw [fire_append_eq] at h
  rcases hes : fire handler s es with ⟨_ | _, s'⟩
  · rw [hes] at h
    cases h
  · rfl

theorem fire_singleton (handler : σ → SaxEvent → Bool × σ) (s : σ) (e : SaxEvent) :
    fire handler s [e] = handler s e := by
  rw [fire]
  obtain ⟨_ | _, s'⟩ := handler s e
  · rfl
  · rfl

/-- The handler of a function that has no value where an assertion fails: nothing is
left of the state then. -/
def asserting (handle : σ → SaxEvent → Option (Bool × σ)) (s : Option σ) (e : SaxEvent) :
    Bool × Option σ :=
  match s with
  | none => (false, none)
  | some s =>
    match handle s e with
    | none => (false, none)
    | some (ok, s) => (ok, some s)

theorem asserting_some {handle : σ → SaxEvent → Option (Bool × σ)} {s s' : σ} {e : SaxEvent}
    {ok : Bool} (h : handle s e = some (ok, s')) : asserting handle (some s) e = (ok, some s') := by
  rw [asserting, h]

/-- A handler that has accepted everything has not failed. -/
theorem fire_asserting {handle : σ → SaxEvent → Option (Bool × σ)} {s : σ} {es : List SaxEvent}
    (h : (fire (asserting handle) (some s) es).1 = true) :
    ∃ s', fire (asserting handle) (some s) es = (true, some s') := by
  induction es generalizing s with
  | nil => exact ⟨s, rfl⟩
  | cons e es ih =>
    rw [fire] at h ⊢
    cases hhandle : handle s e with
    | none =>
      rw [asserting, hhandle] at h
      cases h
    | some x =>
      obtain ⟨_ | _, s'⟩ := x
      · rw [asserting_some hhandle] at h
        cases h
      · rw [asserting_some hhandle] at h ⊢
        exact ih h

end Library
