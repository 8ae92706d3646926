import ThirdPartDemo.RapidJson.Dom
import ThirdPartDemo.RapidJson.Parse

/-!
# RapidJSON — what a handler hears

Whatever the text and the flags, the calls of a parse are a beginning of the calls for
some document, so a handler needs no defence against calls out of place. `Script.Tells`
carries this through the reader: each part tells the events of a value, of a member or
of a list, or a beginning of them.

* `Parse_tells` — the calls of a parse;
* `ParseStream_total` — a document never fails an assertion while it is parsed;
* `ParseStream_reads` — and it reads exactly the JSON texts.
-/

namespace RapidJson

open Library

namespace GenericReader

variable {flags : ParseFlags}

/-- The events of something. -/
def EventsOf {α : Type} (events : α → List SaxEvent) (es : List SaxEvent) : Prop :=
  ∃ a, es = events a

theorem skip_tells {P : List SaxEvent → Prop} {is : Stream}
    {next : Stream → Script ParseError Stream} (hP : ∃ es, P es) (h : ∀ is, (next is).Tells P) :
    (skip flags is next).Tells P := by
  refine (Script.tells_lift _).bind h hP ?_
  rintro _ es rfl hes
  exact hes

theorem parseLiteral_tells (tail : Bytes) (event : SaxEvent) (is : Stream) :
    (parseLiteral tail event is).Tells (· = [event]) := by
  unfold parseLiteral
  obtain ⟨_ | _, is'⟩ := consumeAll tail is.Take
  · exact Script.tells_fail _ ⟨_, rfl⟩
  · exact Script.tells_call _ _ _

theorem parseString_tells (is : Stream) (isKey : Bool) :
    (ParseString flags is isKey).Tells (EventsOf fun str => [stringEvent isKey str]) := by
  have hcall : ∀ (str : Bytes) (e : ParseError) (is : Stream),
      (Script.call (stringEvent isKey str) e is).Tells
        (EventsOf fun str => [stringEvent isKey str]) := fun str e is =>
    (Script.tells_call _ _ _).mono fun _ hes => ⟨str, hes⟩
  have hbind : ∀ (x : Ending ParseError (Stream × Bytes))
      (f : Stream × Bytes → Script ParseError Stream),
      (∀ a, (f a).Tells (EventsOf fun str => [stringEvent isKey str])) →
      ((Script.lift x).bind f).Tells (EventsOf fun str => [stringEvent isKey str]) := by
    intro x f hf
    refine (Script.tells_lift _).bind hf ⟨_, [], rfl⟩ ?_
    rintro _ es rfl hes
    exact hes
  unfold ParseString
  dsimp only
  split
  · exact hbind _ _ fun _ => hcall _ _ _
  · exact hbind _ _ fun _ => hcall _ _ _

theorem parseNumber_tells (is : Stream) :
    (ParseNumber is).Tells (EventsOf fun n => [.number n]) := by
  refine (Script.tells_lift _).bind (Q := EventsOf fun n => [.number n])
    (fun a => (Script.tells_call _ _ _).mono fun _ hes => ⟨a.1, hes⟩) ⟨_, .uint 0, rfl⟩ ?_
  rintro _ es rfl hes
  exact hes

section Items

variable {α : Type} {events : α → List SaxEvent}
  {item : Stream → Script ParseError Stream} (hitem : ∀ is, (item is).Tells (EventsOf events))
  (bracket : Bracket)
include hitem

theorem items_tells (loops count : Nat) (is : Stream) :
    (items flags bracket item loops count is).Tells
      (EventsOf fun as : List α => as.flatMap events ++ [bracket.finish (count + as.length)]) := by
  induction loops generalizing count is with
  | zero => exact Script.tells_outOfFuel ⟨_, [], rfl⟩
  | succ loops ih =>
    have hlast : ∀ e is, (Script.call (bracket.finish (count + 1)) e is :
        Script ParseError Stream).Tells (EventsOf fun as : List α =>
          as.flatMap events ++ [bracket.finish (count + 1 + as.length)]) := fun e is =>
      (Script.tells_call _ _ _).mono fun _ hes => ⟨[], hes⟩
    rw [items]
    refine (hitem is).bind (Q := EventsOf fun as : List α =>
      as.flatMap events ++ [bracket.finish (count + 1 + as.length)])
      (fun is => skip_tells ⟨_, [], rfl⟩ fun is => ?_) ⟨_, [], rfl⟩ ?_
    · dsimp only
      split
      · refine skip_tells ⟨_, [], rfl⟩ fun is => ?_
        split
        · exact hlast _ _
        · exact ih _ _
      · split
        · exact hlast _ _
        · exact Script.tells_fail _ ⟨_, [], rfl⟩
    · rintro _ _ ⟨a, rfl⟩ ⟨as, rfl⟩
      refine ⟨a :: as, ?_⟩
      dsimp only
      rw [List.flatMap_cons, List.append_assoc, List.length_cons, Nat.add_assoc, Nat.add_comm 1]

theorem compound_tells (is : Stream) :
    (compound flags bracket item is).Tells (EventsOf fun as : List α =>
      bracket.start :: (as.flatMap events ++ [bracket.finish as.length])) := by
  unfold compound
  refine (Script.tells_call _ _ _).bind (Q := EventsOf fun as : List α =>
    as.flatMap events ++ [bracket.finish as.length])
    (fun is => skip_tells ⟨_, [], rfl⟩ fun is => ?_) ⟨_, [], rfl⟩ ?_
  · cases is.Consume bracket.close with
    | some is => exact (Script.tells_call _ _ _).mono fun _ hes => ⟨[], hes⟩
    | none =>
      refine (items_tells hitem bracket _ _ is).mono ?_
      rintro _ ⟨as, rfl⟩
      refine ⟨as, ?_⟩
      dsimp only
      rw [Nat.zero_add]
  · rintro _ _ rfl ⟨as, rfl⟩
    exact ⟨as, rfl⟩

end Items

/-- The events of a member. -/
def memberEvent (m : Bytes × Json) : List SaxEvent := .key m.1 :: m.2.events

theorem member_tells {parseValue : Stream → Script ParseError Stream}
    (hvalue : ∀ is, (parseValue is).Tells (EventsOf Json.events)) (is : Stream) :
    (member flags parseValue is).Tells (EventsOf memberEvent) := by
  unfold member
  split
  · exact Script.tells_fail _ ⟨_, ([], .null), rfl⟩
  · refine (parseString_tells is true).bind (Q := EventsOf Json.events)
      (fun is => skip_tells ⟨_, .null, rfl⟩ fun is => ?_) ⟨_, .null, rfl⟩ ?_
    · cases is.Consume ':'.toUInt8 with
      | none => exact Script.tells_fail _ ⟨_, .null, rfl⟩
      | some is => exact skip_tells ⟨_, .null, rfl⟩ hvalue
    · rintro _ _ ⟨str, rfl⟩ ⟨v, rfl⟩
      exact ⟨(str, v), rfl⟩

theorem parseValue_tells (fuel : Nat) (is : Stream) :
    (ParseValue flags fuel is).Tells (EventsOf Json.events) := by
  induction fuel generalizing is with
  | zero => exact Script.tells_outOfFuel ⟨_, .null, rfl⟩
  | succ fuel ih =>
    rw [ParseValue]
    split
    · exact (parseLiteral_tells _ _ is).mono fun _ hes => ⟨.null, hes⟩
    split
    · exact (parseLiteral_tells _ _ is).mono fun _ hes => ⟨.bool true, hes⟩
    split
    · exact (parseLiteral_tells _ _ is).mono fun _ hes => ⟨.bool false, hes⟩
    split
    · refine (parseString_tells is false).mono ?_
      rintro _ ⟨str, rfl⟩
      exact ⟨.string str, rfl⟩
    split
    · refine (compound_tells (member_tells ih) objectBracket is).mono ?_
      rintro _ ⟨ms, rfl⟩
      refine ⟨.object ms, ?_⟩
      rw [Json.events, memberEvents_eq]
      rfl
    split
    · refine (compound_tells ih arrayBracket is).mono ?_
      rintro _ ⟨vs, rfl⟩
      refine ⟨.array vs, ?_⟩
      rw [Json.events, elementEvents_eq]
      rfl
    · refine (parseNumber_tells is).mono ?_
      rintro _ ⟨n, rfl⟩
      exact ⟨.number n, rfl⟩

theorem parseStream_tells (flags : ParseFlags) (is : Stream) :
    (parseStream flags is).Tells (EventsOf Json.events) := by
  refine skip_tells ⟨_, .null, rfl⟩ fun is => ?_
  split
  · exact Script.tells_fail _ ⟨_, .null, rfl⟩
  · refine (parseValue_tells _ is).bind (Q := (· = [])) (fun is => ?_) ⟨_, rfl⟩ ?_
    · split
      · exact Script.tells_pure _
      · refine skip_tells ⟨_, rfl⟩ fun is => ?_
        split
        · exact Script.tells_fail _ ⟨_, rfl⟩
        · exact Script.tells_pure _
    · rintro es _ hes rfl
      rwa [List.append_nil]

theorem parseStream_heard (flags : ParseFlags) (is : Stream) :
    ∃ root rest, Json.events root = (parseStream flags is).events ++ rest ∧
      ∀ is', (parseStream flags is).result = .done is' → rest = [] := by
  obtain ⟨⟨rest, root, hroot⟩, hdone⟩ := parseStream_tells flags is
  by_cases hresult : ∃ is', (parseStream flags is).result = .done is'
  · obtain ⟨is', his'⟩ := hresult
    obtain ⟨root, hroot⟩ := hdone is' his'
    exact ⟨root, [], hroot.symm.trans (List.append_nil _).symm, fun _ _ => rfl⟩
  · exact ⟨root, rest, hroot.symm, fun is' his' => absurd ⟨is', his'⟩ hresult⟩

/-- **What a handler hears**, whatever the text and the flags, is a beginning of the
calls for some document, up to the first call that it refuses, and after a successful
parse it has heard them all. -/
theorem Parse_tells (flags : ParseFlags) (json : Bytes) :
    ∃ root heard rest, Json.events root = heard ++ rest ∧
      ∀ {σ : Type} (handler : σ → SaxEvent → Bool × σ) (s : σ),
        (Parse flags json handler s).2 = (fire handler s heard).2 ∧
        (Succeeds (Parse flags json handler s).1 →
          rest = [] ∧ (fire handler s heard).1 = true) := by
  obtain ⟨root, rest, hroot, hrest⟩ := parseStream_heard flags (StringStream json)
  refine ⟨root, _, rest, hroot, fun handler s => ⟨(play_eq handler _ s).1, fun h => ?_⟩⟩
  obtain ⟨⟨is, his⟩, hfire⟩ := (play_eq_done handler _ s).mp h
  exact ⟨hrest is his, hfire⟩

end GenericReader

-- ---------------------------------------------------------------------------
-- Documents
-- ---------------------------------------------------------------------------

namespace GenericDocument

open GenericReader

/-- A document that is parsed hears all of a beginning of the calls for some document. -/
theorem call_heard (flags : ParseFlags) (json : Bytes) :
    ∃ stack, Parse flags json call (some []) =
        ((parseStream flags (StringStream json)).result, some stack) ∧
      ∀ is, (parseStream flags (StringStream json)).result = .done is →
        ∃ root, stack = [.ofJson root] := by
  obtain ⟨root, rest, hroot, hrest⟩ := parseStream_heard flags (StringStream json)
  have haccepts := handle_events root []
  rw [hroot] at haccepts
  have hheard : (fire call (some []) (parseStream flags (StringStream json)).events).1 = true :=
    fire_of_append (congrArg Prod.fst haccepts)
  obtain ⟨hstate, htrue, -⟩ := play_eq call (parseStream flags (StringStream json)) (some [])
  obtain ⟨stack, hstack⟩ := fire_asserting hheard
  rw [hstack] at hstate
  refine ⟨stack, Prod.ext (htrue hheard) hstate, fun is his => ⟨root, ?_⟩⟩
  rw [hrest is his, List.append_nil, hstack] at haccepts
  cases haccepts
  rfl

/-- What becomes of a document in a parse. -/
theorem parseStream_ends (flags : ParseFlags) (json : Bytes) (d : GenericDocument) :
    (Succeeds (parseStream flags (StringStream json)).result ∧
      ∃ root, d.ParseStream flags json =
        some { value := .ofJson root, parseResult_ := none }) ∨
    (∃ e, d.ParseStream flags json = some { d with parseResult_ := some e } ∧
      e.code ≠ .Termination ∧ e.offset ≤ (cString json).length) ∨
    (d.ParseStream flags json = none ∧ MayAbort (cString json) ∧
      ∃ stack, Parse flags json call (some []) = (.aborted, some stack)) := by
  obtain ⟨stack, hparse, hstack⟩ := call_heard flags json
  have hensures := (parseStream_ensures flags (StringStream json)).2
  rw [stringStream_size, stringStream_rest] at hensures
  cases hresult : (parseStream flags (StringStream json)).result with
  | done is =>
    obtain ⟨root, rfl⟩ := hstack is hresult
    refine .inl ⟨⟨is, rfl⟩, root, ?_⟩
    rw [ParseStream, hparse, hresult]
  | fail e =>
    rw [hresult] at hensures
    refine .inr (.inl ⟨e, ?_, hensures⟩)
    rw [ParseStream, hparse, hresult]
  | aborted =>
    rw [hresult] at hensures hparse
    refine .inr (.inr ⟨?_, hensures, stack, hparse⟩)
    rw [ParseStream, hparse]
  | outOfFuel =>
    rw [hresult] at hensures
    exact hensures.elim

/-- **A document gets through every parse**: no assertion of its handler functions
fails, whatever the text and the flags. It takes the value of a successful parse, and
keeps the one it had otherwise, with an error that is not its own. Where an assertion of
the reader fails, its stack has held as far. -/
theorem ParseStream_total (flags : ParseFlags) (json : Bytes) (d : GenericDocument) :
    (Succeeds (Parse flags json call (some [])).1 ∧
      ∃ root, d.ParseStream flags json =
        some { value := .ofJson root, parseResult_ := none }) ∨
    (∃ e, d.ParseStream flags json = some { d with parseResult_ := some e } ∧
      e.code ≠ .Termination ∧ e.offset ≤ (cString json).length) ∨
    (d.ParseStream flags json = none ∧ MayAbort (cString json) ∧
      ∃ stack, Parse flags json call (some []) = (.aborted, some stack)) := by
  have hends := parseStream_ends flags json d
  obtain ⟨stack, hparse, -⟩ := call_heard flags json
  rw [hparse] at hends ⊢
  exact hends

end GenericDocument

end RapidJson
