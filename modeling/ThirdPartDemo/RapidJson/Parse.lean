import ThirdPartDemo.Library.Outline
import ThirdPartDemo.RapidJson.Grammar
import ThirdPartDemo.RapidJson.ParseMessages
import ThirdPartDemo.RapidJson.Progress

/-!
# RapidJSON — what `Parse` does, and `ParseMessages` on it

The reader as its callers see it, with the handler plugged in.

* `Parse_decides` — a JSON text is walked through, every other text is refused after
  events that do not depend on the handler;
* `Parse_ends` — every parse ends, with an error offset inside the text, and with
  `kParseErrorTermination` exactly when the handler refused a call; an assertion fails
  only on a text with a literal of which the exponent overflows;
* `ParseNumber_short` — which double a literal of up to 53 bits is read as;
* `ParseMessages_reads` — `ParseMessages` of `RapidJsonDemo.cpp` on the reader itself:
  it reads exactly the texts of flat objects, and its error report is in bounds.
-/

namespace RapidJson

open Library

namespace GenericReader

/-- The characters of a C string. -/
def cString (json : Bytes) : Bytes := json.takeWhile (· ≠ 0)

theorem stringStream_rest (json : Bytes) : (StringStream json).rest = cString json := rfl

theorem stringStream_size (json : Bytes) : (StringStream json).size = (cString json).length := by
  rw [Stream.size, stringStream_rest]
  exact Nat.zero_add _

theorem cString_ne_zero (json : Bytes) : ∀ b ∈ cString json, b ≠ 0 := by
  intro b hb
  have := List.all_eq_true.mp List.all_takeWhile b hb
  simpa using this

/-- The parse was successful. -/
def Succeeds (x : Ending ParseError Stream) : Prop := ∃ is, x = .done is

/-- A successful parse is one of a document that the handler accepts. -/
theorem jsonText_of_succeeds {trailingCommas : Bool} {json : Bytes} {σ : Type}
    {handler : σ → SaxEvent → Bool × σ} {s : σ}
    (h : Succeeds (Parse { trailingCommas } json handler s).1) :
    ∃ root, JsonText (dialect { trailingCommas }) (cString json) root ∧
      (fire handler s root.events).1 = true := by
  obtain ⟨⟨is, his⟩, hfire⟩ := (play_eq_done handler _ s).mp h
  obtain ⟨root, hroot, hevents⟩ := parseStream_sound rfl rfl rfl (cString_ne_zero json) his
  rw [hevents] at hfire
  exact ⟨root, hroot, hfire⟩

/-- Every parse ends, with an error offset in the text or at its end. -/
theorem parse_within (flags : ParseFlags) (json : Bytes) {σ : Type}
    (handler : σ → SaxEvent → Bool × σ) (s : σ) :
    (Parse flags json handler s).1.Ensures (MayAbort (cString json))
      (fun e => e.offset ≤ (cString json).length) fun _ => True := by
  have h := (parseStream_ensures flags (StringStream json)).play handler s
  rw [stringStream_size, stringStream_rest] at h
  unfold Parse
  obtain ⟨-, hends⟩ | ⟨-, e, he, -, hoffset⟩ := h
  · cases hx : ((parseStream flags (StringStream json)).play handler s).1 with
    | done is => trivial
    | fail e =>
      rw [hx] at hends
      exact hends.2
    | aborted =>
      rw [hx] at hends
      exact hends
    | outOfFuel =>
      rw [hx] at hends
      exact hends.elim
  · rw [he]
    exact hoffset

/-- **Every parse ends**, whatever the flags and the handler. An error is reported at
an offset of the text or at its end, and it is `kParseErrorTermination` exactly when
the handler refused a call. -/
theorem Parse_ends (flags : ParseFlags) (json : Bytes) {σ : Type}
    (handler : σ → SaxEvent → Bool × σ) (s : σ) :
    Succeeds (Parse flags json handler s).1 ∨
      (∃ e, (Parse flags json handler s).1 = .fail e ∧ e.offset ≤ (cString json).length ∧
        (e.code = .Termination ↔
          (fire handler s (parseStream flags (StringStream json)).events).1 = false)) ∨
      ((Parse flags json handler s).1 = .aborted ∧ MayAbort (cString json)) := by
  have hwithin := parse_within flags json handler s
  cases hx : (Parse flags json handler s).1 with
  | done is => exact .inl ⟨is, rfl⟩
  | aborted =>
    rw [hx] at hwithin
    exact .inr (.inr ⟨rfl, hwithin⟩)
  | outOfFuel =>
    rw [hx] at hwithin
    exact hwithin.elim
  | fail e =>
    rw [hx] at hwithin
    refine .inr (.inl ⟨e, rfl, hwithin, ?_⟩)
    unfold Parse at hx
    obtain ⟨hfire, hends⟩ | ⟨hfire, e', he', hcode, -⟩ :=
      (parseStream_ensures flags (StringStream json)).play handler s
    · rw [hx] at hends
      rw [hfire]
      exact iff_of_false hends.1 (by simp)
    · cases hx.symm.trans he'
      rw [hfire]
      exact iff_of_true hcode rfl

-- ---------------------------------------------------------------------------
-- Short literals
-- ---------------------------------------------------------------------------

/-- **A short literal is read in one operation.** If the digits of a literal with a
fraction or an exponent are an integer of up to 53 bits, the double that is read is that
integer times or divided by one power of ten, wherever the literal stands. -/
theorem ParseNumber_short {l : Literal} (hl : l.WellFormed) (hreal : l.integral = false)
    (hbits : decimalValue 0 (l.digits ++ l.fraction.getD []) ≤ 0x1FFFFFFFFFFFFF)
    (hlow : -308 ≤ exponentValue l - (l.fraction.getD []).length)
    (hhigh : exponentValue l - (l.fraction.getD []).length ≤ 308) {s : Stream} {rest : Bytes}
    (hrest : s.rest = l.text ++ rest) (hstops : Stops rest) :
    let d := (decimalValue 0 (l.digits ++ l.fraction.getD [])).toUInt64.toFloat
    let p := exponentValue l - (l.fraction.getD []).length
    let x := if 0 ≤ p then d * tenTo p.toNat else d / tenTo (-p).toNat
    ∃ s', (ParseNumber s).Yields [.number (.double (if l.negative then -x else x).toBits)] s' ∧
      s.Passes l.text s' := by
  intro d p x
  refine parseNumber_complete hl ?_ hrest hstops
  rw [Literal.number, hreal, if_neg Bool.false_ne_true]
  dsimp only
  rw [show doubleOf l = _ from doubleOf_short hbits hlow hhigh, Option.map_some]

/-- A price in an array. -/
theorem ParseNumber_short_price : ∃ s',
    (ParseNumber (StringStream (ascii "-12.50, 7]"))).Yields
      [.number (.double (-((1250 : Nat).toUInt64.toFloat / tenTo 2)).toBits)] s' ∧
    s'.rest = ascii ", 7]" := by
  let l : Literal := ⟨true, ascii "12", some (ascii "50"), none⟩
  have hl : l.WellFormed :=
    { digits := ⟨List.cons_ne_nil _ _, List.all_iff_forall_prop.mp rfl⟩
      leading := .inr (by decide)
      fraction := fun _ h => Option.some.inj h ▸
        ⟨List.cons_ne_nil _ _, List.all_iff_forall_prop.mp rfl⟩
      exponent := fun _ h => nomatch h }
  have hrest : (StringStream (ascii "-12.50, 7]")).rest = l.text ++ ascii ", 7]" := by decide
  have hstops : Stops (ascii ", 7]") := fun b hb => .inr (.inl (Option.some.inj hb).symm)
  obtain ⟨s', hyields, hpasses⟩ :=
    ParseNumber_short hl rfl (by decide) (by decide) (by decide) hrest hstops
  exact ⟨s', hyields, hpasses.rest_eq hrest⟩

-- ---------------------------------------------------------------------------
-- `ParseMessages`
-- ---------------------------------------------------------------------------

/-- `std::string::substr`, or the `out_of_range` that it throws. -/
def substr (str : Bytes) (pos n : Nat) : Option Bytes :=
  if pos ≤ str.length then some ((str.drop pos).take n) else none

/-- What `ParseMessages` prints about an error, with the text that is near it, `none`
where `substr` throws. -/
structure Report where
  code : ParseErrorCode
  offset : Nat
  near : Option Bytes

/-- `ParseMessages` of `RapidJsonDemo.cpp`: the map `messages` that it leaves, and what
it reports; `none` where an assertion of the reader fails. -/
def ParseMessages (json : Bytes) (messages : MessageMap) : Option (MessageMap × Option Report) :=
  match Parse {} json MessageHandler.handle {} with
  | (.done _, handler) => some (handler.messages_, none)
  | (.fail e, _) => some (messages, some ⟨e.code, e.offset, substr (cString json) e.offset 10⟩)
  | _ => none

/-- **`ParseMessages` reads exactly the flat objects.** A text of a flat object leaves
its names in the map, each with the value of its first occurrence, and nothing is
reported. Any other text leaves the map as it was, and what is reported of it is in
bounds: `substr` does not throw. Only with a literal of which the exponent overflows may
it not come to that. -/
theorem ParseMessages_reads (json : Bytes) (messages : MessageMap) :
    (∀ members, JsonText (dialect {}) (cString json) (flatObject members) →
      ∃ messages', ParseMessages json messages = some (messages', none) ∧
        ∀ k, messages'.lookup k = members.lookup k) ∧
    ((∀ members, ¬ JsonText (dialect {}) (cString json) (flatObject members)) →
      (∃ report near, ParseMessages json messages = some (messages, some report) ∧
        report.near = some near ∧ near = ((cString json).drop report.offset).take 10) ∨
      (ParseMessages json messages = none ∧ MayAbort (cString json))) := by
  constructor
  · intro members hmembers
    obtain ⟨h, hfire, hmap⟩ := fire_flatObject members
    obtain ⟨s', ⟨hresult, hevents⟩, -⟩ :=
      parseStream_complete rfl rfl rfl hmembers (stringStream_rest json) (cString_ne_zero json)
    obtain ⟨hstate, htrue, -⟩ := play_eq MessageHandler.handle
      (parseStream {} (StringStream json)) {}
    rw [hevents, hfire] at hstate htrue
    have hparse : Parse {} json MessageHandler.handle {} = (.done s', h) :=
      Prod.ext ((htrue rfl).trans hresult) hstate
    refine ⟨h.messages_, by rw [ParseMessages, hparse], fun k => ?_⟩
    rw [hmap, MessageMap.lookup_insertAll, Finmap.lookup_empty, Option.none_or]
  · intro hother
    have hwithin := parse_within {} json MessageHandler.handle {}
    have hparse : Parse {} json MessageHandler.handle {} =
      ((Parse {} json MessageHandler.handle {}).1,
        (Parse {} json MessageHandler.handle {}).2) := rfl
    cases hx : (Parse {} json MessageHandler.handle {}).1 with
    | done is =>
      exfalso
      obtain ⟨root, hroot, haccepts⟩ := jsonText_of_succeeds ⟨is, hx⟩
      by_cases hflat : ∃ members, root = flatObject members
      · obtain ⟨members, rfl⟩ := hflat
        exact hother members hroot
      · have := fire_rejects_root root fun ms hms => hflat ⟨ms, hms⟩
        rw [haccepts] at this
        cases this
    | fail e =>
      rw [hx] at hwithin hparse
      refine .inl ⟨_, _, by rw [ParseMessages, hparse], ?_, rfl⟩
      exact if_pos (show e.offset ≤ (cString json).length from hwithin)
    | aborted =>
      rw [hx] at hwithin hparse
      exact .inr ⟨by rw [ParseMessages, hparse], hwithin⟩
    | outOfFuel =>
      rw [hx] at hwithin
      exact hwithin.elim

end GenericReader

end RapidJson
