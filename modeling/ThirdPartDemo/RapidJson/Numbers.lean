import ThirdPartDemo.RapidJson.NumberParts

/-!
# RapidJSON — reading numbers

`ParseNumber` takes exactly the number literals of the grammar, each as far as it
goes, and what it makes of one does not depend on what follows.

* `scanLiteral_literal` — a literal read in any place;
* `scanLiteral_sound` — what is read is a literal;
* `literalNumber_eq` — it is read as the number that it stands for;
* `scanNumber_number`, `scanNumber_noNumber` — and if it stands for none, it is too big or
  its exponent overflows;
* `scanNumber_sound` — no other number is read.
-/

namespace RapidJson

open Library

namespace GenericReader

-- ---------------------------------------------------------------------------
-- Literals
-- ---------------------------------------------------------------------------

/-- The text does not go on with the literal. -/
structure Ends (l : Literal) (rest : Bytes) : Prop where
  digit : (l.digits = ['0'.toUInt8] ∧ l.fraction = none ∧ l.exponent = none) ∨ NotDigit rest
  fraction : l.fraction = none → l.exponent = none → rest.head? ≠ some '.'.toUInt8
  exponent : l.exponent = none →
    rest.head? ≠ some 'e'.toUInt8 ∧ rest.head? ≠ some 'E'.toUInt8

/-- What `ParseNumber` makes of the integer and the fraction of a literal. -/
def mantissa (l : Literal) : Option Number :=
  (intNumber l.negative l.digits).bind fun n =>
    match l.fraction with
    | some ds => fracNumber n ds
    | none => some n

/-- What `ParseNumber` makes of a literal, before it is given a type. -/
def literalNumber (l : Literal) : Option Number :=
  (mantissa l).bind fun n =>
    match l.exponent with
    | some e => expNumber n e
    | none => some n

theorem parseFrac_none (n : Number) (o : Nat) (p : Bytes) {tail : Bytes}
    (h : tail.head? ≠ some '.'.toUInt8) :
    parseFrac n ⟨o, p, tail⟩ = .done (n, ⟨o, p, tail⟩) := by
  rw [parseFrac, consume_of_ne (by decide) h]

theorem parseExp_none (n : Number) (o : Nat) (p : Bytes) {tail : Bytes}
    (h : tail.head? ≠ some 'e'.toUInt8 ∧ tail.head? ≠ some 'E'.toUInt8) :
    parseExp n ⟨o, p, tail⟩ = .done (n, ⟨o, p, tail⟩) := by
  rw [parseExp, consume_of_ne (by decide) h.1, consume_of_ne (by decide) h.2]
  rfl

theorem notDigit_cons {b : UInt8} {tail : Bytes} (hb : isDecimal b = false) :
    NotDigit (b :: tail) := by
  intro c hc
  cases hc
  exact hb

theorem wellFormedExp {l : Literal} (hl : l.WellFormed) {e : Exponent} (he : l.exponent = some e) :
    WellFormedExp e := by
  obtain ⟨hdigits, hletter, hsign⟩ := hl.exponent e he
  exact ⟨hdigits, hletter, hsign⟩

/-- The exponent of a literal ends the digits before it. -/
theorem exponentText_ends {l : Literal} (hl : l.WellFormed) {rest : Bytes} (h : Ends l rest)
    (hne : l.digits ≠ ['0'.toUInt8] ∨ l.fraction ≠ none ∨ l.exponent ≠ none) :
    NotDigit (l.exponentText ++ rest) := by
  unfold Literal.exponentText
  cases he : l.exponent with
  | none =>
    obtain ⟨hdigits, hfrac, hexp⟩ | hrest := h.digit
    · obtain hne | hne | hne := hne
      · exact absurd hdigits hne
      · exact absurd hfrac hne
      · exact absurd hexp hne
    · exact hrest
  | some e =>
    obtain hletter | hletter := (wellFormedExp hl he).letter
    all_goals
      dsimp only
      rw [Exponent.text, hletter]
      exact notDigit_cons (by decide)

theorem exponentText_ne {l : Literal} (hl : l.WellFormed) {rest : Bytes} (h : Ends l rest)
    (hf : l.fraction = none) : (l.exponentText ++ rest).head? ≠ some '.'.toUInt8 := by
  unfold Literal.exponentText
  cases he : l.exponent with
  | none => exact h.fraction hf he
  | some e =>
    dsimp only
    rw [Exponent.text, List.cons_append, List.head?_cons]
    obtain hletter | hletter := (wellFormedExp hl he).letter <;>
      exact fun h => absurd (hletter.symm.trans (Option.some.inj h)) (by decide)

/-- `ParseNumber` after the integer. -/
theorem afterInt_eq {l : Literal} (hl : l.WellFormed) (n : Number) (o : Nat) (p : Bytes)
    {rest : Bytes} (h : Ends l rest) :
    ((parseFrac n ⟨o, p, l.fractionText ++ (l.exponentText ++ rest)⟩).bind fun (n, s) =>
        parseExp n s) =
      reading o (p ++ (l.fractionText ++ l.exponentText)) rest
        ((match l.fraction with
          | some ds => fracNumber n ds
          | none => some n).bind fun n =>
          match l.exponent with
          | some e => expNumber n e
          | none => some n) := by
  -- the exponent first, from any stream
  have hexp : ∀ (n : Number) (q : Bytes),
      parseExp n ⟨o, q, l.exponentText ++ rest⟩ =
        reading o (q ++ l.exponentText) rest
          (match l.exponent with
            | some e => expNumber n e
            | none => some n) := by
    intro n q
    unfold Literal.exponentText
    cases he : l.exponent with
    | none =>
      dsimp only
      rw [List.nil_append, List.append_nil, parseExp_none n o q (h.exponent he)]
      rfl
    | some e =>
      have hrest : NotDigit rest := h.digit.resolve_left fun hz => by
        rw [he] at hz
        cases hz.2.2
      exact parseExp_eq n (wellFormedExp hl he) o q hrest
  cases hf : l.fraction with
  | none =>
    have htext : l.fractionText = [] := by rw [Literal.fractionText, hf]
    rw [htext, List.nil_append, List.nil_append, parseFrac_none n o p (exponentText_ne hl h hf)]
    exact hexp n p
  | some ds =>
    have htext : l.fractionText = '.'.toUInt8 :: ds := by rw [Literal.fractionText, hf]
    have htail := exponentText_ends hl h (.inr (.inl (by rw [hf]; exact Option.some_ne_none ds)))
    rw [htext, List.cons_append, parseFrac_eq n (hl.fraction ds hf) o p htail]
    dsimp only
    cases fracNumber n ds with
    | none => rfl
    | some n' =>
      rw [reading_some, Ending.bind_done, ← List.append_assoc]
      exact hexp n' _

/-- The minus sign of a literal. -/
theorem consume_minus {l : Literal} (hl : l.WellFormed) (o : Nat) (p rest : Bytes) :
    ((⟨o, p, l.text ++ rest⟩ : NumberStream).Consume '-'.toUInt8).isSome = l.negative ∧
      ((⟨o, p, l.text ++ rest⟩ : NumberStream).Consume '-'.toUInt8).getD
          ⟨o, p, l.text ++ rest⟩ =
        ⟨o, p ++ l.minus, l.digits ++ (l.fractionText ++ (l.exponentText ++ rest))⟩ := by
  have htext : l.text ++ rest =
      l.minus ++ (l.digits ++ (l.fractionText ++ (l.exponentText ++ rest))) := by
    simp [Literal.text]
  rw [htext, Literal.minus]
  cases l.negative with
  | true =>
    rw [if_pos rfl, List.singleton_append, consume_cons]
    exact ⟨rfl, rfl⟩
  | false =>
    obtain ⟨b, ds, hbs⟩ := List.exists_cons_of_ne_nil hl.digits.ne_nil
    have hb := hl.digits.isDecimal b (hbs ▸ List.mem_cons_self)
    rw [if_neg Bool.false_ne_true, List.nil_append, List.append_nil, hbs, List.cons_append,
      consume_cons_ne (by rintro rfl; cases hb)]
    exact ⟨rfl, rfl⟩

/-- **A number literal in any place.** It is taken as a whole, and what is made of it
does not depend on what follows, as long as that does not go on with the literal. -/
theorem scanLiteral_literal {l : Literal} (hl : l.WellFormed) {rest : Bytes} (h : Ends l rest)
    (o : Nat) (p : Bytes) :
    scanLiteral ⟨o, p, l.text ++ rest⟩ = reading o (p ++ l.text) rest (literalNumber l) := by
  have hds : IntDigits l.digits := ⟨hl.digits, hl.leading⟩
  obtain ⟨hnegative, hstream⟩ := consume_minus hl o p rest
  rw [scanLiteral, hnegative, hstream, literalNumber, mantissa, Option.bind_assoc]
  -- a zero may be followed by anything, other digits not by digits
  have htail : l.digits = ['0'.toUInt8] ∨
      NotDigit (l.fractionText ++ (l.exponentText ++ rest)) := by
    by_cases hzero : l.digits = ['0'.toUInt8]
    · exact .inl hzero
    · refine .inr ?_
      unfold Literal.fractionText
      cases hf : l.fraction with
      | none => exact exponentText_ends hl h (.inl hzero)
      | some ds => exact notDigit_cons (by decide)
  rw [parseInt_eq l.negative hds o _ _ htail]
  cases intNumber l.negative l.digits with
  | none => rfl
  | some n =>
    rw [reading_some, Ending.bind_done]
    refine (afterInt_eq hl n o _ h).trans ?_
    rw [Option.bind_some, Literal.text]
    simp only [List.append_assoc]

/-- The integer and the fraction of a literal make its significand. -/
theorem mantissa_spec {l : Literal} (hl : l.WellFormed) :
    match significand l with
    | none => mantissa l = none
    | some s => ∃ n k, mantissa l = some n ∧ IsDouble n.asDouble s k ∧
        (n.useDouble = false → l.fraction = none ∧
          digitsWhile (fitsIn (max64 l.negative)) 0 l.digits = l.digits) := by
  have hspec := intNumber_spec l.negative ⟨hl.digits, hl.leading⟩
  have hdouble : ∀ {n s k} {fraction : Option Bytes}, IsDouble n s k → IsDouble n.asDouble s k ∧
      (n.useDouble = false → fraction = none ∧
        digitsWhile (fitsIn (max64 l.negative)) 0 l.digits = l.digits) := fun h =>
    ⟨h.asDouble.symm ▸ h, fun hinteger => by rw [h.useDouble] at hinteger; cases hinteger⟩
  unfold significand mantissa
  dsimp only at hspec ⊢
  by_cases hall : digitsWhile (fitsIn (max64 l.negative)) 0 l.digits = l.digits
  · rw [if_pos hall] at hspec ⊢
    obtain ⟨n, hn, hinteger, -⟩ := hspec
    rw [hn, Option.bind_some]
    cases hf : l.fraction with
    | none => exact ⟨n, _, rfl, hinteger.asDouble, fun _ => ⟨rfl, hall⟩⟩
    | some ds =>
      obtain ⟨n', k', hn', h⟩ := fracNumber_integer hinteger (hl.fraction ds hf).isDecimal
      exact ⟨n', k', hn', hdouble h⟩
  · rw [if_neg hall] at hspec ⊢
    obtain ⟨f, hf, hn⟩ := hspec
    rw [hn]
    cases longInteger _ _ with
    | none => rfl
    | some d =>
      rw [Option.map_some, Option.map_some, Option.bind_some]
      cases hfrac : l.fraction with
      | none => exact ⟨f d, _, rfl, hdouble (hf d)⟩
      | some ds =>
        obtain ⟨n', k', hn', h⟩ := fracNumber_double (hf d) ds
        exact ⟨n', k', hn', hdouble h⟩

/-- A literal that is no integer, or one that is too large for 64 bits. -/
def ReadsDouble (l : Literal) : Prop :=
  l.integral = true → digitsWhile (fitsIn (max64 l.negative)) 0 l.digits ≠ l.digits

/-- The significand of a literal is scaled by its exponent. -/
theorem literalNumber_spec {l : Literal} (hl : l.WellFormed) (hdouble : ReadsDouble l) :
    match significand l with
    | none => literalNumber l = none
    | some s =>
      if exponentValue l - s.places ≤ 308 then
        ∃ n, literalNumber l = some n ∧ IsScaled n s.value (exponentValue l - s.places)
      else literalNumber l = none := by
  have hspec := mantissa_spec hl
  unfold literalNumber
  cases hs : significand l with
  | none =>
    rw [hs] at hspec
    rw [hspec]
    rfl
  | some s =>
    rw [hs] at hspec
    obtain ⟨n, k, hn, hsignificand, hinteger⟩ := hspec
    rw [hn, Option.bind_some]
    cases he : l.exponent with
    | some e => exact expNumber_spec hsignificand he (hl.exponent e he).1
    | none =>
      have huse : n.useDouble = true := by
        by_contra hfalse
        obtain ⟨hf, hall⟩ := hinteger (Bool.eq_false_iff.mpr hfalse)
        exact hdouble (by rw [Literal.integral, hf, he]; rfl) hall
      have hvalue : exponentValue l - s.places = -(s.places : Int) := by
        rw [exponentValue, he, Int.zero_sub]
      rw [Number.asDouble, if_pos huse] at hsignificand
      dsimp only
      rw [hvalue, if_pos (by omega)]
      exact ⟨n, rfl, hsignificand.isScaled⟩

/-- The assertion of `Pow10` holds on the way to the double. -/
theorem strtodNormalPrecision_eq (d : Float) {p : Int} (hp : p ≤ 308) :
    StrtodNormalPrecision d p = some (scaled d p) := by
  have hpow : ∀ n : Int, 0 ≤ n → n ≤ 308 → Pow10 n = some (tenTo n.toNat) := fun n h h' =>
    if_pos ⟨h, h'⟩
  rw [StrtodNormalPrecision, scaled]
  by_cases hsmall : p < -308
  · rw [if_pos hsmall, if_neg (by omega), if_neg (by omega)]
    have hfirst : FastPath d (-308) = some (d / tenTo 308) := rfl
    rw [hfirst, Option.bind_some, FastPath]
    by_cases htiny : p + 308 < -308
    · rw [if_pos htiny, if_neg (by omega)]
    · rw [if_neg htiny, if_neg (by omega), if_pos (by omega), hpow _ (by omega) (by omega),
        Option.map_some, show -(p + 308) = -p - 308 by omega]
  · rw [if_neg hsmall, FastPath, if_neg hsmall]
    by_cases hpos : 0 ≤ p
    · rw [if_pos hpos, if_pos hpos, hpow p hpos hp, Option.map_some]
    · rw [if_neg hpos, if_neg hpos, if_pos (by omega), hpow _ (by omega) (by omega),
        Option.map_some]

theorem IsScaled.toJsonNumber {n : Number} {d : Float} {p : Int} (h : IsScaled n d p)
    (hp : p ≤ 308) (minus : Bool) :
    n.toJsonNumber minus = if -0x80000000 ≤ p then
        some (.double (if minus then -scaled d p else scaled d p).toBits)
      else none := by
  rw [Number.toJsonNumber, if_pos h.useDouble, addInt, h.exponent, h.value]
  by_cases hle : -0x80000000 ≤ p
  · rw [if_pos ⟨hle, by omega⟩, if_pos hle, Option.bind_some, strtodNormalPrecision_eq d hp,
      Option.map_some]
  · rw [if_neg fun hrange => hle hrange.1, if_neg hle, Option.bind_none]

/-- A literal is read as an integer or as a double. -/
theorem literal_cases {l : Literal} (hl : l.WellFormed) :
    (∃ n k, literalNumber l = some n ∧ n.toJsonNumber l.negative = some k ∧
      l.number doubleOf = some k) ∨
    (ReadsDouble l ∧ l.number doubleOf = (doubleOf l).map .double) := by
  by_cases hint : l.integral = true
  · obtain ⟨hf, he⟩ : l.fraction = none ∧ l.exponent = none := by
      simpa [Literal.integral] using hint
    have hvalue := intNumber_value l.negative ⟨hl.digits, hl.leading⟩
    rw [Literal.number, if_pos hint]
    cases hk : integerNumber l.negative (decimalValue 0 l.digits) with
    | some k =>
      rw [hk] at hvalue
      obtain ⟨n, hn, hnk⟩ := hvalue
      refine .inl ⟨n, k, ?_, hnk, rfl⟩
      rw [literalNumber, mantissa, hn, hf, he]
      rfl
    | none =>
      rw [hk] at hvalue
      exact .inr ⟨fun _ => hvalue, rfl⟩
  · refine .inr ⟨fun h => absurd h hint, ?_⟩
    rw [Literal.number, if_neg hint]

/-- **What a literal is read as.** Every literal is read as the number that it stands
for: an integer literal as the first type that holds the integer, all the others as a
double. -/
theorem literalNumber_eq {l : Literal} (hl : l.WellFormed) :
    (literalNumber l).bind (Number.toJsonNumber l.negative) = l.number doubleOf := by
  obtain ⟨n, k, hn, hnk, hk⟩ | ⟨hdouble, hk⟩ := literal_cases hl
  · rw [hn, Option.bind_some, hnk, hk]
  have hspec := literalNumber_spec hl hdouble
  rw [hk, doubleOf]
  cases hs : significand l with
  | none =>
    rw [hs] at hspec
    rw [hspec]
    rfl
  | some s =>
    rw [hs] at hspec
    rw [Option.bind_some]
    dsimp only at hspec ⊢
    by_cases hp : exponentValue l - s.places ≤ 308
    · rw [if_pos hp] at hspec
      obtain ⟨n, hn, hscaled⟩ := hspec
      rw [hn, Option.bind_some, hscaled.toJsonNumber hp]
      by_cases hle : -0x80000000 ≤ exponentValue l - s.places
      · rw [if_pos hle, if_pos (And.intro hle hp), Option.map_some]
      · rw [if_neg hle, if_neg fun hrange => hle hrange.1, Option.map_none]
    · rw [if_neg hp] at hspec
      rw [hspec, if_neg fun hrange => hp hrange.2]
      rfl

section Scan

variable {l : Literal} (hl : l.WellFormed) {rest : Bytes} (h : Ends l rest) (o : Nat) (p : Bytes)
include hl h

/-- A literal that stands for a number is read as that number, in any place. -/
theorem scanNumber_number {k : JsonNumber} (hk : l.number doubleOf = some k) :
    scanNumber ⟨o, p, l.text ++ rest⟩ = .done (k, ⟨o, p ++ l.text, rest⟩) := by
  rw [← literalNumber_eq hl, Option.bind_eq_some_iff] at hk
  obtain ⟨n, hn, hnk⟩ := hk
  rw [scanNumber, scanLiteral_literal hl h, (consume_minus hl o p rest).1, hn, reading_some,
    Ending.bind_done, finishNumber, hnk]

/-- Any other literal is too big, or the exponent overflows. -/
theorem scanNumber_noNumber (hk : l.number doubleOf = none) :
    (scanNumber ⟨o, p, l.text ++ rest⟩ = .fail ⟨.NumberTooBig, o⟩ ∧ ¬ Overflows l) ∨
      (scanNumber ⟨o, p, l.text ++ rest⟩ = .aborted ∧ Overflows l) := by
  obtain ⟨n, k, -, -, hk'⟩ | ⟨hdouble, -⟩ := literal_cases hl
  · rw [hk] at hk'
    cases hk'
  have hspec := literalNumber_spec hl hdouble
  rw [← literalNumber_eq hl] at hk
  rw [scanNumber, scanLiteral_literal hl h, (consume_minus hl o p rest).1]
  cases hn : literalNumber l with
  | none =>
    refine .inl ⟨rfl, fun ⟨s, hs, hp⟩ => ?_⟩
    rw [hs] at hspec
    dsimp only at hspec
    rw [if_pos (by omega), hn] at hspec
    obtain ⟨n, hn', -⟩ := hspec
    cases hn'
  | some n =>
    rw [hn, Option.bind_some] at hk
    rw [hn] at hspec
    refine .inr ⟨by rw [reading_some, Ending.bind_done, finishNumber, hk], ?_⟩
    cases hs : significand l with
    | none =>
      rw [hs] at hspec
      cases hspec
    | some s =>
      rw [hs] at hspec
      dsimp only at hspec
      by_cases hp : exponentValue l - s.places ≤ 308
      · rw [if_pos hp] at hspec
        obtain ⟨n', hn', hscaled⟩ := hspec
        cases hn'
        rw [hscaled.toJsonNumber hp] at hk
        refine ⟨s, hs, Int.lt_of_not_ge fun hle => ?_⟩
        rw [if_pos hle] at hk
        cases hk
      · rw [if_neg hp] at hspec
        cases hspec

end Scan

/-- Where a fraction is read there are a point and digits, or there is no point. -/
theorem exists_fraction {n : Number} {o : Nat} {p text : Bytes} {x : Number × NumberStream}
    (h : parseFrac n ⟨o, p, text⟩ = .done x) :
    ∃ (f : Option Bytes) (tail : Bytes), text = f.elim [] ('.'.toUInt8 :: ·) ++ tail ∧
      (∀ ds ∈ f, Decimals ds ∧ NotDigit tail) ∧ (f = none → tail.head? ≠ some '.'.toUInt8) ∧
      ∃ q, x.2 = ⟨o, q, tail⟩ := by
  by_cases hpoint : text.head? = some '.'.toUInt8
  · obtain ⟨text, rfl⟩ := List.head?_eq_some_iff.mp hpoint
    obtain ⟨ds, tail, rfl, hds, htail⟩ := exists_digits text
    have hne : ds ≠ [] := by
      rintro rfl
      rw [parseFrac, consume_cons] at h
      dsimp only at h
      have hpeek : isDecimal (⟨o, p ++ ['.'.toUInt8], [] ++ tail⟩ : NumberStream).Peek = false := by
        cases tail with
        | nil => rfl
        | cons b tail => exact htail b rfl
      rw [hpeek] at h
      cases h
    have hdec : Decimals ds := ⟨hne, hds⟩
    refine ⟨some ds, tail, rfl, fun _ hf => Option.mem_some_iff.mp hf ▸ ⟨hdec, htail⟩,
      fun hf => absurd hf (Option.some_ne_none ds), ?_⟩
    rw [parseFrac_eq n hdec o p htail] at h
    cases hn : fracNumber n ds with
    | none =>
      rw [hn] at h
      cases h
    | some n' =>
      rw [hn] at h
      cases h
      exact ⟨_, rfl⟩
  · rw [parseFrac_none n o p hpoint] at h
    cases h
    exact ⟨none, text, rfl, fun _ hf => absurd hf (Option.not_mem_none _), fun _ => hpoint, p, rfl⟩

/-- The sign of an exponent, if it has one. -/
theorem parseSign_spec (o : Nat) (p text : Bytes) :
    ∃ (sign : Option UInt8) (tail : Bytes), text = sign.toList ++ tail ∧
      (∀ c ∈ sign, c = '+'.toUInt8 ∨ c = '-'.toUInt8) ∧
      (parseSign ⟨o, p, text⟩).2 = ⟨o, p ++ sign.toList, tail⟩ := by
  by_cases hplus : text.head? = some '+'.toUInt8
  · obtain ⟨tail, rfl⟩ := List.head?_eq_some_iff.mp hplus
    refine ⟨some '+'.toUInt8, tail, rfl, fun c hc => .inl (Option.mem_some_iff.mp hc).symm, ?_⟩
    rw [parseSign, consume_cons]
    rfl
  by_cases hminus : text.head? = some '-'.toUInt8
  · obtain ⟨tail, rfl⟩ := List.head?_eq_some_iff.mp hminus
    refine ⟨some '-'.toUInt8, tail, rfl, fun c hc => .inr (Option.mem_some_iff.mp hc).symm, ?_⟩
    rw [parseSign, consume_cons_ne (by decide), consume_cons]
    rfl
  · refine ⟨none, text, rfl, fun c hc => absurd hc (Option.not_mem_none c), ?_⟩
    rw [parseSign, consume_of_ne (by decide) hplus]
    dsimp only
    rw [consume_of_ne (by decide) hminus, Option.toList_none, List.append_nil]

/-- Where an exponent is read there is one, or there is no letter for one. -/
theorem exists_exponent {n : Number} {o : Nat} {p text : Bytes} {x : Number × NumberStream}
    (h : parseExp n ⟨o, p, text⟩ = .done x) :
    ∃ (e : Option Exponent) (rest : Bytes), text = e.elim [] Exponent.text ++ rest ∧
      (∀ e' ∈ e, WellFormedExp e' ∧ NotDigit rest) ∧
      (e = none → rest.head? ≠ some 'e'.toUInt8 ∧ rest.head? ≠ some 'E'.toUInt8) := by
  by_cases hletter : text.head? = some 'e'.toUInt8 ∨ text.head? = some 'E'.toUInt8
  · obtain ⟨letter, text, hor, rfl⟩ : ∃ letter tail,
        (letter = 'e'.toUInt8 ∨ letter = 'E'.toUInt8) ∧ text = letter :: tail := by
      obtain hl | hl := hletter
      all_goals
        obtain ⟨tail, rfl⟩ := List.head?_eq_some_iff.mp hl
        exact ⟨_, tail, by decide, rfl⟩
    have hconsume : ((⟨o, p, letter :: text⟩ : NumberStream).Consume 'e'.toUInt8).or
        ((⟨o, p, letter :: text⟩ : NumberStream).Consume 'E'.toUInt8) =
        some ⟨o, p ++ [letter], text⟩ := by
      obtain rfl | rfl := hor
      · rw [consume_cons]
        rfl
      · rw [consume_cons, consume_cons_ne (by decide)]
        rfl
    obtain ⟨sign, tail, rfl, hsign, hstream⟩ := parseSign_spec o (p ++ [letter]) text
    obtain ⟨ds, rest, rfl, hds, hrest⟩ := exists_digits tail
    have hne : ds ≠ [] := by
      rintro rfl
      rw [parseExp, hconsume] at h
      dsimp only at h
      have hpeek : isDecimal (parseSign ⟨o, p ++ [letter], sign.toList ++ ([] ++ rest)⟩).2.Peek =
          false := by
        rw [hstream]
        cases rest with
        | nil => rfl
        | cons b rest => exact hrest b rfl
      rw [hpeek] at h
      cases h
    refine ⟨some ⟨letter, sign, ds⟩, rest, ?_, ?_, fun he => absurd he (Option.some_ne_none _)⟩
    · simp [Exponent.text]
    · intro e' he'
      cases he'
      exact ⟨⟨⟨hne, hds⟩, hor, hsign⟩, hrest⟩
  · exact ⟨none, text, rfl, fun _ he => absurd he (Option.not_mem_none _),
      fun _ => not_or.mp hletter⟩

/-- **What is read as a number is a literal**, as far as it goes. -/
theorem scanLiteral_sound {o : Nat} {p text : Bytes} {x : Number × NumberStream}
    (h : scanLiteral ⟨o, p, text⟩ = .done x) :
    ∃ l rest, Literal.WellFormed l ∧ Ends l rest ∧ text = l.text ++ rest := by
  obtain ⟨negative, q, text', htext, hminus⟩ : ∃ (negative : Bool) (q text' : Bytes),
      text = (if negative then ['-'.toUInt8] else []) ++ text' ∧
      ((⟨o, p, text⟩ : NumberStream).Consume '-'.toUInt8).getD ⟨o, p, text⟩ = ⟨o, q, text'⟩ := by
    by_cases hhead : text.head? = some '-'.toUInt8
    · obtain ⟨text', rfl⟩ := List.head?_eq_some_iff.mp hhead
      exact ⟨true, _, text', rfl, by rw [consume_cons]; rfl⟩
    · exact ⟨false, p, text, rfl, by rw [consume_of_ne (by decide) hhead]; rfl⟩
  rw [scanLiteral, hminus] at h
  obtain ⟨⟨n₁, s₁⟩, hint, h⟩ := Ending.bind_eq_done.mp h
  obtain ⟨⟨n₂, s₂⟩, hfrac, hexp⟩ := Ending.bind_eq_done.mp h
  obtain ⟨ds, tail, rfl, hds, htail⟩ := exists_intDigits hint
  obtain rfl : s₁ = ⟨o, q ++ ds, tail⟩ := by
    rw [parseInt_eq _ hds o q tail htail] at hint
    generalize intNumber _ ds = r at hint
    cases r with
    | none => cases hint
    | some n => cases hint; rfl
  obtain ⟨f, tail', rfl, hf, hfnone, q', rfl⟩ := exists_fraction hfrac
  obtain ⟨e, rest, rfl, he, henone⟩ := exists_exponent hexp
  refine ⟨⟨negative, ds, f, e⟩, rest, ⟨hds.digits, hds.leading, fun fs hfs => (hf fs hfs).1, ?_⟩,
    ⟨?_, ?_, henone⟩, ?_⟩
  · intro e' he'
    obtain ⟨⟨hdigits, hletter, hsign⟩, -⟩ := he e' he'
    exact ⟨hdigits, hletter, hsign⟩
  · cases e with
    | some e => exact .inr (he e rfl).2
    | none =>
      cases f with
      | some fs => exact .inr (hf fs rfl).2
      | none => exact htail.imp_left fun hzero => ⟨hzero, rfl, rfl⟩
  · rintro hfnone' henone'
    subst hfnone' henone'
    exact hfnone rfl
  · rw [htext]
    cases f <;> cases e <;>
      simp [Literal.text, Literal.minus, Literal.fractionText, Literal.exponentText]

/-- A number that is read is that of the literal. -/
theorem scanNumber_sound {o : Nat} {p text : Bytes} {k : JsonNumber} {s : NumberStream}
    (h : scanNumber ⟨o, p, text⟩ = .done (k, s)) :
    ∃ l rest, Literal.WellFormed l ∧ Ends l rest ∧ text = l.text ++ rest ∧
      l.number doubleOf = some k ∧ s = ⟨o, p ++ l.text, rest⟩ := by
  obtain ⟨x, hx, -⟩ := Ending.bind_eq_done.mp h
  obtain ⟨l, rest, hl, hends, rfl⟩ := scanLiteral_sound hx
  refine ⟨l, rest, hl, hends, rfl, ?_⟩
  cases hk : l.number doubleOf with
  | some k' =>
    rw [scanNumber_number hl hends o p hk] at h
    cases h
    exact ⟨rfl, rfl⟩
  | none =>
    obtain ⟨hfail, -⟩ | ⟨habort, -⟩ := scanNumber_noNumber hl hends o p hk
    · rw [hfail] at h
      cases h
    · rw [habort] at h
      cases h

end GenericReader

end RapidJson
