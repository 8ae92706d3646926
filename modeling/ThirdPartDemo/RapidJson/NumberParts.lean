import ThirdPartDemo.RapidJson.Doubles
import ThirdPartDemo.RapidJson.Reader

/-!
# RapidJSON — the parts of a number

What `ParseNumber` makes of the integer, the fraction and the exponent of a literal, each
by one or more loops over its digits.

The loops stop in the middle of the digits when a type is too small, and the next loop
goes on from there. `rounds` is such a loop on the digits alone; the loop on the stream is
`digitRounds_eq`, whatever comes after the digits.

* `parseInt_eq`, `parseFrac_eq`, `parseExp_eq` — each part is taken as a whole, as far as
  its digits go;
* `intNumber_spec` — the integer is one, or a double if 64 bits do not hold it;
* `fracNumber_integer`, `fracNumber_double` — the fraction goes on with its significand;
* `expNumber_spec` — the exponent scales it, unless the power of ten is too big.
-/

namespace RapidJson

open Library

namespace GenericReader

/-- No digit comes next. -/
def NotDigit (tail : Bytes) : Prop := ∀ b ∈ tail.head?, isDecimal b = false

/-- The digits that a text starts with, and the rest. -/
theorem exists_digits (text : Bytes) :
    ∃ ds tail, text = ds ++ tail ∧ (∀ b ∈ ds, isDecimal b = true) ∧ NotDigit tail := by
  refine ⟨text.takeWhile isDecimal, text.dropWhile isDecimal,
    List.takeWhile_append_dropWhile.symm, List.all_eq_true.mp List.all_takeWhile, ?_⟩
  intro b hb
  have := List.head?_dropWhile_not isDecimal text
  rw [Option.mem_def.mp hb] at this
  simpa using this

-- ---------------------------------------------------------------------------
-- Loops over digits
-- ---------------------------------------------------------------------------

/-- A loop over digits without a stream: the number, the digits that were taken and
those that were left. -/
def rounds (turn : Number → Nat → Turn) : Number → Bytes → Option (Number × Bytes × Bytes)
  | n, [] => some (n, [], [])
  | n, b :: ds =>
    match turn n (b.toNat - '0'.toNat) with
    | .take n => (rounds turn n ds).map fun (n, q, t) => (n, b :: q, t)
    | .leave n => some (n, [], b :: ds)
    | .tooBig => none

/-- A number that was read, with the stream after it, or one that is too big. -/
def reading {α : Type} (startOffset : Nat) (taken tail : Bytes) (r : Option α) :
    Ending ParseError (α × NumberStream) :=
  match r with
  | some n => .done (n, ⟨startOffset, taken, tail⟩)
  | none => .fail ⟨.NumberTooBig, startOffset⟩

@[simp] theorem reading_some {α : Type} (o : Nat) (p tail : Bytes) (n : α) :
    reading o p tail (some n) = .done (n, ⟨o, p, tail⟩) := rfl

/-- A loop over digits that may have left some. -/
def stopped (startOffset : Nat) (taken tail : Bytes) (r : Option (Number × Bytes × Bytes)) :
    Ending ParseError (Number × NumberStream) :=
  match r with
  | some (n, q, t) => .done (n, ⟨startOffset, taken ++ q, t ++ tail⟩)
  | none => .fail ⟨.NumberTooBig, startOffset⟩

@[simp] theorem stopped_some (o : Nat) (p tail : Bytes) (n : Number) (q t : Bytes) :
    stopped o p tail (some (n, q, t)) = .done (n, ⟨o, p ++ q, t ++ tail⟩) := rfl

theorem digitRounds_eq (turn : Number → Nat → Turn) (o : Nat) {ds tail : Bytes}
    (hds : ∀ b ∈ ds, isDecimal b = true) (htail : NotDigit tail) (n : Number) (p : Bytes) :
    digitRounds o turn n p (ds ++ tail) = stopped o p tail (rounds turn n ds) := by
  induction ds generalizing n p with
  | nil =>
    rw [rounds, stopped_some, List.nil_append, List.append_nil]
    cases tail with
    | nil => rw [digitRounds]
    | cons b tail =>
      have hb : isDecimal b = false := htail b rfl
      rw [digitRounds, hb, if_neg Bool.false_ne_true]
  | cons b ds ih =>
    have hb : isDecimal b = true := hds b List.mem_cons_self
    rw [List.cons_append, digitRounds, if_pos hb, rounds]
    cases turn n (b.toNat - '0'.toNat) with
    | take n =>
      dsimp only
      rw [ih (fun b hb => hds b (List.mem_cons_of_mem _ hb))]
      obtain _ | ⟨n', q, t⟩ := rounds turn n ds
      · rfl
      · simp
    | leave n => simp
    | tooBig => rfl

/-- Where a loop stops. -/
theorem rounds_some {turn : Number → Nat → Turn} {n n' : Number} {ds q t : Bytes}
    (h : rounds turn n ds = some (n', q, t)) :
    ds = q ++ t ∧ (t = [] ∨ ∃ m digit, turn m digit = .leave n') := by
  induction ds generalizing n q with
  | nil =>
    cases h
    exact ⟨rfl, .inl rfl⟩
  | cons b ds ih =>
    rw [rounds] at h
    cases hturn : turn n (b.toNat - '0'.toNat) with
    | take n₁ =>
      rw [hturn, Option.map_eq_some_iff] at h
      obtain ⟨⟨n₂, q₂, t₂⟩, hr, heq⟩ := h
      cases heq
      obtain ⟨hds, hstop⟩ := ih hr
      exact ⟨by rw [hds, List.cons_append], hstop⟩
    | leave n₁ =>
      rw [hturn] at h
      cases h
      exact ⟨rfl, .inr ⟨n, _, hturn⟩⟩
    | tooBig =>
      rw [hturn] at h
      cases h

-- ---------------------------------------------------------------------------
-- Integers
-- ---------------------------------------------------------------------------

/-- The digits of an integer: a zero, or digits that do not start with one. -/
structure IntDigits (ds : Bytes) : Prop where
  digits : Decimals ds
  leading : ds = ['0'.toUInt8] ∨ ds.head? ≠ some '0'.toUInt8

theorem past_eq_true {limit last acc digit : Nat} (hdigit : digit ≤ 9) (hlast : last ≤ 9) :
    past limit last acc digit = true ↔ limit * 10 + last < acc * 10 + digit := by
  simp only [past, Bool.and_eq_true, Bool.or_eq_true, decide_eq_true_eq, bne_iff_ne]
  omega

theorem turn32_eq (minus : Bool) (n : Number) {digit : Nat} (hdigit : digit ≤ 9) :
    turn32 minus n digit =
      if max32 minus < n.i * 10 + digit then .leave { n with i64 := n.i, use64bit := true }
      else .take { n with i := n.i * 10 + digit, significandDigit := n.significandDigit + 1 } := by
  unfold turn32
  cases minus
  all_goals
    simp only [cond_true, cond_false, past_eq_true hdigit, Nat.reduceLeDiff]
    rfl

theorem turn64_eq (minus : Bool) (n : Number) {digit : Nat} (hdigit : digit ≤ 9) :
    turn64 minus n digit =
      if max64 minus < n.i64 * 10 + digit then
        .leave { n with d := n.i64.toUInt64.toFloat, useDouble := true }
      else
        .take { n with i64 := n.i64 * 10 + digit, significandDigit := n.significandDigit + 1 } := by
  unfold turn64
  cases minus
  all_goals
    simp only [cond_true, cond_false, past_eq_true hdigit, Nat.reduceLeDiff]
    rfl

theorem turn32_leave {minus : Bool} {n n' : Number} {digit : Nat}
    (h : turn32 minus n digit = .leave n') : n'.use64bit = true := by
  unfold turn32 at h
  split at h
  · cases h
    rfl
  · cases h

theorem turn64_leave {minus : Bool} {n n' : Number} {digit : Nat}
    (h : turn64 minus n digit = .leave n') : n'.useDouble = true := by
  unfold turn64 at h
  split at h
  · cases h
    rfl
  · cases h

theorem turnDouble_ne_leave (n : Number) (digit : Nat) (n' : Number) :
    turnDouble n digit ≠ .leave n' := by
  unfold turnDouble
  split <;> exact fun h => by cases h

/-- What `parseInt` makes of the digits after the first, in three loops. -/
def intRounds (minus : Bool) (n : Number) (ds : Bytes) : Option Number :=
  (rounds (turn32 minus) n ds).bind fun (n, _, t) =>
    (if n.use64bit then rounds (turn64 minus) n t else some (n, [], t)).bind fun (n, _, t) =>
      if n.useDouble then (rounds turnDouble n t).map Prod.fst else some n

/-- What `parseInt` makes of the digits of an integer. -/
def intNumber (minus : Bool) : Bytes → Option Number
  | [] => none
  | b :: ds =>
    if b = '0'.toUInt8 then some {} else intRounds minus { i := b.toNat - '0'.toNat } ds

/-- The three loops take all the digits. -/
theorem intRounds_eq (minus : Bool) (n : Number) (ds : Bytes)
    (hds : ∀ b ∈ ds, isDecimal b = true) (o : Nat) (p tail : Bytes) (htail : NotDigit tail) :
    ((digitRounds o (turn32 minus) n p (ds ++ tail)).bind fun (n, s) =>
      (if n.use64bit then whileDigit (turn64 minus) n s else .done (n, s)).bind fun (n, s) =>
        if n.useDouble then whileDigit turnDouble n s else .done (n, s)) =
      reading o (p ++ ds) tail (intRounds minus n ds) := by
  rw [digitRounds_eq _ o hds htail, intRounds]
  rcases h₁ : rounds (turn32 minus) n ds with _ | ⟨n₁, q₁, t₁⟩
  · rfl
  obtain ⟨rfl, hstop₁⟩ := rounds_some h₁
  have ht₁ : ∀ b ∈ t₁, isDecimal b = true := fun b hb => hds b (List.mem_append_right _ hb)
  -- the 64 bit loop, if the first one was left, and then the digits it did not take
  have h64 : ∃ r : Option (Number × Bytes × Bytes),
      (if n₁.use64bit then rounds (turn64 minus) n₁ t₁ else some (n₁, [], t₁)) = r ∧
      (if n₁.use64bit then whileDigit (turn64 minus) n₁ ⟨o, p ++ q₁, t₁ ++ tail⟩
        else .done (n₁, ⟨o, p ++ q₁, t₁ ++ tail⟩)) =
        stopped o (p ++ q₁) tail r ∧
      ∀ n' q t, r = some (n', q, t) → t₁ = q ++ t ∧ (t = [] ∨ n'.useDouble = true) := by
    by_cases huse : n₁.use64bit = true
    · refine ⟨_, if_pos huse, ?_, ?_⟩
      · rw [if_pos huse, whileDigit, digitRounds_eq _ o ht₁ htail]
      · intro n' q t hr
        obtain ⟨hds, hstop⟩ := rounds_some hr
        exact ⟨hds, hstop.imp_right fun ⟨m, digit, hleave⟩ => turn64_leave hleave⟩
    · refine ⟨_, if_neg huse, ?_, ?_⟩
      · rw [if_neg huse, stopped_some, List.append_nil]
      · intro n' q t hr
        cases hr
        refine ⟨rfl, .inl ?_⟩
        obtain h | ⟨m, digit, hleave⟩ := hstop₁
        · exact h
        · exact absurd (turn32_leave hleave) huse
  obtain ⟨r, hr, hstream, hrest⟩ := h64
  rw [stopped_some, Ending.bind_done, Option.bind_some]
  dsimp only
  rw [hstream, hr]
  rcases r with _ | ⟨n₂, q₂, t₂⟩
  · rfl
  obtain ⟨rfl, hstop₂⟩ := hrest n₂ q₂ t₂ rfl
  have ht₂ : ∀ b ∈ t₂, isDecimal b = true := fun b hb => ht₁ b (List.mem_append_right _ hb)
  rw [stopped_some, Ending.bind_done, Option.bind_some]
  dsimp only
  by_cases hdouble : n₂.useDouble = true
  · rw [if_pos hdouble, if_pos hdouble, whileDigit, digitRounds_eq _ o ht₂ htail]
    rcases h₃ : rounds turnDouble n₂ t₂ with _ | ⟨n₃, q₃, t₃⟩
    · rfl
    obtain ⟨rfl, rfl | ⟨m, digit, hleave⟩⟩ := rounds_some h₃
    · simp
    · exact absurd hleave (turnDouble_ne_leave m digit n₃)
  · obtain rfl : t₂ = [] := hstop₂.resolve_right hdouble
    rw [if_neg hdouble, if_neg hdouble]
    simp

theorem isDecimal_iff {b : UInt8} :
    isDecimal b = true ↔ '0'.toUInt8 ≤ b ∧ b ≤ '9'.toUInt8 := by
  simp [isDecimal]

/-- The digits of an integer are taken as a whole. After a zero anything may follow. -/
theorem parseInt_eq (minus : Bool) {ds : Bytes} (hds : IntDigits ds) (o : Nat) (p tail : Bytes)
    (htail : ds = ['0'.toUInt8] ∨ NotDigit tail) :
    parseInt minus ⟨o, p, ds ++ tail⟩ = reading o (p ++ ds) tail (intNumber minus ds) := by
  rcases ds with _ | ⟨b, ds⟩
  · exact absurd rfl hds.digits.ne_nil
  have hpeek : (⟨o, p, b :: ds ++ tail⟩ : NumberStream).Peek = b := rfl
  have htake : (⟨o, p, b :: ds ++ tail⟩ : NumberStream).Take = ⟨o, p ++ [b], ds ++ tail⟩ := rfl
  rw [parseInt, hpeek, htake, intNumber]
  by_cases hb : b = '0'.toUInt8
  · obtain hzero | hne := hds.leading
    · cases hzero
      rw [if_pos rfl, if_pos rfl]
      rfl
    · exact absurd (congrArg some hb) hne
  · have hdec := hds.digits.isDecimal b List.mem_cons_self
    rw [isDecimal_iff] at hdec
    have hone : '1'.toUInt8 ≤ b ∧ b ≤ '9'.toUInt8 := by
      refine ⟨?_, hdec.2⟩
      obtain ⟨hle, -⟩ := hdec
      rw [UInt8.le_iff_toNat_le] at hle ⊢
      rw [← UInt8.toNat_inj] at hb
      exact Nat.lt_of_le_of_ne hle (Ne.symm hb)
    have htail' : NotDigit tail := htail.resolve_left fun h => hb (by cases h; rfl)
    rw [if_neg hb, if_pos hone, if_neg hb, whileDigit,
      intRounds_eq minus _ ds (fun c hc => hds.digits.isDecimal c (List.mem_cons_of_mem _ hc))
        o _ tail htail']
    rw [List.append_assoc, List.singleton_append]

/-- Where an integer is read there are its digits. -/
theorem exists_intDigits {minus : Bool} {o : Nat} {p text : Bytes} {x : Number × NumberStream}
    (h : parseInt minus ⟨o, p, text⟩ = .done x) :
    ∃ ds tail, text = ds ++ tail ∧ IntDigits ds ∧ (ds = ['0'.toUInt8] ∨ NotDigit tail) := by
  rcases text with _ | ⟨b, text⟩
  · cases h
  by_cases hb : b = '0'.toUInt8
  · refine ⟨['0'.toUInt8], text, by rw [hb, List.singleton_append], ⟨⟨?_, ?_⟩, .inl rfl⟩,
      .inl rfl⟩
    · exact List.cons_ne_nil _ _
    · intro c hc
      rw [List.mem_singleton.mp hc]
      rfl
  · have hpeek : (⟨o, p, b :: text⟩ : NumberStream).Peek = b := rfl
    rw [parseInt, hpeek, if_neg hb] at h
    by_cases hone : '1'.toUInt8 ≤ b ∧ b ≤ '9'.toUInt8
    · obtain ⟨ds, tail, rfl, hds, htail⟩ := exists_digits text
      refine ⟨b :: ds, tail, rfl, ⟨⟨List.cons_ne_nil _ _, ?_⟩, .inr ?_⟩, .inr htail⟩
      · intro c hc
        obtain rfl | hc := List.mem_cons.mp hc
        · exact isDecimal_iff.mpr ⟨UInt8.le_trans (by decide) hone.1, hone.2⟩
        · exact hds c hc
      · exact fun heq => hb (Option.some.inj heq)
    · rw [if_neg hone] at h
      cases h

-- ---------------------------------------------------------------------------
-- The value of an integer
-- ---------------------------------------------------------------------------

theorem digit_le {b : UInt8} (hb : isDecimal b = true) : b.toNat - '0'.toNat ≤ 9 := by
  obtain ⟨-, hle⟩ := isDecimal_iff.mp hb
  have h57 : b.toNat ≤ 57 := UInt8.le_iff_toNat_le.mp hle
  show b.toNat - 48 ≤ 9
  omega

/-- A loop that takes digits by `fits`, after digits of the value `v`: the number is
`state q` once the digits `q` have been taken, and `left q` if the loop is left then. -/
theorem rounds_digitsWhile {turn : Number → Nat → Turn} {fits : Nat → Nat → Bool} {v : Nat}
    (state left : Bytes → Number)
    (hturn : ∀ q b, isDecimal b = true → turn (state q) (b.toNat - '0'.toNat) =
      if fits (decimalValue v q) (decimalValue v (q ++ [b])) then .take (state (q ++ [b]))
      else .leave (left q))
    {ds : Bytes} (hds : ∀ b ∈ ds, isDecimal b = true) (p : Bytes) :
    rounds turn (state p) ds =
      some (if digitsWhile fits (decimalValue v p) ds = ds then state (p ++ ds)
          else left (p ++ digitsWhile fits (decimalValue v p) ds),
        digitsWhile fits (decimalValue v p) ds,
        ds.drop (digitsWhile fits (decimalValue v p) ds).length) := by
  induction ds generalizing p with
  | nil =>
    rw [rounds, digitsWhile, if_pos rfl, List.append_nil]
    rfl
  | cons b ds ih =>
    have hb := hturn p b (hds b List.mem_cons_self)
    rw [decimalValue_concat] at hb
    cases hfits : fits (decimalValue v p) (10 * decimalValue v p + (b.toNat - '0'.toNat)) with
    | true =>
      have htail := ih (fun c hc => hds c (List.mem_cons_of_mem _ hc)) (p ++ [b])
      rw [decimalValue_concat] at htail
      rw [hfits, if_pos rfl] at hb
      rw [rounds, hb, digitsWhile_take hfits]
      dsimp only
      rw [htail, Option.map_some]
      simp only [List.cons_inj_right, List.append_assoc, List.singleton_append, List.length_cons,
        List.drop_succ_cons]
    | false =>
      rw [hfits, if_neg Bool.false_ne_true] at hb
      rw [rounds, hb, digitsWhile_stop hfits, if_neg (List.cons_ne_nil b ds).symm, List.append_nil]
      rfl

/-- Such a loop if it takes digits as long as their value is at most `max`. -/
theorem rounds_fitsIn {turn : Number → Nat → Turn} {max v : Nat} (state left : Bytes → Number)
    (hturn : ∀ q b, isDecimal b = true → turn (state q) (b.toNat - '0'.toNat) =
      if max < decimalValue v q * 10 + (b.toNat - '0'.toNat) then .leave (left q)
      else .take (state (q ++ [b])))
    {ds : Bytes} (hds : ∀ b ∈ ds, isDecimal b = true) :
    rounds turn (state []) ds =
      some (if digitsWhile (fitsIn max) v ds = ds then state ds
          else left (digitsWhile (fitsIn max) v ds),
        digitsWhile (fitsIn max) v ds, ds.drop (digitsWhile (fitsIn max) v ds).length) := by
  refine rounds_digitsWhile state left (fun q b hb => ?_) hds []
  rw [hturn q b hb, fitsIn, decimalValue_concat, Nat.mul_comm]
  by_cases hle : 10 * decimalValue v q + (b.toNat - '0'.toNat) ≤ max
  · rw [if_neg (Nat.not_lt.mpr hle), if_pos (decide_eq_true hle)]
  · rw [if_pos (Nat.lt_of_not_le hle), decide_eq_false hle, if_neg Bool.false_ne_true]

/-- A number after more digits in 32 bits, and in 64 bits. -/
def Number.after32 (n : Number) (q : Bytes) : Number :=
  { n with i := decimalValue n.i q, significandDigit := n.significandDigit + q.length }
def Number.after64 (n : Number) (q : Bytes) : Number :=
  { n with i64 := decimalValue n.i64 q, significandDigit := n.significandDigit + q.length }

/-- The first loop. -/
theorem rounds32 (minus : Bool) (n : Number) {ds : Bytes} (hds : ∀ b ∈ ds, isDecimal b = true) :
    rounds (turn32 minus) n ds =
      some (if digitsWhile (fitsIn (max32 minus)) n.i ds = ds then n.after32 ds
          else
            { n.after32 (digitsWhile (fitsIn (max32 minus)) n.i ds) with
              i64 := decimalValue n.i (digitsWhile (fitsIn (max32 minus)) n.i ds)
              use64bit := true },
        digitsWhile (fitsIn (max32 minus)) n.i ds,
        ds.drop (digitsWhile (fitsIn (max32 minus)) n.i ds).length) := by
  refine rounds_fitsIn n.after32
    (fun q => { n.after32 q with i64 := decimalValue n.i q, use64bit := true })
    (fun q b hb => ?_) hds
  rw [turn32_eq minus _ (digit_le hb), Number.after32, Number.after32, decimalValue_concat,
    List.length_append, List.length_singleton, Nat.mul_comm 10]
  rfl

/-- The second loop. -/
theorem rounds64 (minus : Bool) (n : Number) {ds : Bytes} (hds : ∀ b ∈ ds, isDecimal b = true) :
    rounds (turn64 minus) n ds =
      some (if digitsWhile (fitsIn (max64 minus)) n.i64 ds = ds then n.after64 ds
          else
            { n.after64 (digitsWhile (fitsIn (max64 minus)) n.i64 ds) with
              d := (decimalValue n.i64
                (digitsWhile (fitsIn (max64 minus)) n.i64 ds)).toUInt64.toFloat
              useDouble := true },
        digitsWhile (fitsIn (max64 minus)) n.i64 ds,
        ds.drop (digitsWhile (fitsIn (max64 minus)) n.i64 ds).length) := by
  refine rounds_fitsIn n.after64
    (fun q => { n.after64 q with
      d := (decimalValue n.i64 q).toUInt64.toFloat
      useDouble := true })
    (fun q b hb => ?_) hds
  rw [turn64_eq minus _ (digit_le hb), Number.after64, Number.after64, decimalValue_concat,
    List.length_append, List.length_singleton, Nat.mul_comm 10]
  rfl

/-- The third loop. -/
theorem roundsDouble (n : Number) (ds : Bytes) :
    rounds turnDouble n ds = (longInteger n.d ds).map fun d => ({ n with d }, ds, []) := by
  induction ds generalizing n with
  | nil => rfl
  | cons b ds ih =>
    rw [rounds, turnDouble, longInteger]
    by_cases hlarge : n.d ≥ 1.7976931348623157e307
    · rw [if_pos hlarge, if_pos hlarge]
      rfl
    · rw [if_neg hlarge, if_neg hlarge]
      dsimp only
      rw [ih, Option.map_map]
      rfl

/-- The number is an integer of the value `v`, with `k` significant digits after the
first. -/
structure IsInteger (n : Number) (v k : Nat) : Prop where
  useDouble : n.useDouble = false
  value : (if n.use64bit then n.i64 else n.i) = v
  significant : n.significandDigit = k
  expFrac : n.expFrac = 0
  exp : n.exp = 0

/-- The number is a double with the significand `s`, of `k` significant digits after the
first. -/
structure IsDouble (n : Number) (s : Significand) (k : Nat) : Prop where
  useDouble : n.useDouble = true
  value : n.d = s.value
  significant : n.significandDigit = k
  expFrac : n.expFrac = -(s.places : Int)
  exp : n.exp = 0

/-- What the three loops make of the digits after the first: an integer, by the first type
that holds it, or a double. -/
theorem intRounds_spec (minus : Bool) {i : Nat} (hi : i ≤ 9) {ds : Bytes}
    (hds : ∀ b ∈ ds, isDecimal b = true) :
    let q := digitsWhile (fitsIn (max64 minus)) i ds
    let v := decimalValue i q
    if q = ds then
      ∃ n, intRounds minus { i } ds = some n ∧ IsInteger n v q.length ∧
        n.use64bit = decide (max32 minus < v)
    else
      ∃ f : Float → Number, (∀ d, IsDouble (f d) ⟨d, 0⟩ q.length) ∧
        intRounds minus { i } ds = (longInteger v.toUInt64.toFloat (ds.drop q.length)).map f := by
  have h9 : 9 ≤ max32 minus := by cases minus <;> decide
  have h3264 : max32 minus ≤ max64 minus := by cases minus <;> decide
  have hi32 := Nat.le_trans hi h9
  intro q v
  -- the digits that 32 bits hold come first, and then the others that 64 bits hold
  obtain ⟨q₁, hq₁⟩ : ∃ q₁, q₁ = digitsWhile (fitsIn (max32 minus)) i ds := ⟨_, rfl⟩
  have hsplit : q = q₁ ++ digitsWhile (fitsIn (max64 minus)) (decimalValue i q₁)
      (ds.drop q₁.length) := hq₁ ▸ digitsWhile_fitsIn h3264 i ds
  have hds₁ : q₁ ++ ds.drop q₁.length = ds :=
    List.prefix_iff_eq_append.mp (hq₁ ▸ prefix_digitsWhile _ i ds)
  have hfits : q₁ = ds ↔ decimalValue i ds ≤ max32 minus := hq₁ ▸ digitsWhile_fitsIn_eq hi32 ds
  rw [intRounds, rounds32 minus { i } hds]
  dsimp only
  rw [← hq₁, Option.bind_some]
  dsimp only
  by_cases h₁ : q₁ = ds
  · have hq : q = ds :=
      (digitsWhile_fitsIn_eq (Nat.le_trans hi32 h3264) ds).mpr (Nat.le_trans (hfits.mp h₁) h3264)
    have hv : v = decimalValue i ds := congrArg (decimalValue i) hq
    rw [if_pos hq, if_pos h₁]
    refine ⟨_, rfl, ⟨rfl, hv.symm, ?_, rfl, rfl⟩, ?_⟩
    · rw [hq]
      exact Nat.zero_add _
    · rw [hv]
      exact (decide_eq_false (Nat.not_lt.mpr (hfits.mp h₁))).symm
  rw [if_neg h₁]
  obtain ⟨t, ht⟩ : ∃ t, t = ds.drop q₁.length := ⟨_, rfl⟩
  rw [← ht] at hsplit hds₁ ⊢
  have htdec : ∀ b ∈ t, isDecimal b = true := fun b hb => hds b (hds₁ ▸ List.mem_append_right _ hb)
  rw [Number.after32, if_pos rfl, rounds64 minus _ htdec]
  dsimp only
  obtain ⟨q₂, hq₂⟩ : ∃ q₂, q₂ = digitsWhile (fitsIn (max64 minus)) (decimalValue i q₁) t := ⟨_, rfl⟩
  rw [← hq₂] at hsplit ⊢
  have hv : v = decimalValue (decimalValue i q₁) q₂ :=
    (congrArg (decimalValue i) hsplit).trans (decimalValue_append i q₁ q₂)
  have hlength : q.length = q₁.length + q₂.length := by rw [hsplit, List.length_append]
  rw [Option.bind_some]
  dsimp only
  by_cases h₂ : q₂ = t
  · have hq : q = ds := by rw [hsplit, h₂, hds₁]
    rw [if_pos hq, if_pos h₂]
    refine ⟨_, rfl, ⟨rfl, ?_, ?_, rfl, rfl⟩, ?_⟩
    · rw [hv, ← h₂]
      rfl
    · rw [hlength, ← h₂]
      exact congrArg (· + q₂.length) (Nat.zero_add _)
    · refine (decide_eq_true (Nat.lt_of_not_le fun hle => h₁ (hfits.mpr ?_))).symm
      rwa [← hq]
  · have hq : q ≠ ds := fun hq =>
      h₂ (List.append_cancel_left (hsplit.symm.trans (hq.trans hds₁.symm)))
    rw [if_neg hq, if_neg h₂, Number.after64, if_pos rfl, roundsDouble]
    dsimp only
    rw [← hv, Option.map_map, ht, List.drop_drop, ← hlength]
    refine ⟨_, fun d => ⟨rfl, rfl, ?_, rfl, rfl⟩, rfl⟩
    rw [hlength]
    exact congrArg (· + q₂.length) (Nat.zero_add _)

theorem integerNumber_eq (minus : Bool) (v : Nat) :
    integerNumber minus v =
      if v ≤ max32 minus then some (if minus then .int (-v) else .uint v)
      else if v ≤ max64 minus then some (if minus then .int64 (-v) else .uint64 v)
      else none := by
  cases minus <;> rfl

/-- What `parseInt` makes of the digits of an integer. -/
theorem intNumber_spec (minus : Bool) {ds : Bytes} (hds : IntDigits ds) :
    let q := digitsWhile (fitsIn (max64 minus)) 0 ds
    let v := decimalValue 0 q
    if q = ds then
      ∃ n, intNumber minus ds = some n ∧ IsInteger n v (q.length - 1) ∧
        n.use64bit = decide (max32 minus < v)
    else
      ∃ f : Float → Number, (∀ d, IsDouble (f d) ⟨d, 0⟩ (q.length - 1)) ∧
        intNumber minus ds = (longInteger v.toUInt64.toFloat (ds.drop q.length)).map f := by
  rcases ds with _ | ⟨b, ds⟩
  · exact absurd rfl hds.digits.ne_nil
  have hi := digit_le (hds.digits.isDecimal b List.mem_cons_self)
  have h64 : 10 * 0 + (b.toNat - '0'.toNat) ≤ max64 minus := by
    rw [Nat.mul_zero, Nat.zero_add]
    exact Nat.le_trans hi (by cases minus <;> decide)
  intro q v
  have hq : q = b :: digitsWhile (fitsIn (max64 minus)) (b.toNat - '0'.toNat) ds := by
    have htake : digitsWhile (fitsIn (max64 minus)) 0 (b :: ds) = _ :=
      digitsWhile_take (decide_eq_true h64) ds
    rwa [Nat.mul_zero, Nat.zero_add] at htake
  have hv : v = decimalValue (b.toNat - '0'.toNat)
      (digitsWhile (fitsIn (max64 minus)) (b.toNat - '0'.toNat) ds) := by
    rw [show v = decimalValue 0 q from rfl, hq, decimalValue_cons, Nat.mul_zero, Nat.zero_add]
  rw [intNumber, hv, hq]
  by_cases hb : b = '0'.toUInt8
  · obtain hzero | hne := hds.leading
    · cases hzero
      rw [if_pos rfl]
      exact ⟨_, rfl, ⟨rfl, rfl, rfl, rfl, rfl⟩, by cases minus <;> rfl⟩
    · exact absurd (congrArg some hb) hne
  · have hspec := intRounds_spec minus hi fun c hc =>
      hds.digits.isDecimal c (List.mem_cons_of_mem _ hc)
    rw [if_neg hb]
    simp only [List.cons_inj_right, List.length_cons, Nat.add_sub_cancel, List.drop_succ_cons]
    exact hspec

/-- **The type of an integer.** An integer gets the first type that holds it, and
becomes a double when none does. -/
theorem intNumber_value (minus : Bool) {ds : Bytes} (hds : IntDigits ds) :
    match integerNumber minus (decimalValue 0 ds) with
    | some k => ∃ n, intNumber minus ds = some n ∧ n.toJsonNumber minus = some k
    | none => digitsWhile (fitsIn (max64 minus)) 0 ds ≠ ds := by
  have hspec := intNumber_spec minus hds
  have hfits := digitsWhile_fitsIn_eq (Nat.zero_le (max64 minus)) ds
  dsimp only at hspec
  rw [integerNumber_eq]
  by_cases h64 : decimalValue 0 ds ≤ max64 minus
  · rw [hfits.mpr h64, if_pos rfl] at hspec
    obtain ⟨n, hn, hinteger, hbit⟩ := hspec
    have hvalue := hinteger.value
    by_cases h32 : decimalValue 0 ds ≤ max32 minus
    · rw [if_pos h32]
      rw [decide_eq_false (Nat.not_lt.mpr h32)] at hbit
      rw [hbit, if_neg Bool.false_ne_true] at hvalue
      refine ⟨n, hn, ?_⟩
      rw [Number.toJsonNumber, hinteger.useDouble, hbit, hvalue]
      rfl
    · rw [if_neg h32, if_pos h64]
      rw [decide_eq_true (Nat.lt_of_not_le h32)] at hbit
      rw [hbit, if_pos rfl] at hvalue
      refine ⟨n, hn, ?_⟩
      rw [Number.toJsonNumber, hinteger.useDouble, hbit, hvalue]
      rfl
  · have h32 : ¬ decimalValue 0 ds ≤ max32 minus := fun hle =>
      h64 (Nat.le_trans hle (by cases minus <;> decide))
    rw [if_neg h32, if_neg h64]
    exact fun heq => h64 (hfits.mp heq)

-- ---------------------------------------------------------------------------
-- Fractions and exponents
-- ---------------------------------------------------------------------------

theorem turnFracDouble_ne_leave (n : Number) (digit : Nat) (n' : Number) :
    turnFracDouble n digit ≠ .leave n' := by
  unfold turnFracDouble
  dsimp only
  split <;> exact fun h => by cases h

theorem turnExpMinus_ne_leave (n : Number) (digit : Nat) (n' : Number) :
    turnExpMinus n digit ≠ .leave n' := by
  unfold turnExpMinus
  split <;> exact fun h => by cases h

theorem turnExp_ne_leave (maxExp : Int) (n : Number) (digit : Nat) (n' : Number) :
    turnExp maxExp n digit ≠ .leave n' := by
  unfold turnExp
  split <;> exact fun h => by cases h

/-- A loop that is never left. -/
theorem digitRounds_all {turn : Number → Nat → Turn}
    (hturn : ∀ n digit n', turn n digit ≠ .leave n') (n : Number) {ds : Bytes}
    (hds : ∀ b ∈ ds, isDecimal b = true) (o : Nat) (p : Bytes) {tail : Bytes}
    (htail : NotDigit tail) :
    digitRounds o turn n p (ds ++ tail) =
      reading o (p ++ ds) tail ((rounds turn n ds).map Prod.fst) := by
  rw [digitRounds_eq turn o hds htail]
  rcases hr : rounds turn n ds with _ | ⟨n', q, t⟩
  · rfl
  obtain ⟨rfl, rfl | ⟨m, digit, hleave⟩⟩ := rounds_some hr
  · simp
  · exact absurd hleave (hturn m digit n')

/-- What `parseFrac` makes of the digits of a fraction. -/
def fracNumber (n : Number) (ds : Bytes) : Option Number :=
  (if n.useDouble then some (n, ds)
    else (rounds turnFrac { n with i64 := if n.use64bit then n.i64 else n.i } ds).map
      fun (n, _, t) => ({ n with d := n.i64.toUInt64.toFloat, useDouble := true }, t)).bind
    fun (n, t) => (rounds turnFracDouble n t).map Prod.fst

theorem peek_digits (o : Nat) (p : Bytes) {ds : Bytes} (hds : Decimals ds) (tail : Bytes) :
    isDecimal (⟨o, p, ds ++ tail⟩ : NumberStream).Peek = true := by
  obtain ⟨b, ds, rfl⟩ := List.exists_cons_of_ne_nil hds.ne_nil
  exact hds.isDecimal b List.mem_cons_self

theorem consume_cons (o : Nat) (p : Bytes) (b : UInt8) (rest : Bytes) :
    (⟨o, p, b :: rest⟩ : NumberStream).Consume b = some ⟨o, p ++ [b], rest⟩ := if_pos rfl

theorem consume_of_ne {o : Nat} {p rest : Bytes} {b : UInt8} (hb : b ≠ 0)
    (h : rest.head? ≠ some b) : (⟨o, p, rest⟩ : NumberStream).Consume b = none := by
  refine if_neg fun hpeek => ?_
  cases rest with
  | nil => exact hb hpeek.symm
  | cons c rest => exact h (congrArg some hpeek)

theorem consume_cons_ne {o : Nat} {p rest : Bytes} {b c : UInt8} (h : c ≠ b) :
    (⟨o, p, c :: rest⟩ : NumberStream).Consume b = none := if_neg h

theorem parseFrac_eq (n : Number) {ds : Bytes} (hds : Decimals ds) (o : Nat) (p : Bytes)
    {tail : Bytes} (htail : NotDigit tail) :
    parseFrac n ⟨o, p, '.'.toUInt8 :: (ds ++ tail)⟩ =
      reading o (p ++ '.'.toUInt8 :: ds) tail (fracNumber n ds) := by
  have happ : ∀ q : Bytes, p ++ ['.'.toUInt8] ++ q = p ++ '.'.toUInt8 :: q := fun q => by
    rw [List.append_assoc, List.singleton_append]
  rw [parseFrac, consume_cons]
  dsimp only
  rw [peek_digits o _ hds, Bool.not_true, if_neg Bool.false_ne_true, fracNumber]
  by_cases hdouble : n.useDouble = true
  · rw [if_pos hdouble, if_pos hdouble, Ending.bind_done, Option.bind_some]
    dsimp only
    rw [whileDigit, digitRounds_all turnFracDouble_ne_leave n hds.isDecimal o _ htail, happ]
  · rw [if_neg hdouble, if_neg hdouble, whileDigit, digitRounds_eq _ o hds.isDecimal htail]
    rcases hr : rounds turnFrac { n with i64 := if n.use64bit then n.i64 else n.i } ds with
      _ | ⟨n₁, q, t⟩
    · rfl
    obtain ⟨rfl, -⟩ := rounds_some hr
    have ht : ∀ b ∈ t, isDecimal b = true := fun b hb =>
      hds.isDecimal b (List.mem_append_right _ hb)
    rw [stopped_some, Ending.bind_done, Option.map_some, Option.bind_some]
    dsimp only [Ending.bind_done]
    rw [whileDigit, digitRounds_all turnFracDouble_ne_leave _ ht o _ htail, List.append_assoc,
      happ]

/-- A number after more digits of a fraction in 53 bits. -/
def Number.afterFrac (n : Number) (q : Bytes) : Number :=
  { n with
    i64 := decimalValue n.i64 q
    expFrac := n.expFrac - q.length
    significandDigit := n.significandDigit + significantDigits n.i64 q }

/-- The first loop of a fraction. -/
theorem roundsFrac (n : Number) {ds : Bytes} (hds : ∀ b ∈ ds, isDecimal b = true) :
    rounds turnFrac n ds =
      some (n.afterFrac (digitsWhile (goesOn 0x1FFFFFFFFFFFFF) n.i64 ds),
        digitsWhile (goesOn 0x1FFFFFFFFFFFFF) n.i64 ds,
        ds.drop (digitsWhile (goesOn 0x1FFFFFFFFFFFFF) n.i64 ds).length) := by
  have hturn : ∀ q b, isDecimal b = true → turnFrac (n.afterFrac q) (b.toNat - '0'.toNat) =
      if goesOn 0x1FFFFFFFFFFFFF (decimalValue n.i64 q) (decimalValue n.i64 (q ++ [b])) then
        .take (n.afterFrac (q ++ [b]))
      else .leave (n.afterFrac q) := by
    intro q b _
    rw [turnFrac, Number.afterFrac, Number.afterFrac, goesOn, significantDigits_concat,
      decimalValue_concat, List.length_append, List.length_singleton, Nat.mul_comm 10]
    dsimp only
    by_cases hle : decimalValue n.i64 q ≤ 0x1FFFFFFFFFFFFF
    · rw [if_neg (Nat.not_lt.mpr hle), if_pos (decide_eq_true hle), Int.natCast_add, Int.sub_sub]
      split
      · rw [Nat.add_assoc]
        rfl
      · rfl
    · rw [if_pos (Nat.lt_of_not_le hle), decide_eq_false hle, if_neg Bool.false_ne_true]
  have h := rounds_digitsWhile n.afterFrac n.afterFrac hturn hds []
  have hnil : n.afterFrac [] = n := by simp [Number.afterFrac, significantDigits, decimalValue]
  rw [List.nil_append, List.nil_append, hnil] at h
  refine h.trans ?_
  congr 2
  split
  case isTrue hall => exact congrArg n.afterFrac hall.symm
  case isFalse => rfl

/-- The second loop of a fraction. -/
theorem roundsFracDouble {n : Number} {s : Significand} {k : Nat} (h : IsDouble n s k)
    (ds : Bytes) :
    ∃ n' k', rounds turnFracDouble n ds = some (n', ds, []) ∧
      IsDouble n' (morePlaces k s ds) k' := by
  induction ds generalizing n s k with
  | nil => exact ⟨n, k, rfl, h⟩
  | cons b ds ih =>
    rw [rounds, turnFracDouble, h.significant, h.value]
    by_cases hk : k < 17
    · have hnext := ih (n := { n with
        d := s.value * 10.0 + Float.ofNat (b.toNat - '0'.toNat)
        expFrac := n.expFrac - 1
        significandDigit :=
          if s.value * 10.0 + Float.ofNat (b.toNat - '0'.toNat) > 0.0 then k + 1 else k })
        (s := ⟨s.value * 10.0 + Float.ofNat (b.toNat - '0'.toNat), s.places + 1⟩)
        ⟨h.useDouble, rfl, rfl, by rw [h.expFrac]; dsimp only; omega, h.exp⟩
      obtain ⟨n', k', hr, hn'⟩ := hnext
      rw [if_pos hk]
      dsimp only
      rw [hr, morePlaces, if_pos hk]
      exact ⟨n', k', rfl, hn'⟩
    · obtain ⟨n', k', hr, hn'⟩ := ih h
      rw [if_neg hk]
      dsimp only
      rw [hr, morePlaces_of_le hk]
      rw [morePlaces_of_le hk] at hn'
      exact ⟨n', k', rfl, hn'⟩

/-- A fraction after an integer. -/
theorem fracNumber_integer {n : Number} {v k : Nat} (h : IsInteger n v k) {ds : Bytes}
    (hds : ∀ b ∈ ds, isDecimal b = true) :
    let joined := digitsWhile (goesOn 0x1FFFFFFFFFFFFF) v ds
    ∃ n' k', fracNumber n ds = some n' ∧ IsDouble n' (morePlaces (k + significantDigits v joined)
      ⟨(decimalValue v joined).toUInt64.toFloat, joined.length⟩ (ds.drop joined.length)) k' := by
  intro joined
  rw [fracNumber, if_neg (Bool.eq_false_iff.mp h.useDouble), h.value,
    roundsFrac { n with i64 := v } hds, Option.map_some, Option.bind_some]
  dsimp only
  have hdouble : IsDouble
      { Number.afterFrac { n with i64 := v } joined with
        d := (decimalValue v joined).toUInt64.toFloat
        useDouble := true }
      ⟨(decimalValue v joined).toUInt64.toFloat, joined.length⟩
      (k + significantDigits v joined) :=
    ⟨rfl, rfl, congrArg (· + significantDigits v joined) h.significant, by
      rw [Number.afterFrac, h.expFrac, Int.zero_sub], h.exp⟩
  obtain ⟨n', k', hr, hn'⟩ := roundsFracDouble hdouble (ds.drop joined.length)
  refine ⟨n', k', ?_, hn'⟩
  rw [show digitsWhile (goesOn 0x1FFFFFFFFFFFFF) v ds = joined from rfl]
  exact congrArg (Option.map Prod.fst) hr

/-- A fraction after an integer that is too large for 64 bits. -/
theorem fracNumber_double {n : Number} {s : Significand} {k : Nat} (h : IsDouble n s k)
    (ds : Bytes) :
    ∃ n' k', fracNumber n ds = some n' ∧ IsDouble n' (morePlaces k s ds) k' := by
  obtain ⟨n', k', hr, hn'⟩ := roundsFracDouble h ds
  refine ⟨n', k', ?_, hn'⟩
  rw [fracNumber, h.useDouble, if_pos rfl, Option.bind_some]
  dsimp only
  rw [hr, Option.map_some]

theorem IsInteger.asDouble {n : Number} {v k : Nat} (h : IsInteger n v k) :
    IsDouble n.asDouble ⟨v.toUInt64.toFloat, 0⟩ k := by
  rw [Number.asDouble, h.useDouble, if_neg Bool.false_ne_true, h.value]
  exact ⟨rfl, rfl, h.significant, h.expFrac, h.exp⟩

theorem IsDouble.asDouble {n : Number} {s : Significand} {k : Nat} (h : IsDouble n s k) :
    n.asDouble = n := by
  rw [Number.asDouble, h.useDouble, if_pos rfl]

/-- What `parseExp` makes of an exponent. -/
def expNumber (n : Number) (e : Exponent) : Option Number :=
  match e.digits with
  | [] => none
  | b :: ds =>
    let n := { n.asDouble with exp := (b.toNat - '0'.toNat : Nat) }
    if e.sign = some '-'.toUInt8 then
      (rounds turnExpMinus n ds).map fun (n, _, _) => { n with exp := -n.exp }
    else (rounds (turnExp (308 - n.expFrac)) n ds).map Prod.fst

/-- The form of an exponent. -/
structure WellFormedExp (e : Exponent) : Prop where
  digits : Decimals e.digits
  letter : e.letter = 'e'.toUInt8 ∨ e.letter = 'E'.toUInt8
  sign : ∀ sign ∈ e.sign, sign = '+'.toUInt8 ∨ sign = '-'.toUInt8

theorem parseSign_eq {e : Exponent} (he : WellFormedExp e) (o : Nat) (p tail : Bytes) :
    parseSign ⟨o, p, e.sign.toList ++ (e.digits ++ tail)⟩ =
      (decide (e.sign = some '-'.toUInt8), ⟨o, p ++ e.sign.toList, e.digits ++ tail⟩) := by
  obtain ⟨letter, sign, digits⟩ := e
  obtain ⟨b, ds, rfl⟩ := List.exists_cons_of_ne_nil he.digits.ne_nil
  have hb := isDecimal_iff.mp (he.digits.isDecimal b List.mem_cons_self)
  have hne : ∀ c : UInt8, c < '0'.toUInt8 → b ≠ c := by
    rintro c hc rfl
    exact absurd hb.1 (UInt8.not_le.mpr hc)
  dsimp only at he ⊢
  rcases sign with _ | sign
  · have hplus : (⟨o, p, b :: ds ++ tail⟩ : NumberStream).Consume '+'.toUInt8 = none :=
      consume_of_ne (by decide) fun h => hne _ (by decide) (Option.some.inj h)
    have hminus : (⟨o, p, b :: ds ++ tail⟩ : NumberStream).Consume '-'.toUInt8 = none :=
      consume_of_ne (by decide) fun h => hne _ (by decide) (Option.some.inj h)
    rw [Option.toList_none, List.nil_append, parseSign, hplus]
    dsimp only
    rw [hminus, List.append_nil]
    rfl
  · rw [Option.toList_some, List.singleton_append]
    obtain rfl | rfl := he.sign sign rfl
    · rw [parseSign, consume_cons]
      rfl
    · rw [parseSign, consume_cons_ne (by decide), consume_cons]
      rfl

theorem parseExp_eq (n : Number) {e : Exponent} (he : WellFormedExp e) (o : Nat) (p : Bytes)
    {tail : Bytes} (htail : NotDigit tail) :
    parseExp n ⟨o, p, e.text ++ tail⟩ = reading o (p ++ e.text) tail (expNumber n e) := by
  obtain ⟨b, ds, hbs⟩ := List.exists_cons_of_ne_nil he.digits.ne_nil
  have hdec : ∀ c ∈ b :: ds, isDecimal c = true := hbs ▸ he.digits.isDecimal
  have hds : ∀ c ∈ ds, isDecimal c = true := fun c hc => hdec c (List.mem_cons_of_mem _ hc)
  have hletter : ((⟨o, p, e.text ++ tail⟩ : NumberStream).Consume 'e'.toUInt8).or
      ((⟨o, p, e.text ++ tail⟩ : NumberStream).Consume 'E'.toUInt8) =
      some ⟨o, p ++ [e.letter], e.sign.toList ++ (e.digits ++ tail)⟩ := by
    rw [Exponent.text, List.cons_append, List.append_assoc]
    obtain h | h := he.letter
    · rw [h, consume_cons]
      rfl
    · rw [h, consume_cons, consume_cons_ne (by decide)]
      rfl
  have happ : p ++ [e.letter] ++ e.sign.toList ++ [b] ++ ds = p ++ e.text := by
    rw [Exponent.text, hbs]
    simp
  rw [parseExp, hletter]
  dsimp only
  rw [parseSign_eq he, expNumber, hbs]
  dsimp only
  have hpeek : (⟨o, p ++ [e.letter] ++ e.sign.toList, b :: ds ++ tail⟩ :
      NumberStream).Peek = b := rfl
  have htake : (⟨o, p ++ [e.letter] ++ e.sign.toList, b :: ds ++ tail⟩ :
      NumberStream).Take = ⟨o, p ++ [e.letter] ++ e.sign.toList ++ [b], ds ++ tail⟩ := rfl
  rw [hpeek, htake, if_pos (hdec b List.mem_cons_self)]
  generalize ({ n.asDouble with exp := (b.toNat - '0'.toNat : Nat) } : Number) = m
  by_cases hminus : e.sign = some '-'.toUInt8
  · rw [if_pos (decide_eq_true hminus), if_pos hminus, whileDigit]
    rw [digitRounds_all turnExpMinus_ne_leave m hds o _ htail, happ]
    obtain _ | ⟨n', q, t⟩ := rounds turnExpMinus m ds <;> rfl
  · rw [if_neg (by rw [decide_eq_false hminus]; exact Bool.false_ne_true), if_neg hminus,
      whileDigit]
    rw [digitRounds_all (turnExp_ne_leave _) m hds o _ htail, happ]

/-- The loop for a negative exponent. -/
theorem roundsExpMinus (n : Number) (v : Nat) (ds : Bytes) :
    rounds turnExpMinus { n with exp := (v : Int) } ds =
      some ({ n with exp := (decimalValue v (digitsWhile (goesOn 214748363) v ds) : Nat) }, ds,
        []) := by
  induction ds generalizing v with
  | nil => rfl
  | cons b ds ih =>
    rw [rounds, turnExpMinus]
    dsimp only
    by_cases hle : v ≤ 214748363
    · rw [if_neg (by omega), digitsWhile_take (decide_eq_true hle), decimalValue_cons]
      dsimp only
      rw [show (v : Int) * 10 + (b.toNat - '0'.toNat : Nat) =
        ((10 * v + (b.toNat - '0'.toNat) : Nat) : Int) by omega, ih, Option.map_some]
    · have hstop : ∀ ds : Bytes, digitsWhile (goesOn 214748363) v ds = [] := by
        intro ds
        cases ds with
        | nil => rfl
        | cons b ds => exact digitsWhile_stop (decide_eq_false hle) ds
      have := ih v
      rw [hstop] at this
      rw [if_pos (by omega), hstop]
      dsimp only
      rw [this, Option.map_some]

/-- The loop for another exponent. -/
theorem roundsExp (maxExp : Int) (n : Number) {v : Nat} (hv : (v : Int) ≤ maxExp) (ds : Bytes) :
    rounds (turnExp maxExp) { n with exp := (v : Int) } ds =
      if (decimalValue v ds : Int) ≤ maxExp then
        some ({ n with exp := (decimalValue v ds : Nat) }, ds, [])
      else none := by
  induction ds generalizing v with
  | nil => exact (if_pos hv).symm
  | cons b ds ih =>
    have hcast : (v : Int) * 10 + (b.toNat - '0'.toNat : Nat) =
        ((10 * v + (b.toNat - '0'.toNat) : Nat) : Int) := by omega
    rw [rounds, turnExp, decimalValue_cons]
    dsimp only
    rw [hcast]
    by_cases hle : ((10 * v + (b.toNat - '0'.toNat) : Nat) : Int) ≤ maxExp
    · rw [if_neg (Int.not_lt.mpr hle)]
      dsimp only
      rw [ih hle]
      split
      · rfl
      · rfl
    · have := le_decimalValue (10 * v + (b.toNat - '0'.toNat)) ds
      rw [if_pos (Int.lt_of_not_ge hle), if_neg (by omega)]

/-- The number is a double with a significand of the value `d`, scaled by a power of ten. -/
structure IsScaled (n : Number) (d : Float) (p : Int) : Prop where
  useDouble : n.useDouble = true
  value : n.d = d
  exponent : n.exp + n.expFrac = p

theorem IsDouble.isScaled {n : Number} {s : Significand} {k : Nat} (h : IsDouble n s k) :
    IsScaled n s.value (-(s.places : Int)) :=
  ⟨h.useDouble, h.value, by rw [h.exp, h.expFrac, Int.zero_add]⟩

/-- An exponent. -/
theorem expNumber_spec {n : Number} {s : Significand} {k : Nat} (h : IsDouble n.asDouble s k)
    {l : Literal} {e : Exponent} (he : l.exponent = some e) (hdigits : Decimals e.digits) :
    if exponentValue l - s.places ≤ 308 then
      ∃ n', expNumber n e = some n' ∧ IsScaled n' s.value (exponentValue l - s.places)
    else expNumber n e = none := by
  obtain ⟨b, ds, hbs⟩ := List.exists_cons_of_ne_nil hdigits.ne_nil
  have hb := digit_le (hdigits.isDecimal b (hbs ▸ List.mem_cons_self))
  have hzero : 10 * 0 + (b.toNat - '0'.toNat) = b.toNat - '0'.toNat := by omega
  have hvalue : exponentValue l = if e.sign = some '-'.toUInt8 then
      -((decimalValue 0 (digitsWhile (goesOn 214748363) 0 (b :: ds)) : Nat) : Int)
      else (decimalValue 0 (b :: ds) : Nat) := by
    rw [exponentValue, he, ← hbs]
  rw [expNumber, hbs]
  dsimp only
  by_cases hminus : e.sign = some '-'.toUInt8
  · have htake : digitsWhile (goesOn 214748363) 0 (b :: ds) = _ :=
      digitsWhile_take (decide_eq_true (Nat.zero_le _)) ds
    rw [if_pos hminus, htake, decimalValue_cons, hzero] at hvalue
    rw [hvalue, if_pos hminus, roundsExpMinus, Option.map_some, if_pos (by omega)]
    refine ⟨_, rfl, h.useDouble, h.value, ?_⟩
    dsimp only
    rw [h.expFrac]
    rfl
  · rw [if_neg hminus, decimalValue_cons, hzero] at hvalue
    have hr := roundsExp (308 - n.asDouble.expFrac) n.asDouble (v := b.toNat - '0'.toNat)
      (by rw [h.expFrac]; omega) ds
    rw [hvalue, if_neg hminus, hr, h.expFrac]
    by_cases hle : ((decimalValue (b.toNat - '0'.toNat) ds : Nat) : Int) - s.places ≤ 308
    · rw [if_pos hle, if_pos (by omega)]
      exact ⟨_, rfl, h.useDouble, h.value, rfl⟩
    · rw [if_neg hle, if_neg (by omega), Option.map_none]

end GenericReader

end RapidJson
