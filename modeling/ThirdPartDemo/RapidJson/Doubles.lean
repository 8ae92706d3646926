import ThirdPartDemo.Library.JsonText

/-!
# RapidJSON — the doubles of literals

Which double a number literal stands for, from its digits and without a reader. The digits
make a significand: an integer as long as one of 64 bits holds it, and after that a double
that takes the other digits one by one. The exponent of the literal, less the digits of
the fraction that are in the significand, is the power of ten that scales it.

There is no double if the power of ten is more than 308, or an integer has more digits
than the doubles have room for, and none if the difference is less than an `int` holds.

* `doubleOf` — the double of a literal;
* `doubleOf_short` — which it is for the literals of up to 53 bits;
* `Overflows` — the literals of which the power of ten is no `int`;
* `Short.not_overflows` — a short literal is none of those.
-/

namespace RapidJson

open Library

-- ---------------------------------------------------------------------------
-- Digits
-- ---------------------------------------------------------------------------

/-- The digits before the first that `fits` does not let through, by the value of the
digits before it and by the value with it. The digits come after others, of the value `n`. -/
def digitsWhile (fits : Nat → Nat → Bool) : Nat → Bytes → Bytes
  | _, [] => []
  | n, b :: ds =>
    let m := 10 * n + (b.toNat - '0'.toNat)
    if fits n m then b :: digitsWhile fits m ds else []

/-- The largest magnitude of 32 bits, and of 64 bits. -/
def max32 (minus : Bool) : Nat := if minus then 2147483648 else 4294967295
def max64 (minus : Bool) : Nat := if minus then 9223372036854775808 else 18446744073709551615

/-- Digits are taken as long as their value is at most `max`. -/
def fitsIn (max _ m : Nat) : Bool := m ≤ max

/-- Digits are taken through the first with which their value is more than `max`. -/
def goesOn (max n _ : Nat) : Bool := n ≤ max

/-- How many of the digits, which come after others of the value `n`, are no leading
zeros. -/
def significantDigits : Nat → Bytes → Nat
  | _, [] => 0
  | n, b :: ds =>
    let m := 10 * n + (b.toNat - '0'.toNat)
    (if m ≠ 0 then 1 else 0) + significantDigits m ds

@[simp] theorem decimalValue_cons (n : Nat) (b : UInt8) (ds : Bytes) :
    decimalValue n (b :: ds) = decimalValue (10 * n + (b.toNat - '0'.toNat)) ds := by
  rw [decimalValue, List.foldl_cons, decimalValue]

theorem decimalValue_append (n : Nat) (ds ds' : Bytes) :
    decimalValue n (ds ++ ds') = decimalValue (decimalValue n ds) ds' := List.foldl_append

theorem decimalValue_concat (n : Nat) (ds : Bytes) (b : UInt8) :
    decimalValue n (ds ++ [b]) = 10 * decimalValue n ds + (b.toNat - '0'.toNat) :=
  decimalValue_append n ds [b]

theorem significantDigits_concat (n : Nat) (ds : Bytes) (b : UInt8) :
    significantDigits n (ds ++ [b]) =
      significantDigits n ds + if decimalValue n (ds ++ [b]) ≠ 0 then 1 else 0 := by
  induction ds generalizing n with
  | nil =>
    rw [List.nil_append, significantDigits, Nat.add_comm]
    rfl
  | cons c ds ih =>
    rw [List.cons_append, significantDigits, significantDigits, ih, Nat.add_assoc,
      decimalValue_cons]

theorem le_decimalValue (n : Nat) (ds : Bytes) : n ≤ decimalValue n ds := by
  induction ds generalizing n with
  | nil => exact Nat.le_refl n
  | cons b ds ih =>
    rw [decimalValue_cons]
    have := ih (10 * n + (b.toNat - '0'.toNat))
    omega

theorem prefix_digitsWhile (fits : Nat → Nat → Bool) (n : Nat) (ds : Bytes) :
    digitsWhile fits n ds <+: ds := by
  induction ds generalizing n with
  | nil => exact List.prefix_refl _
  | cons b ds ih =>
    rw [digitsWhile]
    split
    · exact List.cons_prefix_cons.mpr ⟨rfl, ih _⟩
    · exact List.nil_prefix

theorem digitsWhile_take {fits : Nat → Nat → Bool} {n : Nat} {b : UInt8}
    (h : fits n (10 * n + (b.toNat - '0'.toNat)) = true) (ds : Bytes) :
    digitsWhile fits n (b :: ds) = b :: digitsWhile fits (10 * n + (b.toNat - '0'.toNat)) ds :=
  if_pos h

theorem digitsWhile_stop {fits : Nat → Nat → Bool} {n : Nat} {b : UInt8}
    (h : fits n (10 * n + (b.toNat - '0'.toNat)) = false) (ds : Bytes) :
    digitsWhile fits n (b :: ds) = [] := if_neg (Bool.eq_false_iff.mp h)

/-- All digits are taken exactly if their value is at most `max`. -/
theorem digitsWhile_fitsIn_eq {max n : Nat} (hn : n ≤ max) (ds : Bytes) :
    digitsWhile (fitsIn max) n ds = ds ↔ decimalValue n ds ≤ max := by
  induction ds generalizing n with
  | nil => exact iff_of_true rfl hn
  | cons b ds ih =>
    rw [decimalValue_cons]
    by_cases hfits : 10 * n + (b.toNat - '0'.toNat) ≤ max
    · rw [digitsWhile_take (decide_eq_true hfits), List.cons_inj_right, ih hfits]
    · rw [digitsWhile_stop (decide_eq_false hfits)]
      refine iff_of_false (List.cons_ne_nil b ds).symm fun hle => hfits ?_
      exact Nat.le_trans (le_decimalValue _ ds) hle

/-- All digits are taken if their value is at most `max`. -/
theorem digitsWhile_goesOn_eq {max n : Nat} {ds : Bytes} (h : decimalValue n ds ≤ max) :
    digitsWhile (goesOn max) n ds = ds := by
  induction ds generalizing n with
  | nil => rfl
  | cons b ds ih =>
    have hn := Nat.le_trans (le_decimalValue n (b :: ds)) h
    rw [decimalValue_cons] at h
    rw [digitsWhile_take (decide_eq_true hn), ih h]

/-- A larger bound takes the digits of a smaller one first. -/
theorem digitsWhile_fitsIn {max max' : Nat} (hmax : max ≤ max') (n : Nat) (ds : Bytes) :
    digitsWhile (fitsIn max') n ds =
      digitsWhile (fitsIn max) n ds ++
        digitsWhile (fitsIn max') (decimalValue n (digitsWhile (fitsIn max) n ds))
          (ds.drop (digitsWhile (fitsIn max) n ds).length) := by
  induction ds generalizing n with
  | nil => rfl
  | cons b ds ih =>
    by_cases hfits : 10 * n + (b.toNat - '0'.toNat) ≤ max
    · have hfits' := Nat.le_trans hfits hmax
      have htake : digitsWhile (fitsIn max) n (b :: ds) = _ :=
        digitsWhile_take (decide_eq_true hfits) ds
      rw [htake, decimalValue_cons, List.length_cons, List.drop_succ_cons, List.cons_append, ← ih]
      exact digitsWhile_take (decide_eq_true hfits') ds
    · have hstop : digitsWhile (fitsIn max) n (b :: ds) = _ :=
        digitsWhile_stop (decide_eq_false hfits) ds
      rw [hstop]
      rfl

-- ---------------------------------------------------------------------------
-- The significand
-- ---------------------------------------------------------------------------

/-- A significand, with the number of digits of the fraction that are in it. -/
structure Significand where
  value : Float
  places : Nat

/-- The double of an integer with the value `d` and the other digits, if it is large
enough. -/
def longInteger : Float → Bytes → Option Float
  | d, [] => some d
  | d, b :: ds =>
    if d ≥ 1.7976931348623157e307 then none    -- DBL_MAX / 10.0
    else longInteger (d * 10 + Float.ofNat (b.toNat - '0'.toNat)) ds

/-- A significand and more digits of the fraction, of which the seventeenth significant
digit is the last that counts. -/
def morePlaces : Nat → Significand → Bytes → Significand
  | _, s, [] => s
  | significant, s, b :: ds =>
    if significant < 17 then
      let d := s.value * 10.0 + Float.ofNat (b.toNat - '0'.toNat)
      morePlaces (if d > 0.0 then significant + 1 else significant) ⟨d, s.places + 1⟩ ds
    else s

/-- The significand of a literal, unless its integer has too many digits. -/
def significand (l : Literal) : Option Significand :=
  let integer := digitsWhile (fitsIn (max64 l.negative)) 0 l.digits
  let n := decimalValue 0 integer
  let fraction := l.fraction.getD []
  if integer = l.digits then
    -- the fraction goes on with the integer up to 53 bits
    let joined := digitsWhile (goesOn 0x1FFFFFFFFFFFFF) n fraction
    some (morePlaces (integer.length - 1 + significantDigits n joined)
      ⟨(decimalValue n joined).toUInt64.toFloat, joined.length⟩ (fraction.drop joined.length))
  else
    (longInteger n.toUInt64.toFloat (l.digits.drop integer.length)).map fun d =>
      morePlaces (integer.length - 1) ⟨d, 0⟩ fraction

/-- The significand of a literal of which the digits, with those of the fraction, are an
integer of up to 53 bits. -/
theorem significand_short {l : Literal}
    (h : decimalValue 0 (l.digits ++ l.fraction.getD []) ≤ 0x1FFFFFFFFFFFFF) :
    significand l =
      some ⟨(decimalValue 0 (l.digits ++ l.fraction.getD [])).toUInt64.toFloat,
        (l.fraction.getD []).length⟩ := by
  rw [decimalValue_append] at h ⊢
  have hmax : 0x1FFFFFFFFFFFFF ≤ max64 l.negative := by
    cases l.negative <;> decide
  have hinteger : digitsWhile (fitsIn (max64 l.negative)) 0 l.digits = l.digits :=
    (digitsWhile_fitsIn_eq (Nat.zero_le _) _).mpr
      (Nat.le_trans (le_decimalValue _ _) (Nat.le_trans h hmax))
  have hfraction := digitsWhile_goesOn_eq h
  unfold significand
  dsimp only
  rw [hinteger, if_pos rfl, hfraction, List.drop_length]
  rfl

theorem morePlaces_le (significant : Nat) (s : Significand) (ds : Bytes) :
    (morePlaces significant s ds).places ≤ s.places + ds.length := by
  induction ds generalizing significant s with
  | nil => exact Nat.le_refl _
  | cons b ds ih =>
    rw [morePlaces, List.length_cons]
    split
    · exact Nat.le_trans (ih _ _) (by dsimp only; omega)
    · exact Nat.le_add_right _ _

/-- No more places count than there are. -/
theorem significand_places_le {l : Literal} {s : Significand} (h : significand l = some s) :
    s.places ≤ (l.fraction.getD []).length := by
  unfold significand at h
  dsimp only at h
  split at h
  · cases h
    refine Nat.le_trans (morePlaces_le _ _ _) ?_
    have := (prefix_digitsWhile (goesOn 0x1FFFFFFFFFFFFF)
      (decimalValue 0 (digitsWhile (fitsIn (max64 l.negative)) 0 l.digits))
      (l.fraction.getD [])).length_le
    rw [List.length_drop]
    dsimp only
    omega
  · obtain ⟨d, -, rfl⟩ := Option.map_eq_some_iff.mp h
    exact Nat.le_trans (morePlaces_le _ _ _) (Nat.le_of_eq (Nat.zero_add _))

/-- After seventeen significant digits no more count. -/
theorem morePlaces_of_le {significant : Nat} (h : ¬ significant < 17) (s : Significand)
    (ds : Bytes) : morePlaces significant s ds = s := by
  cases ds with
  | nil => rfl
  | cons b ds => exact if_neg h

-- ---------------------------------------------------------------------------
-- The double
-- ---------------------------------------------------------------------------

/-- The exponent of a literal. Of a negative one the first digits count, up to the one
that makes them `2^31 / 10` or more. -/
def exponentValue (l : Literal) : Int :=
  match l.exponent with
  | none => 0
  | some e =>
    if e.sign = some '-'.toUInt8 then
      -(decimalValue 0 (digitsWhile (goesOn 214748363) 0 e.digits) : Nat)
    else (decimalValue 0 e.digits : Nat)

/-- A power of ten. -/
def tenTo (n : Nat) : Float := Float.ofScientific 1 false n

/-- A double times a power of ten, in two steps if the power itself is no double. -/
def scaled (d : Float) (p : Int) : Float :=
  if 0 ≤ p then d * tenTo p.toNat
  else if -308 ≤ p then d / tenTo (-p).toNat
  else if -616 ≤ p then d / tenTo 308 / tenTo (-p - 308).toNat
  else 0.0

/-- The double that a literal stands for. -/
def doubleOf (l : Literal) : Option UInt64 :=
  (significand l).bind fun s =>
    let p := exponentValue l - s.places
    if -0x80000000 ≤ p ∧ p ≤ 308 then
      some (if l.negative then -scaled s.value p else scaled s.value p).toBits
    else none

/-- **A short literal** stands for its digits as an integer, times or divided by a power of
ten: no rounding comes before that one operation. -/
theorem doubleOf_short {l : Literal}
    (h : decimalValue 0 (l.digits ++ l.fraction.getD []) ≤ 0x1FFFFFFFFFFFFF)
    (hlow : -308 ≤ exponentValue l - (l.fraction.getD []).length)
    (hhigh : exponentValue l - (l.fraction.getD []).length ≤ 308) :
    let d := (decimalValue 0 (l.digits ++ l.fraction.getD [])).toUInt64.toFloat
    let p := exponentValue l - (l.fraction.getD []).length
    let x := if 0 ≤ p then d * tenTo p.toNat else d / tenTo (-p).toNat
    doubleOf l = some (if l.negative then -x else x).toBits := by
  intro d p x
  have hscaled : scaled d p = x := by
    rw [scaled, if_pos hlow]
  rw [doubleOf, significand_short h, Option.bind_some]
  dsimp only
  rw [if_pos ⟨by omega, hhigh⟩, show scaled _ _ = x from hscaled]

/-- The power of ten that scales the significand is less than an `int` holds. -/
def Overflows (l : Literal) : Prop :=
  ∃ s ∈ significand l, exponentValue l - s.places < -0x80000000

theorem le_exponentValue {l : Literal} {n : Nat}
    (h : ∀ e ∈ l.exponent, decimalValue 0 e.digits ≤ n) : -(n : Int) ≤ exponentValue l := by
  unfold exponentValue
  cases he : l.exponent with
  | none =>
    dsimp only
    omega
  | some e =>
    dsimp only
    split
    · have hle := h e he
      obtain ⟨ds, hds⟩ := prefix_digitsWhile (goesOn 214748363) 0 e.digits
      rw [← hds, decimalValue_append] at hle
      have := le_decimalValue (decimalValue 0 (digitsWhile (goesOn 214748363) 0 e.digits)) ds
      omega
    · omega

/-- A literal with at most a thousand digits of a fraction and an exponent of at most a
thousand. -/
structure Short (l : Literal) : Prop where
  places : (l.fraction.getD []).length ≤ 1000
  power : ∀ e ∈ l.exponent, decimalValue 0 e.digits ≤ 1000

theorem Short.not_overflows {l : Literal} (h : Short l) : ¬ Overflows l := by
  rintro ⟨s, hs, hlt⟩
  have hplaces := significand_places_le hs
  have hfraction := h.places
  have hexponent := le_exponentValue h.power
  omega

end RapidJson
