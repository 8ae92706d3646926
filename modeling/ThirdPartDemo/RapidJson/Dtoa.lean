import Mathlib.Data.Bool.AllAny
import ThirdPartDemo.RapidJson.Doubles
import ThirdPartDemo.RapidJson.Itoa

/-!
# RapidJSON — doubles as text

`dtoa` of `rapidjson/internal/dtoa.h`: `Grisu2` finds the digits of a double and their
exponent, and `Prettify` makes a number literal of them, with a point, with zeros or with
an exponent. `Grisu2` is a parameter here.

* `Prettify_literal` — every way leads to a well-formed literal with a fraction or an
  exponent, also where decimal places are cut off;
* `dtoa_literal` — so a double is never written as an integer, as long as a decimal place
  may be written.

Where an assertion of the source fails there is no result (`none`).
-/

namespace RapidJson

open Library

-- ---------------------------------------------------------------------------
-- `internal::Double`
-- ---------------------------------------------------------------------------

namespace Double

def Sign (u_ : BitVec 64) : Bool := u_ &&& 0x8000000000000000#64 != 0

def IsZero (u_ : BitVec 64) : Bool := u_ &&& 0x7FFFFFFFFFFFFFFF#64 == 0

def IsNanOrInf (u_ : BitVec 64) : Bool :=
  u_ &&& 0x7FF0000000000000#64 == 0x7FF0000000000000#64

/-- `-value`, for a negative one. -/
def abs (u_ : BitVec 64) : BitVec 64 := u_ &&& 0x7FFFFFFFFFFFFFFF#64

end Double

-- ---------------------------------------------------------------------------
-- `dtoa`
-- ---------------------------------------------------------------------------

/-- `WriteExponent` -/
def WriteExponent (K : Int) : Bytes :=
  let sign := if K < 0 then ['-'.toUInt8] else []
  let K := K.natAbs
  sign ++
    (if K ≥ 100 then ('0'.toUInt8 + (K / 100).toUInt8) :: pair (K % 100)
    else if K ≥ 10 then pair K
    else ['0'.toUInt8 + K.toUInt8])

/-- The loops that cut off trailing zeros: from the index `i` down, the text through the
first character that is no zero, and at least through the index `least`. -/
def cutZeros (buffer : Bytes) (least : Nat) : Nat → Bytes
  | 0 => buffer.take (least + 1)
  | i + 1 =>
    if i + 1 > least then
      if buffer.getD (i + 1) 0 ≠ '0'.toUInt8 then buffer.take (i + 2)
      else cutZeros buffer least i
    else buffer.take (least + 1)

/-- `Prettify` -/
def Prettify (buffer : Bytes) (k : Int) (maxDecimalPlaces : Int) : Bytes :=
  let length : Int := buffer.length
  let kk := length + k    -- 10^(kk-1) <= v < 10^kk
  if 0 ≤ k ∧ kk ≤ 21 then
    -- 1234e7 -> 12340000000
    buffer ++ (List.replicate k.toNat '0'.toUInt8 ++ ['.'.toUInt8, '0'.toUInt8])
  else if 0 < kk ∧ kk ≤ 21 then
    -- 1234e-2 -> 12.34
    let buffer := buffer.take kk.toNat ++ '.'.toUInt8 :: buffer.drop kk.toNat
    if 0 > k + maxDecimalPlaces then
      cutZeros buffer (kk.toNat + 1) (kk + maxDecimalPlaces).toNat
    else buffer
  else if -6 < kk ∧ kk ≤ 0 then
    -- 1234e-6 -> 0.001234
    let buffer :=
      '0'.toUInt8 :: '.'.toUInt8 :: (List.replicate (-kk).toNat '0'.toUInt8 ++ buffer)
    if length - kk > maxDecimalPlaces then cutZeros buffer 2 (maxDecimalPlaces + 1).toNat
    else buffer
  else if kk < -maxDecimalPlaces then ['0'.toUInt8, '.'.toUInt8, '0'.toUInt8]
  else if length = 1 then
    -- 1e30
    buffer ++ 'e'.toUInt8 :: WriteExponent (kk - 1)
  else
    -- 1234e30 -> 1.234e33
    buffer.take 1 ++ '.'.toUInt8 :: (buffer.drop 1 ++ 'e'.toUInt8 :: WriteExponent (kk - 1))

/-- `dtoa`, over the digits and the exponent that `Grisu2` finds for a positive double. It
asserts that a decimal place may be written. -/
def dtoa (Grisu2 : BitVec 64 → Bytes × Int) (value : BitVec 64) (maxDecimalPlaces : Int) :
    Option Bytes :=
  if maxDecimalPlaces ≥ 1 then
    some ((if Double.Sign value then ['-'.toUInt8] else []) ++
      (if Double.IsZero value then ['0'.toUInt8, '.'.toUInt8, '0'.toUInt8]
      else
        Prettify (Grisu2 (Double.abs value)).1 (Grisu2 (Double.abs value)).2 maxDecimalPlaces))
  else none

/-- What `Prettify` asks of the digits and the exponent: at most seventeen digits, without
a leading zero, and an exponent of three digits at most. -/
structure Digits (digits : Bytes) (K : Int) : Prop where
  decimals : Decimals digits
  leading : digits.head? ≠ some '0'.toUInt8
  length_le : digits.length ≤ 17
  exponent : (digits.length + K - 1).natAbs < 1000

/-- What `Grisu2` does for the positive finite doubles. -/
def FindsDigits (Grisu2 : BitVec 64 → Bytes × Int) : Prop :=
  ∀ bits : BitVec 64, 0 < bits.toNat → bits.toNat < 0x7FF0000000000000 →
    Digits (Grisu2 bits).1 (Grisu2 bits).2

/-- The digits of 1.0. -/
def digitsOfOne : BitVec 64 → Bytes × Int := fun _ => (['1'.toUInt8], 0)

theorem findsDigits_one : FindsDigits digitsOfOne := fun _ _ _ =>
  { decimals := ⟨List.cons_ne_nil _ _, List.all_iff_forall_prop.mp rfl⟩
    leading := show ['1'.toUInt8].head? ≠ some '0'.toUInt8 by decide
    length_le := show (1 : Nat) ≤ 17 by decide
    exponent := show ((1 : Int) + 0 - 1).natAbs < 1000 by decide }

-- ---------------------------------------------------------------------------
-- Literals
-- ---------------------------------------------------------------------------

theorem writeExponent_eq {K : Int} (h : K.natAbs < 1000) :
    WriteExponent K = (if K < 0 then ['-'.toUInt8] else []) ++ decimal K.natAbs := by
  unfold WriteExponent
  dsimp only
  congr 1
  generalize K.natAbs = n at h
  split
  case isTrue h100 =>
    rw [show n = n / 100 * 100 + n % 100 by omega, decimal_pair (by omega) (by omega),
      decimal_of_lt (by omega), show (n / 100 * 100 + n % 100) / 100 = n / 100 by omega,
      show (n / 100 * 100 + n % 100) % 100 = n % 100 by omega]
    rfl
  split
  case isTrue h100 h10 => exact pair_eq h10 (by omega)
  case isFalse h100 h10 => exact (decimal_of_lt (by omega)).symm

theorem cutZeros_eq (buffer : Bytes) (least i : Nat) :
    ∃ n, least ≤ n ∧ cutZeros buffer least i = buffer.take (n + 1) := by
  induction i with
  | zero => exact ⟨least, Nat.le_refl _, rfl⟩
  | succ i ih =>
    rw [cutZeros]
    split
    case isTrue h =>
      split
      · exact ⟨i + 1, Nat.le_of_lt h, rfl⟩
      · exact ih
    case isFalse => exact ⟨least, Nat.le_refl _, rfl⟩

theorem decimals_append {digits digits' : Bytes} (h : Decimals digits)
    (h' : ∀ b ∈ digits', isDecimal b = true) : Decimals (digits ++ digits') where
  ne_nil := List.append_ne_nil_of_left_ne_nil h.ne_nil _
  isDecimal b hb := (List.mem_append.mp hb).elim (h.isDecimal b) (h' b)

/-- The literal without a sign that `text` is, with a fraction or an exponent. -/
structure IsLiteral (text : Bytes) (l : Literal) : Prop where
  text : text = l.text
  wellFormed : l.WellFormed
  negative : l.negative = false
  integral : l.integral = false
  short : Short l

/-- A literal with a point. -/
theorem isLiteral_fraction {digits fraction : Bytes} (hdigits : Decimals digits)
    (hleading : digits = ['0'.toUInt8] ∨ digits.head? ≠ some '0'.toUInt8)
    (hfraction : Decimals fraction) (hlength : fraction.length ≤ 1000) :
    IsLiteral (digits ++ '.'.toUInt8 :: fraction) ⟨false, digits, some fraction, none⟩ where
  text := by
    show _ = [] ++ (digits ++ ('.'.toUInt8 :: fraction ++ []))
    rw [List.append_nil, List.nil_append]
  wellFormed :=
    { digits := hdigits
      leading := hleading
      fraction := fun _ h => Option.some.inj h ▸ hfraction
      exponent := fun _ h => nomatch h }
  negative := rfl
  integral := rfl
  short := ⟨hlength, fun _ h => nomatch h⟩

/-- A literal with a point of which the end may have been cut off. -/
theorem isLiteral_cutZeros {digits fraction : Bytes} (hdigits : Decimals digits)
    (hleading : digits = ['0'.toUInt8] ∨ digits.head? ≠ some '0'.toUInt8)
    (hfraction : Decimals fraction) (hlength : fraction.length ≤ 1000) (i : Nat) :
    ∃ l, IsLiteral (cutZeros (digits ++ '.'.toUInt8 :: fraction) (digits.length + 1) i) l := by
  obtain ⟨n, hn, heq⟩ := cutZeros_eq (digits ++ '.'.toUInt8 :: fraction) (digits.length + 1) i
  have htake : (digits ++ '.'.toUInt8 :: fraction).take (n + 1) =
      digits ++ '.'.toUInt8 :: fraction.take (n - digits.length) := by
    rw [List.take_append, List.take_of_length_le (by omega),
      show n + 1 - digits.length = n - digits.length + 1 by omega, List.take_succ_cons]
  rw [heq, htake]
  refine ⟨_, isLiteral_fraction hdigits hleading ⟨?_, fun b hb => ?_⟩ ?_⟩
  · intro hnil
    rw [List.take_eq_nil_iff] at hnil
    exact hnil.elim (by omega) hfraction.ne_nil
  · exact hfraction.isDecimal b (List.mem_of_mem_take hb)
  · exact Nat.le_trans (List.length_take_le' _ _) hlength

/-- The exponent that is written. -/
def exponentOf (K : Int) : Exponent :=
  { letter := 'e'.toUInt8
    sign := if K < 0 then some '-'.toUInt8 else none
    digits := decimal K.natAbs }

theorem exponentOf_text {K : Int} (h : K.natAbs < 1000) :
    (exponentOf K).text = 'e'.toUInt8 :: WriteExponent K := by
  rw [writeExponent_eq h, exponentOf, Exponent.text]
  dsimp only
  split
  · rfl
  · rfl

/-- A literal with an exponent. -/
theorem isLiteral_exponent {digits : Bytes} (hdigits : Decimals digits)
    (hleading : digits.head? ≠ some '0'.toUInt8) {fraction : Option Bytes}
    (hfraction : ∀ digits ∈ fraction, Decimals digits)
    (hlength : (fraction.getD []).length ≤ 1000) {K : Int} (hK : K.natAbs < 1000) :
    IsLiteral
      (digits ++ (Literal.fractionText ⟨false, digits, fraction, some (exponentOf K)⟩ ++
        'e'.toUInt8 :: WriteExponent K))
      ⟨false, digits, fraction, some (exponentOf K)⟩ where
  text := by
    rw [← exponentOf_text hK]
    rfl
  wellFormed :=
    { digits := hdigits
      leading := .inr hleading
      fraction := hfraction
      exponent := by
        intro e he
        cases he
        refine ⟨decimals_decimal _, .inl rfl, fun sign hsign => .inr ?_⟩
        unfold exponentOf at hsign
        dsimp only at hsign
        split at hsign
        · exact (Option.some.inj hsign).symm
        · cases hsign }
  negative := rfl
  integral := by
    rw [Literal.integral, Option.isNone_some, Bool.and_false]
  short := by
    refine ⟨hlength, fun e he => ?_⟩
    cases he
    rw [exponentOf, decimalValue_decimal]
    exact Nat.le_of_lt hK

theorem decimals_replicate (n : Nat) : ∀ b ∈ List.replicate n '0'.toUInt8, isDecimal b = true := by
  intro b hb
  rw [List.eq_of_mem_replicate hb]
  rfl

/-- **`Prettify`** writes a well-formed literal with a fraction or an exponent. -/
theorem Prettify_literal {digits : Bytes} {K : Int} (h : Digits digits K)
    (maxDecimalPlaces : Int) :
    ∃ l, IsLiteral (Prettify digits K maxDecimalPlaces) l := by
  have hpos := List.length_pos_of_ne_nil h.decimals.ne_nil
  have hlength := h.length_le
  have hzero : Decimals ['0'.toUInt8] := ⟨List.cons_ne_nil _ _, decimals_replicate 1⟩
  have hone : ['0'.toUInt8].length ≤ 1000 := by decide
  unfold Prettify
  dsimp only
  split
  case isTrue hint =>
    have hlead : (digits ++ List.replicate K.toNat '0'.toUInt8).head? ≠ some '0'.toUInt8 := by
      rw [List.head?_append_of_ne_nil _ h.decimals.ne_nil]
      exact h.leading
    rw [← List.append_assoc]
    exact ⟨_, isLiteral_fraction (decimals_append h.decimals (decimals_replicate _))
      (.inr hlead) hzero hone⟩
  split
  case isTrue hint hpoint =>
    obtain ⟨n, hn⟩ := Int.eq_ofNat_of_zero_le (Int.le_of_lt hpoint.1)
    rw [hn, Int.toNat_natCast]
    have hlt : n < digits.length := by omega
    have htake : Decimals (digits.take n) := by
      refine ⟨fun hnil => ?_, fun b hb => h.decimals.isDecimal b (List.mem_of_mem_take hb)⟩
      rw [List.take_eq_nil_iff] at hnil
      exact hnil.elim (by omega) h.decimals.ne_nil
    have hdrop : Decimals (digits.drop n) := by
      refine ⟨fun hnil => ?_, fun b hb => h.decimals.isDecimal b (List.mem_of_mem_drop hb)⟩
      rw [List.drop_eq_nil_iff] at hnil
      omega
    have hdropLength : (digits.drop n).length ≤ 1000 := by
      rw [List.length_drop]
      omega
    have hlead : (digits.take n).head? ≠ some '0'.toUInt8 := by
      rw [List.head?_take, if_neg (by omega)]
      exact h.leading
    split
    · have hlength : (digits.take n).length = n := List.length_take_of_le (Nat.le_of_lt hlt)
      have := isLiteral_cutZeros htake (.inr hlead) hdrop hdropLength (n + maxDecimalPlaces).toNat
      rwa [hlength] at this
    · exact ⟨_, isLiteral_fraction htake (.inr hlead) hdrop hdropLength⟩
  split
  case isTrue hint hpoint hsmall =>
    have hfraction : Decimals (List.replicate (-(digits.length + K)).toNat '0'.toUInt8 ++ digits) :=
      ⟨List.append_ne_nil_of_right_ne_nil _ h.decimals.ne_nil, fun b hb =>
        (List.mem_append.mp hb).elim (decimals_replicate _ b) (h.decimals.isDecimal b)⟩
    have hfractionLength :
        (List.replicate (-(digits.length + K)).toNat '0'.toUInt8 ++ digits).length ≤ 1000 := by
      rw [List.length_append, List.length_replicate]
      omega
    split
    · exact isLiteral_cutZeros hzero (.inl rfl) hfraction hfractionLength _
    · exact ⟨_, isLiteral_fraction hzero (.inl rfl) hfraction hfractionLength⟩
  split
  case isTrue => exact ⟨_, isLiteral_fraction hzero (.inl rfl) hzero hone⟩
  split
  case isTrue =>
    have hnone : ∀ fraction ∈ (none : Option Bytes), Decimals fraction := fun _ h => nomatch h
    exact ⟨_, isLiteral_exponent h.decimals h.leading hnone (Nat.zero_le _) h.exponent⟩
  case isFalse hmore =>
    obtain _ | ⟨d, ds⟩ := digits
    · exact absurd rfl h.decimals.ne_nil
    have hds : ∀ fraction ∈ some ds, Decimals fraction := by
      rintro _ ⟨⟩
      refine ⟨fun hnil => hmore ?_, fun b hb => h.decimals.isDecimal b (.tail _ hb)⟩
      rw [hnil]
      rfl
    have hd : Decimals [d] := by
      refine ⟨List.cons_ne_nil _ _, fun b hb => h.decimals.isDecimal b ?_⟩
      rw [List.mem_singleton.mp hb]
      exact List.mem_cons_self
    have hdsLength : ((some ds).getD []).length ≤ 1000 := by
      rw [List.length_cons] at hlength
      exact Nat.le_trans (Nat.le_of_succ_le hlength) (by decide)
    exact ⟨_, isLiteral_exponent hd h.leading hds hdsLength h.exponent⟩

namespace Double

/-- The bits of a double that is finite and not zero, without its sign. -/
theorem abs_range {value : BitVec 64} (hzero : IsZero value = false)
    (hfinite : IsNanOrInf value = false) :
    0 < (abs value).toNat ∧ (abs value).toNat < 0x7FF0000000000000 := by
  constructor
  · refine Nat.pos_of_ne_zero fun h => ?_
    have habs : abs value = 0 := BitVec.eq_of_toNat_eq h
    rw [IsZero, ← abs, habs] at hzero
    cases hzero
  · -- the exponent of an infinity or more is all ones
    by_contra hlarge
    have hle : (abs value).toNat ≤ 0x7FFFFFFFFFFFFFFF := by
      rw [abs, BitVec.toNat_and]
      exact Nat.and_le_right
    have hexponent : (abs value).toNat >>> 52 = 2047 := by
      rw [Nat.shiftRight_eq_div_pow]
      omega
    have hones : ∀ j < 11, (2047).testBit j = true := by decide
    have hmask : ∀ i < 64,
        (0x7FF0000000000000#64).getLsbD i = (decide (52 ≤ i) && decide (i < 63)) := by decide
    have hinf : value &&& 0x7FF0000000000000#64 = 0x7FF0000000000000#64 := by
      refine BitVec.eq_of_getLsbD_eq fun i hi => ?_
      rw [BitVec.getLsbD_and, hmask i hi]
      by_cases hrange : 52 ≤ i ∧ i < 63
      · have hbit : (abs value).getLsbD i = true := by
          have := hones (i - 52) (by omega)
          rwa [← hexponent, Nat.testBit_shiftRight, Nat.add_sub_of_le hrange.1] at this
        rw [abs, BitVec.getLsbD_and, Bool.and_eq_true_iff] at hbit
        rw [hbit.1, Bool.true_and]
      · have hnone : (decide (52 ≤ i) && decide (i < 63)) = false := by
          simpa using hrange
        rw [hnone, Bool.and_false]
    rw [IsNanOrInf, hinf] at hfinite
    cases hfinite

end Double

/-- **`dtoa`** writes a finite double as a short literal with a fraction or an exponent. -/
theorem dtoa_literal {Grisu2 : BitVec 64 → Bytes × Int} (hGrisu2 : FindsDigits Grisu2)
    {value : BitVec 64} (hfinite : Double.IsNanOrInf value = false) {maxDecimalPlaces : Int}
    (hplaces : maxDecimalPlaces ≥ 1) :
    ∃ l : Literal, l.WellFormed ∧ l.integral = false ∧ Short l ∧
      dtoa Grisu2 value maxDecimalPlaces = some l.text := by
  have hunsigned : ∃ l, IsLiteral
      (if Double.IsZero value then ['0'.toUInt8, '.'.toUInt8, '0'.toUInt8]
      else Prettify (Grisu2 (Double.abs value)).1 (Grisu2 (Double.abs value)).2
        maxDecimalPlaces) l := by
    split
    case isTrue =>
      have hzero : Decimals ['0'.toUInt8] := ⟨List.cons_ne_nil _ _, decimals_replicate 1⟩
      exact ⟨_, isLiteral_fraction hzero (.inl rfl) hzero (by decide)⟩
    case isFalse hzero =>
      obtain ⟨hpos, hlt⟩ := Double.abs_range (Bool.eq_false_iff.mpr hzero) hfinite
      exact Prettify_literal (hGrisu2 _ hpos hlt) maxDecimalPlaces
  obtain ⟨l, hl⟩ := hunsigned
  refine ⟨{ l with negative := Double.Sign value }, ⟨hl.wellFormed.digits, hl.wellFormed.leading,
    hl.wellFormed.fraction, hl.wellFormed.exponent⟩, hl.integral,
    ⟨hl.short.places, hl.short.power⟩, ?_⟩
  have htext : l.text = l.digits ++ (l.fractionText ++ l.exponentText) := by
    rw [Literal.text, Literal.minus, hl.negative]
    rfl
  rw [dtoa, if_pos hplaces, hl.text, htext]
  rfl

end RapidJson
