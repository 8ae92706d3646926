import ThirdPartDemo.Library.Decimal

/-!
# RapidJSON — integers as text

`u32toa` and `u64toa` of `rapidjson/internal/itoa.h` take two digits at a time from a
table, and leave out leading zeros by comparing the number with powers of ten.

* `u32toa_eq`, `u64toa_eq` — what they write is the decimal text of the number;
* `i32toa_eq`, `i64toa_eq` — the signed ones, down to the least integers.
-/

namespace RapidJson

open Library

/-- `GetDigitsLut` -/
def cDigitsLut : List Char :=
  ['0','0','0','1','0','2','0','3','0','4','0','5','0','6','0','7','0','8','0','9',
   '1','0','1','1','1','2','1','3','1','4','1','5','1','6','1','7','1','8','1','9',
   '2','0','2','1','2','2','2','3','2','4','2','5','2','6','2','7','2','8','2','9',
   '3','0','3','1','3','2','3','3','3','4','3','5','3','6','3','7','3','8','3','9',
   '4','0','4','1','4','2','4','3','4','4','4','5','4','6','4','7','4','8','4','9',
   '5','0','5','1','5','2','5','3','5','4','5','5','5','6','5','7','5','8','5','9',
   '6','0','6','1','6','2','6','3','6','4','6','5','6','6','6','7','6','8','6','9',
   '7','0','7','1','7','2','7','3','7','4','7','5','7','6','7','7','7','8','7','9',
   '8','0','8','1','8','2','8','3','8','4','8','5','8','6','8','7','8','8','8','9',
   '9','0','9','1','9','2','9','3','9','4','9','5','9','6','9','7','9','8','9','9']

/-- An entry of the table. -/
def lut (i : Nat) : UInt8 := (cDigitsLut.getD i '0').toUInt8

/-- `if (value >= limit) *buffer++ = c;` -/
def putFrom (value limit : Nat) (c : UInt8) : Bytes := if value ≥ limit then [c] else []

/-- Two digits. -/
def pair (i : Nat) : Bytes := [lut (i <<< 1), lut (i <<< 1 + 1)]

/-- Four digits. -/
def four (c : Nat) : Bytes := pair (c / 100) ++ pair (c % 100)

/-- The first three of four digits, each left out while `value` is below its place;
`unit` is the place of the fourth. -/
def leading (value unit b : Nat) : Bytes :=
  putFrom value (1000 * unit) (lut ((b / 100) <<< 1)) ++
    (putFrom value (100 * unit) (lut ((b / 100) <<< 1 + 1)) ++
      putFrom value (10 * unit) (lut ((b % 100) <<< 1)))

/-- The last of four digits. -/
def last (b : Nat) : UInt8 := lut ((b % 100) <<< 1 + 1)

/-- `u32toa` -/
def u32toa (value : Nat) : Bytes :=
  if value < 10000 then leading value 1 value ++ [last value]
  else if value < 100000000 then
    leading value 10000 (value / 10000) ++ last (value / 10000) :: four (value % 10000)
  else
    let a := value / 100000000
    let value := value % 100000000
    (if a ≥ 10 then pair a else ['0'.toUInt8 + a.toUInt8]) ++
      (four (value / 10000) ++ four (value % 10000))

/-- `i32toa` -/
def i32toa (value : Int) : Bytes :=
  let u := BitVec.ofInt 32 value
  if value < 0 then '-'.toUInt8 :: u32toa (~~~u + 1#32).toNat else u32toa u.toNat

/-- `u64toa` -/
def u64toa (value : Nat) : Bytes :=
  if value < 100000000 then
    if value < 10000 then leading value 1 value ++ [last value]
    else leading value 10000 (value / 10000) ++ last (value / 10000) :: four (value % 10000)
  else if value < 10000000000000000 then
    let v0 := value / 100000000
    let v1 := value % 100000000
    leading value 1000000000000 (v0 / 10000) ++
      (putFrom value 1000000000000 (last (v0 / 10000)) ++
        (leading value 100000000 (v0 % 10000) ++
          (putFrom value 100000000 (last (v0 % 10000)) ++
            (four (v1 / 10000) ++ four (v1 % 10000)))))
  else
    let a := value / 10000000000000000
    let value := value % 10000000000000000
    let v0 := value / 100000000
    let v1 := value % 100000000
    (if a < 10 then ['0'.toUInt8 + a.toUInt8]
      else if a < 100 then pair a
      else if a < 1000 then ('0'.toUInt8 + (a / 100).toUInt8) :: pair (a % 100)
      else pair (a / 100) ++ pair (a % 100)) ++
      (four (v0 / 10000) ++ (four (v0 % 10000) ++ (four (v1 / 10000) ++ four (v1 % 10000))))

/-- `i64toa` -/
def i64toa (value : Int) : Bytes :=
  let u := BitVec.ofInt 64 value
  if value < 0 then '-'.toUInt8 :: u64toa (~~~u + 1#64).toNat else u64toa u.toNat

-- ---------------------------------------------------------------------------
-- Digits
-- ---------------------------------------------------------------------------

theorem lut_eq : ∀ i < 100,
    lut (i <<< 1) = digit (i / 10) ∧ lut (i <<< 1 + 1) = digit (i % 10) := by decide +kernel

theorem decimal_pair {m i : Nat} (hm : m ≠ 0) (hi : i < 100) :
    decimal (m * 100 + i) = decimal m ++ pair i := by
  obtain ⟨hfirst, hsecond⟩ := lut_eq i hi
  rw [decimal_of_le (by omega), decimal_of_le (by omega), pair, hfirst, hsecond,
    List.append_assoc, show (m * 100 + i) / 10 / 10 = m by omega,
    show (m * 100 + i) / 10 % 10 = i / 10 by omega, show (m * 100 + i) % 10 = i % 10 by omega]
  rfl

theorem decimal_four {m c : Nat} (hm : m ≠ 0) (hc : c < 10000) :
    decimal (m * 10000 + c) = decimal m ++ four c := by
  rw [four, ← List.append_assoc, ← decimal_pair hm (by omega),
    ← decimal_pair (by omega) (by omega)]
  exact congrArg decimal (by omega)

theorem decimal_eight {m v : Nat} (hm : m ≠ 0) (hv : v < 100000000) :
    decimal (m * 100000000 + v) = decimal m ++ (four (v / 10000) ++ four (v % 10000)) := by
  rw [← List.append_assoc, ← decimal_four hm (by omega), ← decimal_four (by omega) (by omega)]
  exact congrArg decimal (by omega)

/-- The comparison with a power of ten is one of the four digits that are written. -/
theorem putFrom_mul {value unit : Nat} (hunit : 0 < unit) (k : Nat) (c : UInt8) :
    putFrom value (k * unit) c = if k ≤ value / unit then [c] else [] := by
  rw [putFrom]
  congr 1
  exact propext (Nat.le_div_iff_mul_le hunit).symm

/-- Four digits without their leading zeros. -/
theorem leading_last {value unit : Nat} (hunit : 0 < unit) (hlt : value / unit < 10000) :
    leading value unit (value / unit) ++ [last (value / unit)] = decimal (value / unit) := by
  rw [leading, putFrom_mul hunit, putFrom_mul hunit, putFrom_mul hunit, last]
  generalize value / unit = b at hlt
  obtain ⟨h₁, h₂⟩ := lut_eq (b / 100) (by omega)
  obtain ⟨h₃, h₄⟩ := lut_eq (b % 100) (by omega)
  rw [h₁, h₂, h₃, h₄]
  by_cases h10 : b < 10
  · rw [if_neg (by omega), if_neg (by omega), if_neg (by omega), decimal_of_lt h10,
      show b % 100 % 10 = b by omega]
    rfl
  have hlast : decimal b = decimal (b / 10) ++ [digit (b % 100 % 10)] := by
    rw [decimal_of_le (by omega), show b % 100 % 10 = b % 10 by omega]
  by_cases h100 : b < 100
  · rw [if_neg (by omega), if_neg (by omega), if_pos (by omega), hlast,
      decimal_of_lt (show b / 10 < 10 by omega), show b % 100 / 10 = b / 10 by omega]
    rfl
  have hthird : decimal (b / 10) = decimal (b / 100) ++ [digit (b % 100 / 10)] := by
    rw [decimal_of_le (by omega), show b / 10 / 10 = b / 100 by omega,
      show b / 10 % 10 = b % 100 / 10 by omega]
  by_cases h1000 : b < 1000
  · rw [if_neg (by omega), if_pos (by omega), if_pos (by omega), hlast, hthird,
      decimal_of_lt (show b / 100 < 10 by omega), show b / 100 % 10 = b / 100 by omega]
    rfl
  · rw [if_pos (by omega), if_pos (by omega), if_pos (by omega), hlast, hthird,
      decimal_of_le (show 10 ≤ b / 100 by omega),
      decimal_of_lt (show b / 100 / 10 < 10 by omega)]
    rfl

/-- Four digits that something else comes before. -/
theorem leading_full {value unit : Nat} (h : 1000 * unit ≤ value) (b : Nat) :
    leading value unit b ++ [last b] = four b := by
  rw [leading, putFrom, putFrom, putFrom, if_pos h, if_pos (by omega), if_pos (by omega)]
  rfl

/-- Four digits before the number starts. -/
theorem leading_none {value unit : Nat} (h : value < unit) (b : Nat) :
    leading value unit b = [] := by
  rw [leading, putFrom, putFrom, putFrom, if_neg (by omega), if_neg (by omega),
    if_neg (by omega)]
  rfl

theorem pair_eq {i : Nat} (h : 10 ≤ i) (hi : i < 100) : pair i = decimal i := by
  obtain ⟨hfirst, hsecond⟩ := lut_eq i hi
  rw [pair, hfirst, hsecond, decimal_of_le h, decimal_of_lt (show i / 10 < 10 by omega)]
  rfl

-- ---------------------------------------------------------------------------
-- Numbers
-- ---------------------------------------------------------------------------

/-- Up to eight digits. -/
theorem short_eq {value : Nat} (h : 10000 ≤ value) (hlt : value < 100000000) :
    leading value 10000 (value / 10000) ++ last (value / 10000) :: four (value % 10000) =
      decimal value := by
  have hvalue : decimal value = decimal (value / 10000) ++ four (value % 10000) := by
    rw [← decimal_four (by omega) (by omega), Nat.div_add_mod' value 10000]
  have hunit : 0 < 10000 := by decide
  rw [hvalue, ← leading_last hunit (by omega), List.append_assoc]
  rfl

theorem tiny_eq {value : Nat} (h : value < 10000) :
    leading value 1 value ++ [last value] = decimal value := by
  have hone : value / 1 < 10000 := by rwa [Nat.div_one]
  have := leading_last Nat.one_pos hone
  rwa [Nat.div_one] at this

/-- **`u32toa`** writes a number in decimal. -/
theorem u32toa_eq {value : Nat} (h : value < 4294967296) : u32toa value = decimal value := by
  unfold u32toa
  split
  case isTrue htiny => exact tiny_eq htiny
  split
  case isTrue hlong hshort => exact short_eq (by omega) hshort
  case isFalse hlong hshort =>
    have ha : (if value / 100000000 ≥ 10 then pair (value / 100000000)
        else ['0'.toUInt8 + (value / 100000000).toUInt8]) = decimal (value / 100000000) := by
      split
      case isTrue ha => exact pair_eq ha (by omega)
      case isFalse ha => exact (decimal_of_lt (by omega)).symm
    dsimp only
    rw [ha, ← decimal_eight (by omega) (by omega), Nat.div_add_mod' value 100000000]

/-- **`u64toa`** writes a number in decimal. -/
theorem u64toa_eq {value : Nat} (h : value < 18446744073709551616) :
    u64toa value = decimal value := by
  unfold u64toa
  split
  case isTrue hshort =>
    split
    case isTrue htiny => exact tiny_eq htiny
    case isFalse htiny => exact short_eq (by omega) hshort
  case isFalse hshort =>
    -- the last eight digits
    have hlast : decimal value = decimal (value / 100000000) ++
        (four (value % 100000000 / 10000) ++ four (value % 100000000 % 10000)) := by
      rw [← decimal_eight (by omega) (by omega), Nat.div_add_mod' value 100000000]
    split
    case isTrue hmiddle =>
      dsimp only
      rw [hlast]
      simp only [← List.append_assoc]
      congr 2
      by_cases hlong : 1000000000000 ≤ value
      · have hfour : decimal (value / 100000000) =
            decimal (value / 100000000 / 10000) ++ four (value / 100000000 % 10000) := by
          rw [← decimal_four (by omega) (by omega), Nat.div_add_mod' (value / 100000000) 10000]
        have hunit : value / 100000000 / 10000 = value / 1000000000000 := by omega
        have hfull : 1000 * 100000000 ≤ value := by omega
        rw [hfour, ← leading_full hfull, putFrom,
          if_pos hlong, putFrom, if_pos (by omega), hunit,
          leading_last (by decide) (by omega), List.append_assoc]
      · have hnone : value / 100000000 % 10000 = value / 100000000 := by omega
        rw [leading_none (by omega), putFrom, if_neg hlong, putFrom, if_pos (by omega), hnone,
          List.nil_append, List.nil_append, leading_last (by decide) (by omega)]
    case isFalse hmiddle =>
      have ha : (if value / 10000000000000000 < 10
            then ['0'.toUInt8 + (value / 10000000000000000).toUInt8]
          else if value / 10000000000000000 < 100 then pair (value / 10000000000000000)
          else if value / 10000000000000000 < 1000 then
            ('0'.toUInt8 + (value / 10000000000000000 / 100).toUInt8) ::
              pair (value / 10000000000000000 % 100)
          else pair (value / 10000000000000000 / 100) ++
            pair (value / 10000000000000000 % 100)) = decimal (value / 10000000000000000) := by
        have hlt : value / 10000000000000000 < 10000 := by omega
        generalize value / 10000000000000000 = a at hlt
        split
        case isTrue h10 => exact (decimal_of_lt h10).symm
        split
        case isTrue h10 h100 => exact pair_eq (by omega) h100
        have hpair : decimal a = decimal (a / 100) ++ pair (a % 100) := by
          rw [← decimal_pair (by omega) (by omega), Nat.div_add_mod' a 100]
        rw [hpair]
        split
        case isTrue h1000 =>
          rw [decimal_of_lt (show a / 100 < 10 by omega)]
          rfl
        case isFalse h1000 => rw [pair_eq (show 10 ≤ a / 100 by omega) (by omega)]
      have hfirst : decimal (value / 100000000) = decimal (value / 10000000000000000) ++
          (four (value % 10000000000000000 / 100000000 / 10000) ++
            four (value % 10000000000000000 / 100000000 % 10000)) := by
        rw [← decimal_eight (by omega) (by omega)]
        exact congrArg decimal (by omega)
      dsimp only
      rw [ha, hlast, hfirst, show value % 10000000000000000 % 100000000 = value % 100000000
        by omega]
      simp only [List.append_assoc]

/-- **`i32toa`** writes a signed number in decimal, the least one included. -/
theorem i32toa_eq {value : Int} (h : -2147483648 ≤ value ∧ value ≤ 2147483647) :
    i32toa value = (if value < 0 then ['-'.toUInt8] else []) ++ decimal value.natAbs := by
  unfold i32toa
  dsimp only
  split
  case isTrue hneg =>
    have habs : (~~~(BitVec.ofInt 32 value) + 1#32).toNat = value.natAbs := by
      rw [← BitVec.neg_eq_not_add, BitVec.toNat_neg, BitVec.toNat_ofInt]
      omega
    rw [habs, u32toa_eq (by omega)]
    rfl
  case isFalse hpos =>
    have habs : (BitVec.ofInt 32 value).toNat = value.natAbs := by
      rw [BitVec.toNat_ofInt]
      omega
    rw [habs, u32toa_eq (by omega)]
    rfl

/-- **`i64toa`** writes a signed number in decimal, the least one included. -/
theorem i64toa_eq {value : Int}
    (h : -9223372036854775808 ≤ value ∧ value ≤ 9223372036854775807) :
    i64toa value = (if value < 0 then ['-'.toUInt8] else []) ++ decimal value.natAbs := by
  unfold i64toa
  dsimp only
  split
  case isTrue hneg =>
    have habs : (~~~(BitVec.ofInt 64 value) + 1#64).toNat = value.natAbs := by
      rw [← BitVec.neg_eq_not_add, BitVec.toNat_neg, BitVec.toNat_ofInt]
      omega
    rw [habs, u64toa_eq (by omega)]
    rfl
  case isFalse hpos =>
    have habs : (BitVec.ofInt 64 value).toNat = value.natAbs := by
      rw [BitVec.toNat_ofInt]
      omega
    rw [habs, u64toa_eq (by omega)]
    rfl

end RapidJson
