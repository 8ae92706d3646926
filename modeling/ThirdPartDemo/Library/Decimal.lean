import ThirdPartDemo.Library.JsonText

/-!
# Library — numbers in decimal

The decimal text of a natural number, most significant digit first and without leading
zeros, from `Nat.digits`.

* `decimal_induction` — the induction that goes with it: one more digit at the end;
* `decimalValue_decimal` — it is read back as the number;
* `Literal.ofInt_number` — as a JSON literal it stands for the integer.
-/

namespace Library

/-- A decimal digit. -/
def digit (d : Nat) : UInt8 := '0'.toUInt8 + d.toUInt8

/-- The decimal text of a number. -/
def decimal (n : Nat) : Bytes :=
  if n = 0 then [digit 0] else ((Nat.digits 10 n).map digit).reverse

theorem decimal_of_lt {n : Nat} (h : n < 10) : decimal n = [digit n] := by
  unfold decimal
  split
  case isTrue hzero => rw [hzero]
  case isFalse hpos =>
    rw [Nat.digits_of_lt 10 n hpos h]
    rfl

theorem decimal_of_le {n : Nat} (h : 10 ≤ n) :
    decimal n = decimal (n / 10) ++ [digit (n % 10)] := by
  have hpos : n / 10 ≠ 0 := by omega
  rw [decimal, if_neg (by omega), decimal, if_neg hpos,
    Nat.digits_def' (by decide) (by omega), List.map_cons, List.reverse_cons]

theorem decimal_induction {P : Nat → Prop} (small : ∀ n, n < 10 → P n)
    (more : ∀ n, 10 ≤ n → P (n / 10) → P n) (n : Nat) : P n := by
  induction n using Nat.strongRecOn with
  | ind n ih =>
    by_cases h : n < 10
    · exact small n h
    · exact more n (by omega) (ih (n / 10) (by omega))

theorem digit_spec : ∀ d < 10, isDecimal (digit d) = true ∧ (digit d).toNat - '0'.toNat = d ∧
    (digit d = '0'.toUInt8 → d = 0) := by decide

theorem decimals_decimal (n : Nat) : Decimals (decimal n) := by
  induction n using decimal_induction with
  | small n h =>
    rw [decimal_of_lt h]
    refine ⟨List.cons_ne_nil _ _, fun b hb => ?_⟩
    rw [List.mem_singleton.mp hb]
    exact (digit_spec n h).1
  | more n h ih =>
    rw [decimal_of_le h]
    refine ⟨List.append_ne_nil_of_left_ne_nil ih.ne_nil _, fun b hb => ?_⟩
    obtain hb | hb := List.mem_append.mp hb
    · exact ih.isDecimal b hb
    · rw [List.mem_singleton.mp hb]
      exact (digit_spec _ (Nat.mod_lt n (by decide))).1

theorem decimalValue_concat (n : Nat) (digits : Bytes) {d : Nat} (hd : d < 10) :
    decimalValue n (digits ++ [digit d]) = 10 * decimalValue n digits + d := by
  rw [decimalValue, List.foldl_append]
  show 10 * decimalValue n digits + ((digit d).toNat - '0'.toNat) = _
  rw [(digit_spec d hd).2.1]

/-- **A decimal text** is read back as the number. -/
theorem decimalValue_decimal (n : Nat) : decimalValue 0 (decimal n) = n := by
  induction n using decimal_induction with
  | small n h =>
    rw [decimal_of_lt h]
    have := decimalValue_concat 0 [] h
    rwa [show decimalValue 0 [] = 0 from rfl, Nat.mul_zero, Nat.zero_add] at this
  | more n h ih =>
    rw [decimal_of_le h, decimalValue_concat _ _ (Nat.mod_lt n (by decide)), ih]
    omega

theorem decimal_leading (n : Nat) :
    decimal n = ['0'.toUInt8] ∨ (decimal n).head? ≠ some '0'.toUInt8 := by
  have hhead : ∀ n, n ≠ 0 → (decimal n).head? ≠ some '0'.toUInt8 := by
    intro n
    induction n using decimal_induction with
    | small n h =>
      intro hpos hhead
      rw [decimal_of_lt h, List.head?_cons, Option.some.injEq] at hhead
      exact hpos ((digit_spec n h).2.2 hhead)
    | more n h ih =>
      intro _
      rw [decimal_of_le h, List.head?_append_of_ne_nil _ (decimals_decimal _).ne_nil]
      exact ih (by omega)
  by_cases h : n = 0
  · rw [h]
    exact .inl rfl
  · exact .inr (hhead n h)

/-- The literal of an integer. -/
def Literal.ofInt (negative : Bool) (n : Nat) : Literal :=
  { negative, digits := decimal n, fraction := none, exponent := none }

theorem Literal.ofInt_wellFormed (negative : Bool) (n : Nat) :
    (Literal.ofInt negative n).WellFormed where
  digits := decimals_decimal n
  leading := decimal_leading n
  fraction _ h := nomatch h
  exponent _ h := nomatch h

theorem Literal.ofInt_text (negative : Bool) (n : Nat) :
    (Literal.ofInt negative n).text = (if negative then ['-'.toUInt8] else []) ++ decimal n := by
  have hrest : (Literal.ofInt negative n).fractionText ++ (Literal.ofInt negative n).exponentText =
      [] := rfl
  rw [text, hrest, List.append_nil]
  rfl

/-- **The literal of an integer** stands for the integer, in the first type that holds
it. -/
theorem Literal.ofInt_number {negative : Bool} {n : Nat} {number : JsonNumber}
    (h : integerNumber negative n = some number) (double : Literal → Option UInt64) :
    (Literal.ofInt negative n).number double = some number := by
  have hintegral : (Literal.ofInt negative n).integral = true := rfl
  rw [Literal.number, if_pos hintegral, ofInt]
  dsimp only
  rw [decimalValue_decimal, h]

end Library
