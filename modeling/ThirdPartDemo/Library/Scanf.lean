import Mathlib.Data.List.Basic
import ThirdPartDemo.Library.FileSystem

/-!
# Library — `sscanf` with its C return values

The part of `sscanf` that a format of literal characters, white space and `%ld`
needs. An input that ends before the first conversion gives `EOF`, which as an
`int` is as true as a successful conversion; a mismatch gives the number of
conversions so far. A number that no `long` holds is cut to the nearest one.

`Numeral` says what a number is without scanning it; `sscanf_long_numeral` and
`sscanf_long_cases` say that `%ld` converts the numbers and nothing else, and the
`sscanf_literal` lemmas do the same for literal characters.
-/

namespace Library

/-- One directive of a format. -/
inductive Directive where
  | char (c : Char)
  | white
  | long          -- `%ld`
  deriving DecidableEq, Repr

/-- `isspace` in the C locale. -/
def isspace (c : Char) : Bool :=
  c == ' ' || c == '\t' || c == '\n' || c == '\r' || c.toNat == 11 || c.toNat == 12

/-- An optional sign: whether it is a minus, and what follows. -/
def readSign : CString → Bool × CString
  | '-' :: s => (true, s)
  | '+' :: s => (false, s)
  | s => (false, s)

/-- The `long` nearest to a number given by sign and magnitude. -/
def toLong (LONG_MAX : Nat) (negative : Bool) (magnitude : Nat) : Int :=
  if negative then -(min magnitude (LONG_MAX + 1) : Nat) else (min magnitude LONG_MAX : Nat)

/-- `sscanf`: the values converted, `none` for `EOF`. -/
def sscanf (LONG_MAX : Nat) : List Directive → CString → List Int → Option (List Int)
  | [], _, values => some values
  | .white :: format, s, values => sscanf LONG_MAX format (s.dropWhile isspace) values
  | .char c :: format, s, values =>
    match s with
    | [] => if values = [] then none else some values
    | d :: s => if d = c then sscanf LONG_MAX format s values else some values
  | .long :: format, s, values =>
    match s.dropWhile isspace with
    | [] => if values = [] then none else some values
    | s =>
      let (negative, s) := readSign s
      let digits := s.takeWhile Char.isDigit
      if digits = [] then some values
      else
        sscanf LONG_MAX format (s.dropWhile Char.isDigit)
          (values ++ [toLong LONG_MAX negative (Nat.ofDigitChars 10 digits 0)])

/-- What `sscanf` returns. -/
def scanned : Option (List Int) → Int
  | none => -1
  | some values => values.length

/-- One decimal digit or more. -/
structure Digits (s : CString) : Prop where
  ne_nil : s ≠ []
  isDigit : ∀ c ∈ s, c.isDigit = true

/-- A decimal number as `%ld` takes it, and its value. -/
inductive Numeral : CString → Int → Prop where
  | unsigned {digits : CString} (h : Digits digits) :
      Numeral digits (Nat.ofDigitChars 10 digits 0)
  | plus {digits : CString} (h : Digits digits) :
      Numeral ('+' :: digits) (Nat.ofDigitChars 10 digits 0)
  | minus {digits : CString} (h : Digits digits) :
      Numeral ('-' :: digits) (-(Nat.ofDigitChars 10 digits 0 : Int))

/-- No digit goes on in `s` from where a number ends. -/
def NumberEnds (s : CString) : Prop := ∀ c ∈ s.head?, c.isDigit = false

/-- A `long` holds `n`. -/
def Representable (LONG_MAX : Nat) (n : Int) : Prop := -(LONG_MAX + 1) ≤ n ∧ n ≤ LONG_MAX

/-- The `long` nearest to `n`. -/
def nearestLong (LONG_MAX : Nat) (n : Int) : Int := max (-(LONG_MAX + 1)) (min n LONG_MAX)

variable {LONG_MAX : Nat} {s number digits : CString} {n : Int}

-- ---------------------------------------------------------------------------
-- Literal characters
-- ---------------------------------------------------------------------------

/-- Literal characters that the input starts with are skipped. -/
theorem sscanf_literal (text : CString) (format : List Directive) (s : CString)
    (values : List Int) :
    sscanf LONG_MAX (text.map .char ++ format) (text ++ s) values =
      sscanf LONG_MAX format s values := by
  induction text with
  | nil => rfl
  | cons c text ih =>
    simp only [List.map_cons, List.cons_append, sscanf, if_true]
    exact ih

/-- An input that ends inside the literal characters gives `EOF`. -/
theorem sscanf_literal_short {text : CString} (format : List Directive) (hs : s <+: text)
    (hne : s ≠ text) : sscanf LONG_MAX (text.map .char ++ format) s [] = none := by
  induction text generalizing s with
  | nil => exact absurd (List.prefix_nil.mp hs) hne
  | cons c text ih =>
    cases s with
    | nil => rfl
    | cons d s =>
      obtain ⟨rfl, hs'⟩ := List.cons_prefix_cons.mp hs
      simp only [List.map_cons, List.cons_append, sscanf, if_true]
      exact ih hs' fun h => hne (by rw [h])

/-- An input that differs from the literal characters before either ends is given up
there. -/
theorem sscanf_literal_mismatch {text : CString} (format : List Directive) (hs : ¬ s <+: text)
    (htext : ¬ text <+: s) (values : List Int) :
    sscanf LONG_MAX (text.map .char ++ format) s values = some values := by
  induction text generalizing s with
  | nil => exact absurd List.nil_prefix htext
  | cons c text ih =>
    cases s with
    | nil => exact absurd List.nil_prefix hs
    | cons d s =>
      simp only [List.map_cons, List.cons_append, sscanf]
      by_cases hd : d = c
      · subst hd
        rw [if_pos rfl]
        exact ih (fun h => hs (List.cons_prefix_cons.mpr ⟨rfl, h⟩))
          fun h => htext (List.cons_prefix_cons.mpr ⟨rfl, h⟩)
      · rw [if_neg hd]

-- ---------------------------------------------------------------------------
-- Numbers
-- ---------------------------------------------------------------------------

theorem isspace_of_isDigit {c : Char} (h : c.isDigit = true) : isspace c = false := by
  rw [Char.isDigit, Bool.and_eq_true, decide_eq_true_eq, decide_eq_true_eq] at h
  -- the white space characters all come before '0'
  have hge : 48 ≤ c.toNat := h.1
  have hne : ∀ d : Char, d.toNat < 48 → (c == d) = false := by
    intro d hd
    rw [beq_eq_false_iff_ne]
    rintro rfl
    omega
  simp only [isspace, hne ' ' (by decide), hne '\t' (by decide), hne '\n' (by decide),
    hne '\r' (by decide), Bool.or_false, Bool.false_or, Bool.or_eq_false_iff, beq_eq_false_iff_ne]
  omega

theorem readSign_of_isDigit {c : Char} (h : c.isDigit = true) (s : CString) :
    readSign (c :: s) = (false, c :: s) := by
  unfold readSign
  split
  · rename_i heq
    cases heq
    cases h
  · rename_i heq
    cases heq
    cases h
  · rfl

theorem toLong_false (magnitude : Nat) :
    toLong LONG_MAX false magnitude = nearestLong LONG_MAX magnitude := by
  simp only [toLong, nearestLong, Bool.false_eq_true, if_false]
  omega

theorem toLong_true (magnitude : Nat) :
    toLong LONG_MAX true magnitude = nearestLong LONG_MAX (-(magnitude : Int)) := by
  simp only [toLong, nearestLong, if_true]
  omega

theorem nearestLong_of_representable (h : Representable LONG_MAX n) :
    nearestLong LONG_MAX n = n := by
  obtain ⟨hmin, hmax⟩ := h
  unfold nearestLong
  omega

theorem Digits.takeWhile (h : Digits digits) (hs : NumberEnds s) :
    (digits ++ s).takeWhile Char.isDigit = digits := by
  rw [List.takeWhile_append_of_pos h.isDigit]
  cases s with
  | nil => rw [List.takeWhile_nil, List.append_nil]
  | cons c s => rw [List.takeWhile_cons_of_neg (by simp [hs c rfl]), List.append_nil]

theorem Digits.dropWhile (h : Digits digits) (hs : NumberEnds s) :
    (digits ++ s).dropWhile Char.isDigit = s := by
  rw [List.dropWhile_append_of_pos h.isDigit]
  cases s with
  | nil => rfl
  | cons c s => rw [List.dropWhile_cons_of_neg (by simp [hs c rfl])]

theorem Digits.readSign (h : Digits digits) (s : CString) :
    readSign (digits ++ s) = (false, digits ++ s) := by
  obtain ⟨c, cs, rfl⟩ := List.exists_cons_of_ne_nil h.ne_nil
  exact readSign_of_isDigit (h.isDigit c List.mem_cons_self) _

variable (LONG_MAX) in
/-- A number is read as its sign and its digits. -/
theorem Numeral.readSign (h : Numeral number n) (s : CString) :
    ∃ negative digits, Digits digits ∧
      Library.readSign (number ++ s) = (negative, digits ++ s) ∧
      toLong LONG_MAX negative (Nat.ofDigitChars 10 digits 0) = nearestLong LONG_MAX n := by
  cases h with
  | unsigned h => exact ⟨false, number, h, h.readSign s, toLong_false _⟩
  | @plus digits h => exact ⟨false, digits, h, rfl, toLong_false _⟩
  | @minus digits h => exact ⟨true, digits, h, rfl, toLong_true _⟩

/-- A number does not begin with white space. -/
theorem Numeral.dropWhile_isspace (h : Numeral number n) (s : CString) :
    ∃ c cs, (number ++ s).dropWhile isspace = c :: cs ∧ number ++ s = c :: cs := by
  have hhead : ∃ c cs, number = c :: cs ∧ isspace c = false := by
    cases h with
    | unsigned h =>
      obtain ⟨c, cs, rfl⟩ := List.exists_cons_of_ne_nil h.ne_nil
      exact ⟨c, cs, rfl, isspace_of_isDigit (h.isDigit c List.mem_cons_self)⟩
    | plus h => exact ⟨'+', _, rfl, by decide⟩
    | minus h => exact ⟨'-', _, rfl, by decide⟩
  obtain ⟨c, cs, rfl, hc⟩ := hhead
  refine ⟨c, cs ++ s, ?_, rfl⟩
  rw [List.cons_append, List.dropWhile_cons_of_neg (by simp [hc])]

/-- **Reading a number.** `%ld` converts a number to the nearest `long`. -/
theorem sscanf_long_numeral (h : Numeral number n) (format : List Directive)
    (hs : NumberEnds s) (values : List Int) :
    sscanf LONG_MAX (.long :: format) (number ++ s) values =
      sscanf LONG_MAX format s (values ++ [nearestLong LONG_MAX n]) := by
  obtain ⟨negative, digits, hdigits, hsign, hvalue⟩ := h.readSign LONG_MAX s
  obtain ⟨c, cs, hspace, hnumber⟩ := h.dropWhile_isspace s
  rw [hnumber] at hsign
  rw [sscanf, hspace]
  dsimp only
  rw [hsign]
  dsimp only
  rw [hdigits.takeWhile hs, hdigits.dropWhile hs, if_neg hdigits.ne_nil, hvalue]

/-- The decimal digits of `n` are a number, `n`. -/
theorem numeral_toDigits (n : Nat) : Numeral (Nat.toDigits 10 n) n := by
  have hdigits : Digits (Nat.toDigits 10 n) :=
    ⟨Nat.toDigits_ne_nil, fun _ hc => Nat.isDigit_of_mem_toDigits (by decide) (by decide) hc⟩
  have hn := Numeral.unsigned hdigits
  rwa [Nat.ofDigitChars_ten_toDigits] at hn

/-- The digits that a text begins with, if it begins with one, are followed by none. -/
theorem digits_of_takeWhile (hs : s.takeWhile Char.isDigit ≠ []) :
    Digits (s.takeWhile Char.isDigit) ∧ NumberEnds (s.dropWhile Char.isDigit) := by
  refine ⟨⟨hs, fun c hc => ?_⟩, fun c hc => ?_⟩
  · exact List.all_eq_true.mp List.all_takeWhile c hc
  · have hnot := List.head?_dropWhile_not Char.isDigit s
    rw [hc] at hnot
    exact hnot

/-- What `%ld` can come to in an input without leading white space: the input is
empty, it begins with a number, or nothing is converted. -/
theorem sscanf_long_cases (format : List Directive) (hs : s.dropWhile isspace = s) :
    s = [] ∨ (∃ number n rest, s = number ++ rest ∧ Numeral number n ∧ NumberEnds rest) ∨
      sscanf LONG_MAX (.long :: format) s [] = some [] := by
  cases s with
  | nil => exact Or.inl rfl
  | cons c cs =>
    by_cases hdigits : (Library.readSign (c :: cs)).2.takeWhile Char.isDigit = []
    · refine Or.inr (Or.inr ?_)
      rw [sscanf, hs]
      dsimp only
      rw [if_pos hdigits]
    · obtain ⟨hnumber, hends⟩ := digits_of_takeWhile hdigits
      have hsplit := List.takeWhile_append_dropWhile (p := Char.isDigit)
        (l := (Library.readSign (c :: cs)).2)
      refine Or.inr (Or.inl ?_)
      generalize (Library.readSign (c :: cs)).2.takeWhile Char.isDigit = digits at *
      generalize (Library.readSign (c :: cs)).2.dropWhile Char.isDigit = rest at *
      unfold Library.readSign at hsplit
      split at hsplit
      · rename_i heq
        rw [heq]
        exact ⟨'-' :: digits, _, rest, by rw [List.cons_append, hsplit], .minus hnumber, hends⟩
      · rename_i heq
        rw [heq]
        exact ⟨'+' :: digits, _, rest, by rw [List.cons_append, hsplit], .plus hnumber, hends⟩
      · exact ⟨digits, _, rest, hsplit.symm, .unsigned hnumber, hends⟩

end Library
