import Mathlib.Data.Nat.Digits.Defs
import ThirdPartDemo.Library.Sax

/-!
# Library — the grammar of JSON texts

What a JSON text is, apart from any reader: white space, string literals with their
escapes, number literals, and the values that are built of them. A derivation
`Derives` says of some bytes that they are the text of a value, of the elements of
an array or of the members of an object.

Texts are byte strings. A string literal stands for the bytes it decodes to: the
bytes that need no escape for themselves, `\u` escapes for the UTF-8 of their code
point. What a number literal stands for is a parameter of the grammar (`Dialect`),
as is whether a comma may end a list; `Literal.number` is the usual choice, which
gives each number the first type that fits.

* `Derives.noNul` — no text has a NUL in it;
* `Derives.literal` — every number comes from a literal.
-/

namespace Library

/-- The ASCII codes of a text. -/
def ascii (text : String) : Bytes := text.toList.map Char.toUInt8

/-- The bytes that JSON calls white space. -/
def isJsonSpace (b : UInt8) : Bool :=
  b == ' '.toUInt8 || b == '\n'.toUInt8 || b == '\r'.toUInt8 || b == '\t'.toUInt8

/-- White space. -/
def Blank (gap : Bytes) : Prop := ∀ b ∈ gap, isJsonSpace b = true

-- ---------------------------------------------------------------------------
-- Strings
-- ---------------------------------------------------------------------------

/-- The value of a hexadecimal digit. -/
def hexDigit (b : UInt8) : Option Nat :=
  if '0'.toUInt8 ≤ b ∧ b ≤ '9'.toUInt8 then some (b.toNat - '0'.toNat)
  else if 'A'.toUInt8 ≤ b ∧ b ≤ 'F'.toUInt8 then some (b.toNat - 'A'.toNat + 10)
  else if 'a'.toUInt8 ≤ b ∧ b ≤ 'f'.toUInt8 then some (b.toNat - 'a'.toNat + 10)
  else none

/-- The value of hexadecimal digits that come after digits of the value `n`. -/
def hexValue : Nat → Bytes → Option Nat
  | n, [] => some n
  | n, b :: digits =>
    match hexDigit b with
    | some d => hexValue (16 * n + d) digits
    | none => none

/-- Four hexadecimal digits. -/
def Hex4 (digits : Bytes) (n : Nat) : Prop := digits.length = 4 ∧ hexValue 0 digits = some n

/-- The UTF-8 code units of a code point. -/
def utf8 (n : Nat) : Bytes :=
  if n ≤ 0x7F then [n.toUInt8]
  else if n ≤ 0x7FF then [(0xC0 + n / 0x40).toUInt8, (0x80 + n % 0x40).toUInt8]
  else if n ≤ 0xFFFF then
    [(0xE0 + n / 0x1000).toUInt8, (0x80 + n / 0x40 % 0x40).toUInt8, (0x80 + n % 0x40).toUInt8]
  else
    [(0xF0 + n / 0x40000).toUInt8, (0x80 + n / 0x1000 % 0x40).toUInt8,
      (0x80 + n / 0x40 % 0x40).toUInt8, (0x80 + n % 0x40).toUInt8]

def HighSurrogate (n : Nat) : Prop := 0xD800 ≤ n ∧ n ≤ 0xDBFF
def LowSurrogate (n : Nat) : Prop := 0xDC00 ≤ n ∧ n ≤ 0xDFFF

/-- The code point of a surrogate pair. -/
def surrogatePair (high low : Nat) : Nat := (high - 0xD800) * 0x400 + (low - 0xDC00) + 0x10000

/-- The bytes that stand for themselves in a string literal. -/
def isUnescaped (b : UInt8) : Bool := 0x20 ≤ b && b != '"'.toUInt8 && b != '\\'.toUInt8

/-- What a letter after a backslash stands for. -/
def unescape (b : UInt8) : Option UInt8 :=
  if b = '"'.toUInt8 ∨ b = '\\'.toUInt8 ∨ b = '/'.toUInt8 then some b
  else if b = 'b'.toUInt8 then some 0x08
  else if b = 'f'.toUInt8 then some 0x0C
  else if b = 'n'.toUInt8 then some 0x0A
  else if b = 'r'.toUInt8 then some 0x0D
  else if b = 't'.toUInt8 then some 0x09
  else none

/-- What stands between the quotes of a string literal, and the string. An escaped
low surrogate that does not follow a high one stands for itself. -/
inductive Chars : Bytes → Bytes → Prop where
  | nil : Chars [] []
  | unescaped {b : UInt8} {raw s : Bytes} (hb : isUnescaped b = true) (h : Chars raw s) :
      Chars (b :: raw) (b :: s)
  | escaped {b c : UInt8} {raw s : Bytes} (hb : unescape b = some c) (h : Chars raw s) :
      Chars ('\\'.toUInt8 :: b :: raw) (c :: s)
  | unicode {digits : Bytes} {n : Nat} {raw s : Bytes} (hdigits : Hex4 digits n)
      (hn : ¬ HighSurrogate n) (h : Chars raw s) :
      Chars ('\\'.toUInt8 :: 'u'.toUInt8 :: (digits ++ raw)) (utf8 n ++ s)
  | pair {high low : Bytes} {m n : Nat} {raw s : Bytes} (hhigh : Hex4 high m)
      (hm : HighSurrogate m) (hlow : Hex4 low n) (hn : LowSurrogate n) (h : Chars raw s) :
      Chars ('\\'.toUInt8 :: 'u'.toUInt8 ::
          (high ++ '\\'.toUInt8 :: 'u'.toUInt8 :: (low ++ raw)))
        (utf8 (surrogatePair m n) ++ s)

/-- A string literal. -/
def quoted (raw : Bytes) : Bytes := '"'.toUInt8 :: (raw ++ ['"'.toUInt8])

-- ---------------------------------------------------------------------------
-- Numbers
-- ---------------------------------------------------------------------------

def isDecimal (b : UInt8) : Bool := '0'.toUInt8 ≤ b && b ≤ '9'.toUInt8

/-- The value of decimal digits that come after digits of the value `n`. -/
def decimalValue (n : Nat) (digits : Bytes) : Nat :=
  digits.foldl (fun n b => 10 * n + (b.toNat - '0'.toNat)) n

/-- One decimal digit or more. -/
structure Decimals (digits : Bytes) : Prop where
  ne_nil : digits ≠ []
  isDecimal : ∀ b ∈ digits, isDecimal b = true

/-- The exponent of a number literal: its letter, its sign if it has one, and its
digits. -/
structure Exponent where
  letter : UInt8
  sign : Option UInt8
  digits : Bytes

/-- A number literal. -/
structure Literal where
  negative : Bool
  digits : Bytes
  fraction : Option Bytes
  exponent : Option Exponent

def Exponent.text (e : Exponent) : Bytes := e.letter :: (e.sign.toList ++ e.digits)

/-- The minus sign of a literal, if it has one. -/
def Literal.minus (l : Literal) : Bytes := if l.negative then ['-'.toUInt8] else []

/-- The fraction of a literal with its point, if it has one. -/
def Literal.fractionText (l : Literal) : Bytes :=
  match l.fraction with
  | some digits => '.'.toUInt8 :: digits
  | none => []

def Literal.exponentText (l : Literal) : Bytes :=
  match l.exponent with
  | some e => e.text
  | none => []

def Literal.text (l : Literal) : Bytes :=
  l.minus ++ (l.digits ++ (l.fractionText ++ l.exponentText))

/-- The form of a number literal: no leading zero, and digits wherever there is a
place for them. -/
structure Literal.WellFormed (l : Literal) : Prop where
  digits : Decimals l.digits
  leading : l.digits = ['0'.toUInt8] ∨ l.digits.head? ≠ some '0'.toUInt8
  fraction : ∀ digits ∈ l.fraction, Decimals digits
  exponent : ∀ e ∈ l.exponent, Decimals e.digits ∧
    (e.letter = 'e'.toUInt8 ∨ e.letter = 'E'.toUInt8) ∧
    ∀ sign ∈ e.sign, sign = '+'.toUInt8 ∨ sign = '-'.toUInt8

/-- The literal has no fraction and no exponent. -/
def Literal.integral (l : Literal) : Bool := l.fraction.isNone && l.exponent.isNone

/-- The integer types that a number is tried with, and the number in the first that
holds it. -/
def integerNumber (negative : Bool) (n : Nat) : Option JsonNumber :=
  if negative then
    if n ≤ 2147483648 then some (.int (-n))
    else if n ≤ 9223372036854775808 then some (.int64 (-n))
    else none
  else if n ≤ 4294967295 then some (.uint n)
  else if n ≤ 18446744073709551615 then some (.uint64 n)
  else none

/-- What a literal stands for: an integer literal the integer, if a type holds it,
every other literal a double, `none` if no double is near it. -/
def Literal.number (double : Literal → Option UInt64) (l : Literal) : Option JsonNumber :=
  match if l.integral then integerNumber l.negative (decimalValue 0 l.digits) else none with
  | some n => some n
  | none => (double l).map .double

-- ---------------------------------------------------------------------------
-- Values
-- ---------------------------------------------------------------------------

/-- What the grammar leaves open. -/
structure Dialect where
  double : Literal → Option UInt64     -- the double that a literal is read as
  trailingCommas : Bool                -- a comma may follow the last element or member

/-- What a derivation is of. -/
inductive Shape where
  | value (v : Json)
  | elements (vs : List Json)
  | member (key : Bytes) (v : Json)
  | members (ms : List (Bytes × Json))

/-- The texts of values, of the elements of arrays, of a member and of the members of
objects. -/
inductive Derives (D : Dialect) : Bytes → Shape → Prop where
  | null : Derives D (ascii "null") (.value .null)
  | true : Derives D (ascii "true") (.value (.bool true))
  | false : Derives D (ascii "false") (.value (.bool false))
  | number {l : Literal} {n : JsonNumber} (hl : l.WellFormed) (hn : l.number D.double = some n) :
      Derives D l.text (.value (.number n))
  | string {raw s : Bytes} (h : Chars raw s) : Derives D (quoted raw) (.value (.string s))
  | emptyArray {gap : Bytes} (h : Blank gap) :
      Derives D ('['.toUInt8 :: (gap ++ [']'.toUInt8])) (.value (.array []))
  | array {gap text : Bytes} {vs : List Json} (h : Blank gap)
      (hvs : Derives D text (.elements vs)) :
      Derives D ('['.toUInt8 :: (gap ++ (text ++ [']'.toUInt8]))) (.value (.array vs))
  | emptyObject {gap : Bytes} (h : Blank gap) :
      Derives D ('{'.toUInt8 :: (gap ++ ['}'.toUInt8])) (.value (.object []))
  | object {gap text : Bytes} {ms : List (Bytes × Json)} (h : Blank gap)
      (hms : Derives D text (.members ms)) :
      Derives D ('{'.toUInt8 :: (gap ++ (text ++ ['}'.toUInt8]))) (.value (.object ms))
  | lastElement {text gap : Bytes} {v : Json} (hv : Derives D text (.value v)) (h : Blank gap) :
      Derives D (text ++ gap) (.elements [v])
  | trailingElement {text gap gap₂ : Bytes} {v : Json} (ht : D.trailingCommas = true)
      (hv : Derives D text (.value v)) (h : Blank gap) (h₂ : Blank gap₂) :
      Derives D (text ++ (gap ++ ','.toUInt8 :: gap₂)) (.elements [v])
  | consElement {text gap gap₂ texts : Bytes} {v : Json} {vs : List Json}
      (hv : Derives D text (.value v)) (h : Blank gap) (h₂ : Blank gap₂)
      (hvs : Derives D texts (.elements vs)) :
      Derives D (text ++ (gap ++ ','.toUInt8 :: (gap₂ ++ texts))) (.elements (v :: vs))
  | member {raw key gap gap₂ text : Bytes} {v : Json} (hkey : Chars raw key) (h : Blank gap)
      (h₂ : Blank gap₂) (hv : Derives D text (.value v)) :
      Derives D (quoted raw ++ (gap ++ ':'.toUInt8 :: (gap₂ ++ text))) (.member key v)
  | lastMember {text gap key : Bytes} {v : Json} (hm : Derives D text (.member key v))
      (h : Blank gap) : Derives D (text ++ gap) (.members [(key, v)])
  | trailingMember {text gap gap₂ key : Bytes} {v : Json} (ht : D.trailingCommas = true)
      (hm : Derives D text (.member key v)) (h : Blank gap) (h₂ : Blank gap₂) :
      Derives D (text ++ (gap ++ ','.toUInt8 :: gap₂)) (.members [(key, v)])
  | consMember {text gap gap₂ texts key : Bytes} {v : Json} {ms : List (Bytes × Json)}
      (hm : Derives D text (.member key v)) (h : Blank gap) (h₂ : Blank gap₂)
      (hms : Derives D texts (.members ms)) :
      Derives D (text ++ (gap ++ ','.toUInt8 :: (gap₂ ++ texts))) (.members ((key, v) :: ms))

/-- The text denotes the document `root`. -/
def JsonText (D : Dialect) (text : Bytes) (root : Json) : Prop :=
  ∃ gap body gap', Blank gap ∧ Derives D body (.value root) ∧ Blank gap' ∧
    text = gap ++ (body ++ gap')

-- ---------------------------------------------------------------------------
-- No text has a NUL in it
-- ---------------------------------------------------------------------------

/-- A text without a NUL. -/
def NoNul (text : Bytes) : Prop := ∀ b ∈ text, b ≠ 0

@[simp] theorem noNul_nil : NoNul [] := fun _ hb => absurd hb List.not_mem_nil

@[simp] theorem noNul_cons {b : UInt8} {text : Bytes} :
    NoNul (b :: text) ↔ b ≠ 0 ∧ NoNul text := List.forall_mem_cons

@[simp] theorem noNul_append {text text' : Bytes} :
    NoNul (text ++ text') ↔ NoNul text ∧ NoNul text' := List.forall_mem_append

theorem noNul_of_all {text : Bytes} (h : text.all (· != 0) = true) : NoNul text := by
  intro b hb
  simpa using List.all_eq_true.mp h b hb

theorem Blank.noNul {gap : Bytes} (h : Blank gap) : NoNul gap := by
  rintro _ hb rfl
  cases h 0 hb

theorem Decimals.noNul {digits : Bytes} (h : Decimals digits) : NoNul digits := by
  rintro _ hb rfl
  cases h.isDecimal 0 hb

theorem noNul_of_hexValue {n m : Nat} {digits : Bytes} (h : hexValue n digits = some m) :
    NoNul digits := by
  induction digits generalizing n with
  | nil => exact noNul_nil
  | cons b digits ih =>
    rw [hexValue] at h
    cases hb : hexDigit b with
    | none =>
      rw [hb] at h
      cases h
    | some d =>
      rw [hb] at h
      refine noNul_cons.mpr ⟨?_, ih h⟩
      rintro rfl
      cases hb

theorem Chars.noNul {raw str : Bytes} (h : Chars raw str) : NoNul raw := by
  induction h with
  | nil => exact noNul_nil
  | unescaped hb h ih =>
    refine noNul_cons.mpr ⟨?_, ih⟩
    rintro rfl
    cases hb
  | escaped hb h ih =>
    refine noNul_cons.mpr ⟨by decide, noNul_cons.mpr ⟨?_, ih⟩⟩
    rintro rfl
    cases hb
  | unicode hdigits hn h ih =>
    have := noNul_of_hexValue hdigits.2
    simp [Char.toUInt8, this, ih]
  | pair hhigh hm hlow hn h ih =>
    have := noNul_of_hexValue hhigh.2
    have := noNul_of_hexValue hlow.2
    simp [Char.toUInt8, *]

theorem Literal.WellFormed.noNul {l : Literal} (h : l.WellFormed) : NoNul l.text := by
  have hminus : NoNul l.minus := by
    rw [minus]
    split
    · simp [Char.toUInt8]
    · exact noNul_nil
  have hfraction : NoNul l.fractionText := by
    rw [fractionText]
    split
    case h_1 digits hdigits => simp [Char.toUInt8, (h.fraction digits hdigits).noNul]
    case h_2 => exact noNul_nil
  have hexponent : NoNul l.exponentText := by
    rw [exponentText]
    split
    case h_1 e he =>
      obtain ⟨hdigits, hletter, hsign⟩ := h.exponent e he
      have hsigns : NoNul e.sign.toList := by
        intro b hb
        obtain rfl | rfl := hsign b (by simpa using hb)
        · decide
        · decide
      have hletter : e.letter ≠ 0 := by
        obtain heq | heq := hletter
        · rw [heq]
          decide
        · rw [heq]
          decide
      rw [Exponent.text]
      simp [hletter, hsigns, hdigits.noNul]
    case h_2 => exact noNul_nil
  rw [text]
  simp [hminus, h.digits.noNul, hfraction, hexponent]

/-- No text has a NUL in it. -/
theorem Derives.noNul {D : Dialect} {text : Bytes} {shape : Shape} (h : Derives D text shape) :
    NoNul text := by
  induction h with
  | null => exact noNul_of_all rfl
  | true => exact noNul_of_all rfl
  | false => exact noNul_of_all rfl
  | number hl hn => exact hl.noNul
  | string h => simp [Char.toUInt8, quoted, h.noNul]
  | emptyArray h => simp [Char.toUInt8, h.noNul]
  | array h hvs ih => simp [Char.toUInt8, h.noNul, ih]
  | emptyObject h => simp [Char.toUInt8, h.noNul]
  | object h hms ih => simp [Char.toUInt8, h.noNul, ih]
  | lastElement hv h ih => simp [h.noNul, ih]
  | trailingElement ht hv h h₂ ih => simp [Char.toUInt8, h.noNul, h₂.noNul, ih]
  | consElement hv h h₂ hvs ih ih' => simp [Char.toUInt8, h.noNul, h₂.noNul, ih, ih']
  | member hkey h h₂ hv ih => simp [Char.toUInt8, quoted, hkey.noNul, h.noNul, h₂.noNul, ih]
  | lastMember hm h ih => simp [h.noNul, ih]
  | trailingMember ht hm h h₂ ih => simp [Char.toUInt8, h.noNul, h₂.noNul, ih]
  | consMember hm h h₂ hms ih ih' => simp [Char.toUInt8, h.noNul, h₂.noNul, ih, ih']

theorem JsonText.noNul {D : Dialect} {text : Bytes} {root : Json} (h : JsonText D text root) :
    NoNul text := by
  obtain ⟨gap, body, gap', hgap, hbody, hgap', rfl⟩ := h
  simp [hgap.noNul, hbody.noNul, hgap'.noNul]

-- ---------------------------------------------------------------------------
-- Every number comes from a literal
-- ---------------------------------------------------------------------------

/-- The events of what a derivation is of. -/
def Shape.events : Shape → List SaxEvent
  | value v => v.events
  | elements vs => elementEvents vs
  | member key v => .key key :: v.events
  | members ms => memberEvents ms

/-- Every number comes from a literal. -/
theorem Derives.literal {D : Dialect} {text : Bytes} {shape : Shape} (h : Derives D text shape)
    {n : JsonNumber} (hn : .number n ∈ shape.events) :
    ∃ l : Literal, l.WellFormed ∧ l.number D.double = some n := by
  induction h with
  | null => simp [Shape.events, Json.events] at hn
  | true => simp [Shape.events, Json.events] at hn
  | false => simp [Shape.events, Json.events] at hn
  | @number l m hl hm =>
    obtain rfl : n = m := by simpa [Shape.events, Json.events] using hn
    exact ⟨l, hl, hm⟩
  | string h => simp [Shape.events, Json.events] at hn
  | emptyArray h => simp [Shape.events, Json.events, elementEvents] at hn
  | array h hvs ih => exact ih (by simpa [Shape.events, Json.events] using hn)
  | emptyObject h => simp [Shape.events, Json.events, memberEvents] at hn
  | object h hms ih => exact ih (by simpa [Shape.events, Json.events] using hn)
  | lastElement hv h ih => exact ih (by simpa [Shape.events, elementEvents] using hn)
  | trailingElement ht hv h h₂ ih => exact ih (by simpa [Shape.events, elementEvents] using hn)
  | consElement hv h h₂ hvs ih ih' =>
    obtain hn | hn := List.mem_append.mp hn
    · exact ih hn
    · exact ih' hn
  | member hkey h h₂ hv ih => exact ih (by simpa [Shape.events] using hn)
  | lastMember hm h ih => exact ih (by simpa [Shape.events, memberEvents] using hn)
  | trailingMember ht hm h h₂ ih => exact ih (by simpa [Shape.events, memberEvents] using hn)
  | @consMember text gap gap₂ texts key v ms hm h h₂ hms ih ih' =>
    obtain hn | hn := List.mem_append.mp
      (show _ ∈ (.key key :: v.events) ++ memberEvents ms from hn)
    · exact ih hn
    · exact ih' hn

end Library
