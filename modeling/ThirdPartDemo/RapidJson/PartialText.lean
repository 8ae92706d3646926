import ThirdPartDemo.RapidJson.Dom
import ThirdPartDemo.RapidJson.Grammar
import ThirdPartDemo.RapidJson.Writer

/-!
# RapidJSON — the text of a document so far

What is written of a document while arrays and objects are open: `Partial` says what
the text of the open frames is, and it is extended as the outline of the document is,
with a value, with a name, with the end of an array or object. At the end it is a JSON
text.

* `chars_flatMap`, `rereads_integer`, `rereads_double` — strings and numbers are read back;
* `Partial.put`, `Partial.putName`, `Partial.closeArray`, `Partial.closeObject` — how the
  text goes on.
-/

namespace RapidJson

open Library RapidJson.GenericReader

-- ---------------------------------------------------------------------------
-- Strings
-- ---------------------------------------------------------------------------

/-- The digits of an escaped control character. -/
def hexText (c : UInt8) : Bytes :=
  ['0'.toUInt8, '0'.toUInt8, Writer.hexDigits (c >>> 4), Writer.hexDigits (c &&& 0xF)]

/-- A character is written as it is, after a backslash, or by its number. -/
theorem writeChar_cases (c : UInt8) :
    (Writer.writeChar c = [c] ∧ isUnescaped c = true) ∨
    (Writer.writeChar c = ['\\'.toUInt8, Writer.escape c] ∧
      unescape (Writer.escape c) = some c) ∨
    (Writer.writeChar c = '\\'.toUInt8 :: 'u'.toUInt8 :: hexText c ∧
      hexValue 0 (hexText c) = some c.toNat ∧ c.toNat < 0x20) := by
  have hall : ∀ n : Nat, n < 256 →
      (Writer.writeChar n.toUInt8 = [n.toUInt8] ∧ isUnescaped n.toUInt8 = true) ∨
      (Writer.writeChar n.toUInt8 = ['\\'.toUInt8, Writer.escape n.toUInt8] ∧
        unescape (Writer.escape n.toUInt8) = some n.toUInt8) ∨
      (Writer.writeChar n.toUInt8 = '\\'.toUInt8 :: 'u'.toUInt8 :: hexText n.toUInt8 ∧
        hexValue 0 (hexText n.toUInt8) = some n.toUInt8.toNat ∧ n.toUInt8.toNat < 0x20) := by
    decide +kernel
  have hc : c.toNat.toUInt8 = c := UInt8.ofNat_toNat
  have := hall c.toNat c.toNat_lt
  rwa [hc] at this

/-- What is written for a character is read as the character. -/
theorem chars_writeChar (c : UInt8) {raw s : Bytes} (h : Chars raw s) :
    Chars (Writer.writeChar c ++ raw) (c :: s) := by
  obtain ⟨hwrite, hunescaped⟩ | ⟨hwrite, hescaped⟩ | ⟨hwrite, hhex, hlt⟩ := writeChar_cases c
  all_goals rw [hwrite]
  · exact .unescaped hunescaped h
  · exact .escaped hescaped h
  · have hlow : ¬ HighSurrogate c.toNat := fun hhigh => by
      unfold HighSurrogate at hhigh
      omega
    have hc : c.toNat.toUInt8 = c := UInt8.ofNat_toNat
    have hunicode := Chars.unicode ⟨rfl, hhex⟩ hlow h
    rw [utf8, if_pos (by omega), hc] at hunicode
    exact hunicode

theorem chars_flatMap (str : Bytes) : Chars (str.flatMap Writer.writeChar) str := by
  induction str with
  | nil => exact .nil
  | cons c str ih =>
    rw [List.flatMap_cons]
    exact chars_writeChar c ih

-- ---------------------------------------------------------------------------
-- Numbers
-- ---------------------------------------------------------------------------

variable {D : Dialect} {Grisu2 : BitVec 64 → Bytes × Int} {maxDecimalPlaces : Int}

/-- `n` is written as a literal that stands for `n'`. -/
def Rereads (D : Dialect) (Grisu2 : BitVec 64 → Bytes × Int) (maxDecimalPlaces : Int)
    (n n' : JsonNumber) : Prop :=
  Writer.refuses n = false ∧ ∃ l : Literal, l.WellFormed ∧
    Writer.writeNumber Grisu2 maxDecimalPlaces n = some l.text ∧ l.number D.double = some n'

theorem refuses_integer {n : JsonNumber} {i : Int} (hi : integerOf n = some i) :
    Writer.refuses n = false := by
  cases n with
  | double bits => cases hi
  | _ => rfl

/-- An integer is written as its literal. -/
theorem writeNumber_integer {n : JsonNumber} (hn : Fits n) {i : Int} (hi : integerOf n = some i) :
    Writer.writeNumber Grisu2 maxDecimalPlaces n =
      some (Literal.ofInt (decide (i < 0)) i.natAbs).text := by
  have hnat : ∀ k : Nat,
      decimal k = (Literal.ofInt (decide ((k : Int) < 0)) (k : Int).natAbs).text := by
    intro k
    have hneg : decide ((k : Int) < 0) = false := decide_eq_false (by omega)
    rw [hneg, Literal.ofInt_text, Int.natAbs_natCast]
    rfl
  have hint : ∀ i : Int, (if i < 0 then ['-'.toUInt8] else []) ++ decimal i.natAbs =
      (Literal.ofInt (decide (i < 0)) i.natAbs).text := by
    intro i
    rw [Literal.ofInt_text]
    simp only [decide_eq_true_eq]
  cases n with
  | int j =>
    cases hi
    rw [Writer.writeNumber, i32toa_eq hn, hint]
  | uint k =>
    cases hi
    rw [Writer.writeNumber, u32toa_eq (Nat.lt_succ_of_le hn), hnat]
  | int64 j =>
    cases hi
    rw [Writer.writeNumber, i64toa_eq hn, hint]
  | uint64 k =>
    cases hi
    rw [Writer.writeNumber, u64toa_eq (Nat.lt_succ_of_le hn), hnat]
  | double bits => cases hi

/-- The number that the reader makes of the text of a number. -/
def reread (n : JsonNumber) : JsonNumber :=
  match integerOf n with
  | some i => (integerNumber (decide (i < 0)) i.natAbs).getD n
  | none => n

/-- The reader has a type for every integer that the writer writes. -/
theorem integerNumber_integerOf {n : JsonNumber} (hn : Fits n) {i : Int}
    (hi : integerOf n = some i) : integerNumber (decide (i < 0)) i.natAbs = some (reread n) ∧
      Fits (reread n) ∧ integerOf (reread n) = some i := by
  have hrange := Number.integerOf_range hn hi
  have hsome : ∃ n', integerNumber (decide (i < 0)) i.natAbs = some n' ∧ Fits n' ∧
      integerOf n' = some i := by
    by_cases hneg : i < 0
    · rw [decide_eq_true hneg, integerNumber, if_pos rfl]
      by_cases hint : i.natAbs ≤ 2147483648
      · rw [if_pos hint]
        refine ⟨_, rfl, ⟨by omega, by omega⟩, ?_⟩
        exact congrArg some (by omega)
      · rw [if_neg hint, if_pos (by omega)]
        refine ⟨_, rfl, ⟨by omega, by omega⟩, ?_⟩
        exact congrArg some (by omega)
    · rw [decide_eq_false hneg, integerNumber, if_neg Bool.false_ne_true]
      by_cases huint : i.natAbs ≤ 4294967295
      · rw [if_pos huint]
        refine ⟨_, rfl, huint, ?_⟩
        exact congrArg some (by omega)
      · rw [if_neg huint, if_pos (by omega)]
        refine ⟨_, rfl, ?_, ?_⟩
        · unfold Fits
          omega
        · exact congrArg some (by omega)
  obtain ⟨n', hn', hfits, hinteger⟩ := hsome
  have hreread : reread n = n' := by
    rw [reread, hi]
    dsimp only
    rw [hn', Option.getD_some]
  rw [hreread]
  exact ⟨hn', hfits, hinteger⟩

theorem rereads_integer {n : JsonNumber} (hn : Fits n) {i : Int} (hi : integerOf n = some i) :
    Rereads D Grisu2 maxDecimalPlaces n (reread n) :=
  ⟨refuses_integer hi, _, Literal.ofInt_wellFormed _ _, writeNumber_integer hn hi,
    Literal.ofInt_number (integerNumber_integerOf hn hi).1 D.double⟩

/-- What the typed handler functions of a writer take: a number in the range of its type,
no infinity and no NaN. -/
def Writable (n : JsonNumber) : Prop :=
  Fits n ∧ ∀ bits, n = .double bits → Double.IsNanOrInf bits.toBitVec = false

/-- Every literal with a fraction or an exponent is well formed, and `meaning` says which
double its text is. -/
def dialectOf (meaning : Bytes → UInt64) : Dialect :=
  { double := fun l => some (meaning l.text), trailingCommas := false }

/-- The number that the text of a number stands for: the same integer, or what the literal
that `dtoa` writes is by `meaning`. -/
def written (Grisu2 : BitVec 64 → Bytes × Int) (maxDecimalPlaces : Int)
    (meaning : Bytes → UInt64) : JsonNumber → JsonNumber
  | .double bits => .double (((dtoa Grisu2 bits.toBitVec maxDecimalPlaces).map meaning).getD bits)
  | n => reread n

/-- A finite double is written as a literal that stands for a double. -/
theorem rereads_double (hGrisu2 : FindsDigits Grisu2) (hplaces : maxDecimalPlaces ≥ 1)
    {bits : UInt64} (hfinite : Double.IsNanOrInf bits.toBitVec = false) {bits' : UInt64}
    (h : ∀ l : Literal, l.WellFormed → l.integral = false →
      dtoa Grisu2 bits.toBitVec maxDecimalPlaces = some l.text → D.double l = some bits') :
    Rereads D Grisu2 maxDecimalPlaces (.double bits) (.double bits') := by
  obtain ⟨l, hl, hintegral, -, htext⟩ := dtoa_literal hGrisu2 hfinite hplaces
  refine ⟨hfinite, l, hl, htext, ?_⟩
  rw [Literal.number, hintegral, if_neg Bool.false_ne_true]
  dsimp only
  rw [h l hl hintegral htext, Option.map_some]

theorem rereads_written (hGrisu2 : FindsDigits Grisu2) (hplaces : maxDecimalPlaces ≥ 1)
    (meaning : Bytes → UInt64) {n : JsonNumber} (hn : Writable n) :
    Rereads (dialectOf meaning) Grisu2 maxDecimalPlaces n
      (written Grisu2 maxDecimalPlaces meaning n) := by
  cases n with
  | int i => exact rereads_integer hn.1 rfl
  | uint u => exact rereads_integer hn.1 rfl
  | int64 i => exact rereads_integer hn.1 rfl
  | uint64 u => exact rereads_integer hn.1 rfl
  | double bits =>
    refine rereads_double hGrisu2 hplaces (hn.2 bits rfl) fun l _ _ htext => ?_
    rw [htext]
    rfl

section Lists

variable {α : Type} {Item : Bytes → α → Prop}

/-- A comma, unless nothing comes before it. -/
def comma (as : List α) : Bytes := if as.isEmpty then [] else [','.toUInt8]

/-- The text of the items so far of a list that goes on. -/
inductive ListSoFar (Item : Bytes → α → Prop) : Bytes → List α → Prop where
  | nil : ListSoFar Item [] []
  | snoc {text gap gap' t : Bytes} {as : List α} {a : α} (h : ListSoFar Item text as)
      (hgap : Blank gap) (hgap' : Blank gap') (ht : Item t a) :
      ListSoFar Item (text ++ (gap ++ (comma as ++ (gap' ++ t)))) (as ++ [a])

theorem blank_nil : Blank [] := fun _ hb => absurd hb List.not_mem_nil

theorem blank_append {gap gap' : Bytes} (h : Blank gap) (h' : Blank gap') : Blank (gap ++ gap') :=
  fun b hb => (List.mem_append.mp hb).elim (h b) (h' b)

theorem ListSoFar.text_eq_nil {text : Bytes} {as : List α} (h : ListSoFar Item text as)
    (has : as = []) : text = [] := by
  cases h with
  | nil => rfl
  | snoc => exact absurd has (List.append_ne_nil_of_right_ne_nil _ (List.cons_ne_nil _ _))

/-- The items so far are a list, by themselves and in front of others. -/
theorem ListSoFar.items (Items : Bytes → List α → Prop)
    (hlast : ∀ {text gap a}, Item text a → Blank gap → Items (text ++ gap) [a])
    (hcons : ∀ {text gap gap' texts a as}, Item text a → Blank gap → Blank gap' →
      Items texts as → Items (text ++ (gap ++ ','.toUInt8 :: (gap' ++ texts))) (a :: as))
    {text : Bytes} {as : List α} (h : ListSoFar Item text as) (has : as ≠ []) :
    ∃ gap body, Blank gap ∧ text = gap ++ body ∧
      (∀ g, Blank g → Items (body ++ g) as) ∧
      ∀ g g' tail bs, Blank g → Blank g' → Items tail bs →
        Items (body ++ (g ++ ','.toUInt8 :: (g' ++ tail))) (as ++ bs) := by
  induction h with
  | nil => exact absurd rfl has
  | @snoc text gap gap' t as a h hgap hgap' ht ih =>
    by_cases hnil : as = []
    · subst hnil
      refine ⟨gap ++ gap', t, blank_append hgap hgap', ?_, fun g hg => hlast ht hg,
        fun g g' tail bs hg hg' hbs => hcons ht hg hg' hbs⟩
      rw [h.text_eq_nil rfl, List.nil_append, List.append_assoc]
      rfl
    · obtain ⟨gap₀, body, hgap₀, rfl, -, hitems⟩ := ih hnil
      have hcomma : comma as = [','.toUInt8] := by
        rw [comma, if_neg (by simpa using hnil)]
      rw [hcomma]
      refine ⟨gap₀, body ++ (gap ++ ','.toUInt8 :: (gap' ++ t)), hgap₀, by simp, fun g hg => ?_,
        fun g g' tail bs hg hg' hbs => ?_⟩
      · have := hitems gap gap' (t ++ g) [a] hgap hgap' (hlast ht hg)
        simpa using this
      · have := hitems gap gap' _ (a :: bs) hgap hgap' (hcons ht hg hg' hbs)
        simpa using this

end Lists

-- ---------------------------------------------------------------------------
-- Documents so far
-- ---------------------------------------------------------------------------

/-- The level of a frame. -/
def levelOf : Frame → Level
  | .array vs => ⟨vs.length, true⟩
  | .object ms none => ⟨2 * ms.length, false⟩
  | .object ms (some _) => ⟨2 * ms.length + 1, false⟩

/-- What has to stand between two values on a level. -/
def separator (level : Level) : Bytes :=
  if level.valueCount = 0 then []
  else if level.inArray ∨ level.valueCount % 2 = 0 then [','.toUInt8]
  else [':'.toUInt8]

/-- A layout puts what has to stand there, and white space. -/
structure Layout.Spaces (layout : Layout) : Prop where
  before : ∀ depth level, ∃ gap gap', Blank gap ∧ Blank gap' ∧
    layout.before depth level = gap ++ (separator level ++ gap')
  beforeEnd : ∀ depth inArray, Blank (layout.beforeEnd depth inArray)

/-- What stands in front of the next value. -/
def Separates (frames : List Frame) (sep : Bytes) : Prop :=
  match frames with
  | [] => sep = []
  | frame :: _ => ∃ gap gap', Blank gap ∧ Blank gap' ∧
      sep = gap ++ (separator (levelOf frame) ++ gap')

variable (D : Dialect)

/-- The text of a value. -/
def Element (text : Bytes) (v : Json) : Prop := Derives D text (.value v)

/-- The text of the elements of an array. -/
def Elements (text : Bytes) (vs : List Json) : Prop := Derives D text (.elements vs)

/-- The text of a member. -/
def Member (text : Bytes) (m : Bytes × Json) : Prop :=
  Derives D text (.member m.1 m.2)

/-- The text of the members of an object. -/
def Members (text : Bytes) (ms : List (Bytes × Json)) : Prop := Derives D text (.members ms)

/-- The text so far of a document whose open arrays and objects are `frames`. -/
inductive Partial : List Frame → Bytes → Prop where
  | start : Partial [] []
  | array {frames : List Frame} {out sep text : Bytes} {vs : List Json} (h : Partial frames out)
      (hsep : Separates frames sep) (hvs : ListSoFar (Element D) text vs) :
      Partial (.array vs :: frames) (out ++ (sep ++ '['.toUInt8 :: text))
  | object {frames : List Frame} {out sep text : Bytes} {ms : List (Bytes × Json)}
      (h : Partial frames out) (hsep : Separates frames sep)
      (hms : ListSoFar (Member D) text ms) :
      Partial (.object ms none :: frames) (out ++ (sep ++ '{'.toUInt8 :: text))
  | name {frames : List Frame} {out sep text gap gap' raw name : Bytes}
      {ms : List (Bytes × Json)} (h : Partial frames out) (hsep : Separates frames sep)
      (hms : ListSoFar (Member D) text ms) (hgap : Blank gap) (hgap' : Blank gap')
      (hname : Chars raw name) :
      Partial (.object ms (some name) :: frames)
        (out ++ (sep ++ '{'.toUInt8 :: (text ++ (gap ++ (comma ms ++ (gap' ++ quoted raw))))))

/-- What has been written for an outline. -/
def Describes (text : Bytes) : Outline → Prop
  | .building frames => Partial D frames text
  | .complete root => JsonText D text root

variable {D}

theorem separator_array (vs : List Json) : separator (levelOf (.array vs)) = comma vs := by
  cases vs with
  | nil => rfl
  | cons v vs => rfl

theorem separator_object (ms : List (Bytes × Json)) :
    separator (levelOf (.object ms none)) = comma ms := by
  cases ms with
  | nil => rfl
  | cons m ms =>
    have heven : 2 * (ms.length + 1) % 2 = 0 := by omega
    rw [levelOf, separator, List.length_cons]
    dsimp only
    rw [if_neg (by omega), if_pos (.inr heven)]
    rfl

theorem separator_name (ms : List (Bytes × Json)) (name : Bytes) :
    separator (levelOf (.object ms (some name))) = [':'.toUInt8] := by
  have hodd : (2 * ms.length + 1) % 2 = 1 := by omega
  rw [levelOf, separator]
  dsimp only
  rw [if_neg (by omega), if_neg (by simp [hodd])]

/-- The text of a value extends what has been written. -/
theorem Partial.put {frames : List Frame} {out sep text : Bytes} {v : Json} {o : Outline}
    (h : Partial D frames out) (hsep : Separates frames sep)
    (hv : Derives D text (.value v))
    (ho : (Outline.building frames).put v = some o) : Describes D (out ++ (sep ++ text)) o := by
  cases h with
  | start =>
    cases ho
    rw [show sep = [] from hsep]
    exact ⟨[], text, [], blank_nil, hv, blank_nil, by simp⟩
  | @array frames out sep₀ t vs h hsep₀ hvs =>
    cases ho
    obtain ⟨gap, gap', hgap, hgap', rfl⟩ := hsep
    rw [separator_array]
    have := Partial.array h hsep₀ (hvs.snoc hgap hgap' hv)
    simpa [Describes] using this
  | object => cases ho
  | @name frames out sep₀ t g g' raw name ms h hsep₀ hms hg hg' hname =>
    cases ho
    obtain ⟨gap, gap', hgap, hgap', rfl⟩ := hsep
    rw [separator_name]
    have hmember : Member D (quoted raw ++ (gap ++ ':'.toUInt8 :: (gap' ++ text))) (name, v) :=
      .member hname hgap hgap' hv
    have := Partial.object h hsep₀ (hms.snoc hg hg' hmember)
    simpa [Describes] using this

/-- The name of a member extends what has been written. -/
theorem Partial.putName {frames : List Frame} {ms : List (Bytes × Json)} {out sep raw name : Bytes}
    (h : Partial D (.object ms none :: frames) out)
    (hsep : Separates (.object ms none :: frames) sep) (hname : Chars raw name) :
    Partial D (.object ms (some name) :: frames) (out ++ (sep ++ quoted raw)) := by
  cases h with
  | @object frames out sep₀ t ms h hsep₀ hms =>
    obtain ⟨gap, gap', hgap, hgap', rfl⟩ := hsep
    rw [separator_object]
    have := Partial.name h hsep₀ hms hgap hgap' hname
    simpa using this

/-- What has been written of an array, with its end, is the text of a value. -/
theorem Partial.closeArray {frames : List Frame} {vs : List Json} {out gap : Bytes}
    (h : Partial D (.array vs :: frames) out) (hgap : Blank gap) :
    ∃ out₀ sep text, Partial D frames out₀ ∧ Separates frames sep ∧
      Derives D text (.value (.array vs)) ∧
      out ++ (gap ++ [']'.toUInt8]) = out₀ ++ (sep ++ text) := by
  cases h with
  | @array frames out₀ sep t vs h hsep hvs =>
    by_cases hnil : vs = []
    · subst hnil
      refine ⟨out₀, sep, _, h, hsep, .emptyArray hgap, ?_⟩
      rw [hvs.text_eq_nil rfl]
      simp
    · obtain ⟨gap₀, body, hgap₀, rfl, hlast, -⟩ :=
        hvs.items (Elements D) .lastElement .consElement hnil
      refine ⟨out₀, sep, _, h, hsep, .array hgap₀ (hlast gap hgap), ?_⟩
      simp

/-- What has been written of an object, with its end, is the text of a value. -/
theorem Partial.closeObject {frames : List Frame} {ms : List (Bytes × Json)} {out gap : Bytes}
    (h : Partial D (.object ms none :: frames) out) (hgap : Blank gap) :
    ∃ out₀ sep text, Partial D frames out₀ ∧ Separates frames sep ∧
      Derives D text (.value (.object ms)) ∧
      out ++ (gap ++ ['}'.toUInt8]) = out₀ ++ (sep ++ text) := by
  cases h with
  | @object frames out₀ sep t ms h hsep hms =>
    by_cases hnil : ms = []
    · subst hnil
      refine ⟨out₀, sep, _, h, hsep, .emptyObject hgap, ?_⟩
      rw [hms.text_eq_nil rfl]
      simp
    · obtain ⟨gap₀, body, hgap₀, rfl, hlast, -⟩ :=
        hms.items (Members D) .lastMember .consMember hnil
      refine ⟨out₀, sep, _, h, hsep, .object hgap₀ (hlast gap hgap), ?_⟩
      simp

end RapidJson
