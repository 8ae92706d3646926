import ThirdPartDemo.RapidJson.Numbers
import ThirdPartDemo.RapidJson.Strings

/-!
# RapidJSON — the reader gets through every text

With comments and in-situ strings included, the reader ends on every text: each part
takes something off the text or reports an error, so the budgets of the model suffice. On
the way the memory keeps its size and the rest of the text is an end of it, every error is
reported at an offset inside the text or at its end, and an assertion fails only at a
literal of which the exponent overflows.

`Inside n` is that bound on an error, `MayAbort` says that there is such a literal, `Keeps`
and `Advances` what a part does to the stream, and `Script.Ensures` carries them through
the reader.

* `parseStream_ensures` — a whole parse.
-/

namespace RapidJson

open Library

namespace Stream

/-- The size of the memory. -/
def size (s : Stream) : Nat := s.passed.length + s.rest.length

/-- `s'` is a later state over the same memory. -/
def Keeps (s s' : Stream) : Prop := s'.size = s.size ∧ s'.rest <:+ s.rest

/-- `s'` is further on in the text. -/
def Advances (s s' : Stream) : Prop := s.Keeps s' ∧ s'.rest.length < s.rest.length

theorem Keeps.refl (s : Stream) : s.Keeps s := ⟨rfl, List.suffix_rfl⟩

theorem Keeps.trans {s s' s'' : Stream} (h : s.Keeps s') (h' : s'.Keeps s'') : s.Keeps s'' :=
  ⟨h'.1.trans h.1, h'.2.trans h.2⟩

theorem Keeps.length_le {s s' : Stream} (h : s.Keeps s') : s'.rest.length ≤ s.rest.length :=
  h.2.length_le

theorem Keeps.advances {s s' s'' : Stream} (h : s.Keeps s') (h' : s'.Advances s'') :
    s.Advances s'' := ⟨h.trans h'.1, Nat.lt_of_lt_of_le h'.2 h.length_le⟩

theorem Advances.keeps {s s' s'' : Stream} (h : s.Advances s') (h' : s'.Keeps s'') :
    s.Advances s'' := ⟨h.1.trans h', Nat.lt_of_le_of_lt h'.length_le h.2⟩

theorem Advances.toKeeps {s s' : Stream} (h : s.Advances s') : s.Keeps s' := h.1

theorem Passes.keeps {s s' : Stream} {t : Bytes} (h : s.Passes t s') : s.Keeps s' := by
  have hlength := h.length
  refine ⟨?_, t, h.rest.symm⟩
  rw [size, size, h.passed, List.length_append]
  omega

theorem Passes.advances {s s' : Stream} {t : Bytes} (h : s.Passes t s') (ht : t ≠ []) :
    s.Advances s' := by
  have hlength := h.length
  have hpos := List.length_pos_of_ne_nil ht
  exact ⟨h.keeps, by omega⟩

theorem tell_le_size (s : Stream) : s.Tell ≤ s.size := Nat.le_add_right _ _

theorem Keeps.tell_le {s s' : Stream} (h : s.Keeps s') : s'.Tell ≤ s.size :=
  Nat.le_trans (tell_le_size s') (Nat.le_of_eq h.1)

theorem take_passes_some (s : Stream) : ∃ t, s.Passes t s.Take := by
  cases h : s.rest with
  | nil =>
    unfold Take
    rw [h]
    exact ⟨[], Passes.refl s⟩
  | cons b rest => exact ⟨[b], take_passes h⟩

theorem take_keeps (s : Stream) : s.Keeps s.Take :=
  s.take_passes_some.elim fun _ h => h.keeps

theorem take_advances {s : Stream} {b : UInt8} (h : s.Peek = b) (hb : b ≠ 0) :
    s.Advances s.Take := by
  obtain ⟨rest, hrest⟩ := rest_of_peek h hb
  exact (take_passes hrest).advances (List.cons_ne_nil _ _)

theorem consume_advances {s s' : Stream} {b : UInt8} (h : s.Consume b = some s') (hb : b ≠ 0) :
    s.Advances s' := (consume_some h hb).advances (List.cons_ne_nil _ _)

/-- Writing behind the read position. -/
theorem put_keeps {s : Stream} (h : s.dst < s.passed.length) (c : UInt8) :
    s.Keeps (s.Put c) ∧ (s.Put c).dst = s.dst + 1 ∧
      (s.Put c).passed.length = s.passed.length := by
  unfold Put
  rw [if_pos h]
  refine ⟨⟨?_, List.suffix_rfl⟩, rfl, List.length_set⟩
  rw [size, size, List.length_set]

end Stream

namespace GenericReader

open RapidJson.Stream

/-- An error of the reader's own, reported in the text or at its end. -/
def Inside (n : Nat) (e : ParseError) : Prop := e.code ≠ .Termination ∧ e.offset ≤ n

/-- The error of a refused call, reported in the text or at its end. -/
def Refused (n : Nat) (e : ParseError) : Prop := e.code = .Termination ∧ e.offset ≤ n

/-- The text has a literal in it of which the exponent overflows. -/
def MayAbort (text : Bytes) : Prop :=
  ∃ l : Literal, l.WellFormed ∧ Overflows l ∧ l.text <:+: text

variable {flags : ParseFlags} {s₀ : Stream} {n : Nat}

theorem inside {code : ParseErrorCode} (hcode : code ≠ .Termination) {offset : Nat}
    (h : offset ≤ n) : Inside n ⟨code, offset⟩ := ⟨hcode, h⟩

theorem refused {offset : Nat} (h : offset ≤ n) : Refused n ⟨.Termination, offset⟩ := ⟨rfl, h⟩

-- ---------------------------------------------------------------------------
-- White space and comments
-- ---------------------------------------------------------------------------

theorem takeMany_keeps (k : Nat) (s : Stream) : s.Keeps (takeMany k s) := by
  refine Passes.keeps (t := s.rest.take k) ⟨?_, rfl, rfl, rfl⟩
  exact (List.take_append_drop k s.rest).symm

theorem skipWhitespace_keeps (s : Stream) : s.Keeps (SkipWhitespace s) := by
  refine Passes.keeps (t := s.rest.takeWhile isJsonSpace) ⟨?_, rfl, rfl, rfl⟩
  exact List.takeWhile_append_dropWhile.symm

theorem skipComments_ensures {A : Prop} {fuel : Nat} {s : Stream} (hs : s₀.Keeps s)
    (hfuel : s.rest.length < fuel) :
    (skipComments fuel s).Ensures A (Inside s₀.size) s.Keeps := by
  induction fuel generalizing s with
  | zero => exact absurd hfuel (Nat.not_lt_zero _)
  | succ fuel ih =>
    -- what follows a comment, from the stream after its first character
    have hnext : ∀ {s₁ s₂ : Stream}, s.Advances s₁ → s₁.Keeps s₂ → ∀ k,
        (skipComments fuel (SkipWhitespace (takeMany k s₂))).Ensures A (Inside s₀.size)
          s.Keeps := by
      intro s₁ s₂ h₁ h₂ k
      have h := (h₁.keeps h₂).keeps ((takeMany_keeps k s₂).trans (skipWhitespace_keeps _))
      exact (ih (hs.trans h.1) (Nat.lt_of_lt_of_le h.2 (Nat.le_of_lt_succ hfuel))).mono
        fun s' hs' => h.toKeeps.trans hs'
    rw [skipComments]
    cases hslash : s.Consume '/'.toUInt8 with
    | none => exact Keeps.refl s
    | some s₁ =>
      have h₁ := consume_advances hslash (by decide)
      dsimp only
      cases hstar : s₁.Consume '*'.toUInt8 with
      | some s₂ =>
        have h₂ := (consume_advances hstar (by decide)).toKeeps
        dsimp only
        cases hblock : blockComment s₂.rest with
        | some k => exact hnext h₁ h₂ k
        | none =>
          exact inside (by decide) (Nat.le_of_eq ((hs.trans h₁.1).trans h₂).1)
      | none =>
        dsimp only
        cases hslash₂ : s₁.Consume '/'.toUInt8 with
        | some s₂ => exact hnext h₁ (consume_advances hslash₂ (by decide)).toKeeps _
        | none =>
          exact inside (by decide) (hs.trans h₁.1).tell_le

theorem skipWhitespaceAndComments_ensures {A : Prop} {s : Stream} (hs : s₀.Keeps s) :
    (SkipWhitespaceAndComments flags s).Ensures A (Inside s₀.size) s.Keeps := by
  have hskip := skipWhitespace_keeps s
  unfold SkipWhitespaceAndComments
  dsimp only
  split
  · exact (skipComments_ensures (hs.trans hskip) (Nat.lt_succ_self _)).mono
      fun s' hs' => hskip.trans hs'
  · exact hskip

theorem skip_ensures {A : Prop} {s : Stream} (hs : s₀.Keeps s)
    {next : Stream → Script ParseError Stream} {P : Stream → Prop}
    (hnext : ∀ s', s.Keeps s' → (next s').Ensures A (Refused s₀.size) (Inside s₀.size) P) :
    (skip flags s next).Ensures A (Refused s₀.size) (Inside s₀.size) P :=
  (Script.ensures_lift (skipWhitespaceAndComments_ensures hs)).bind hnext

-- ---------------------------------------------------------------------------
-- Literals and strings
-- ---------------------------------------------------------------------------

theorem consumeAll_keeps (expect : Bytes) (hexpect : ∀ b ∈ expect, b ≠ 0) (s : Stream) :
    s.Keeps (consumeAll expect s).2 := by
  induction expect generalizing s with
  | nil => exact Keeps.refl s
  | cons b expect ih =>
    rw [consumeAll]
    cases h : s.Consume b with
    | none => exact Keeps.refl s
    | some s' =>
      exact (consume_advances h (hexpect b List.mem_cons_self)).toKeeps.trans
        (ih (fun c hc => hexpect c (List.mem_cons_of_mem _ hc)) s')

theorem parseLiteral_ensures {A : Prop} {b : UInt8} (hb : b ≠ 0) {tail : Bytes}
    (htail : ∀ b ∈ tail, b ≠ 0) (event : SaxEvent) {s : Stream} (hs : s₀.Keeps s)
    (hpeek : s.Peek = b) :
    (parseLiteral tail event s).Ensures A (Refused s₀.size) (Inside s₀.size) s.Advances := by
  have h := (take_advances hpeek hb).keeps (consumeAll_keeps tail htail s.Take)
  have htell := (hs.trans h.1).tell_le
  rw [parseLiteral]
  rcases hconsume : consumeAll tail s.Take with ⟨_ | _, s'⟩
  all_goals rw [hconsume] at h htell
  · exact Script.ensures_fail (inside (by decide) htell)
  · exact Script.ensures_call (refused htell) h

theorem hexRounds_ensures {A : Prop} {escapeOffset : Nat} (hoffset : escapeOffset ≤ n)
    (k acc : Nat) (s : Stream) :
    (hexRounds escapeOffset k acc s).Ensures A (Inside n) fun x => s.Keeps x.2 := by
  induction k generalizing acc s with
  | zero => exact Keeps.refl s
  | succ k ih =>
    rw [hexRounds]
    cases hexDigit s.Peek with
    | none => exact inside (by decide) hoffset
    | some d => exact (ih _ _).mono fun x hx => (take_keeps s).trans hx

theorem parseCodepoint_ensures {A : Prop} {escapeOffset : Nat} (hoffset : escapeOffset ≤ n)
    (s : Stream) :
    (parseCodepoint s escapeOffset).Ensures A (Inside n)
      fun x => ∃ t, s.Passes t x.2 ∧ 4 ≤ t.length := by
  have hkeeps : (parseCodepoint s escapeOffset).Ensures A (Inside n) fun x => s.Keeps x.2 := by
    refine (hexRounds_ensures hoffset 4 0 s).bind fun x hx => ?_
    dsimp only
    split
    · have hconsume := consumeAll_keeps ['\\'.toUInt8, 'u'.toUInt8]
        (List.all_iff_forall_prop.mp rfl) x.2
      rcases hall : consumeAll ['\\'.toUInt8, 'u'.toUInt8] x.2 with ⟨_ | _, s'⟩
      all_goals rw [hall] at hconsume
      · exact inside (by decide) hoffset
      · refine (hexRounds_ensures hoffset 4 0 s').bind fun y hy => ?_
        split
        · exact inside (by decide) hoffset
        · exact hx.trans (hconsume.trans hy)
    · exact hx
  refine hkeeps.imp_done fun x hx => ?_
  obtain ⟨digits, -, -, hpasses⟩ | ⟨high, low, m, n, -, -, -, -, -, hpasses⟩ :=
    parseCodepoint_sound hx
  · exact ⟨_, hpasses, parseCodepoint_length hx hpasses⟩
  · exact ⟨_, hpasses, parseCodepoint_length hx hpasses⟩

/-- With `kParseInsituFlag` there is room behind the read position for `k` characters. -/
def Room (flags : ParseFlags) (k : Nat) (s : Stream) : Prop :=
  flags.insitu = true → s.dst + k ≤ s.passed.length

theorem Room.passes {k : Nat} {s s' : Stream} {t : Bytes} (h : Room flags k s)
    (hpasses : s.Passes t s') : Room flags (k + t.length) s' := by
  intro hinsitu
  have := h hinsitu
  rw [hpasses.dst, hpasses.passed, List.length_append]
  omega

theorem Room.mono {j k : Nat} {s : Stream} (h : Room flags k s) (hjk : j ≤ k) : Room flags j s :=
  fun hinsitu => Nat.le_trans (Nat.add_le_add_left hjk _) (h hinsitu)

theorem put_keeps {k : Nat} {os : Stream × Bytes} (h : Room flags (k + 1) os.1) (c : UInt8) :
    os.1.Keeps (put flags os c).1 ∧ Room flags k (put flags os c).1 := by
  unfold put
  split
  case isTrue hinsitu =>
    have hroom := h hinsitu
    obtain ⟨hkeeps, hdst, hlength⟩ := Stream.put_keeps (s := os.1) (by omega) c
    refine ⟨hkeeps, fun _ => ?_⟩
    rw [hdst, hlength]
    omega
  case isFalse => exact ⟨Keeps.refl _, h.mono (Nat.le_succ k)⟩

theorem puts_keeps {cs : Bytes} {os : Stream × Bytes} (h : Room flags cs.length os.1) :
    os.1.Keeps (cs.foldl (put flags) os).1 ∧ Room flags 0 (cs.foldl (put flags) os).1 := by
  induction cs generalizing os with
  | nil => exact ⟨Keeps.refl _, h⟩
  | cons c cs ih =>
    obtain ⟨hkeeps, hroom⟩ := put_keeps h c
    obtain ⟨hkeeps', hroom'⟩ := ih hroom
    exact ⟨hkeeps.trans hkeeps', hroom'⟩

theorem parseStringToStream_ensures {A : Prop} {fuel : Nat} (os : Stream × Bytes)
    (hs : s₀.Keeps os.1) (hroom : Room flags 0 os.1) (hfuel : os.1.rest.length < fuel) :
    (ParseStringToStream flags fuel os).Ensures A (Inside s₀.size) fun x => os.1.Advances x.1 := by
  induction fuel generalizing os with
  | zero => exact absurd hfuel (Nat.not_lt_zero _)
  | succ fuel ih =>
    obtain ⟨is, stack⟩ := os
    dsimp only at hs hroom hfuel ⊢
    have htell := hs.tell_le
    -- the rest of the string, from a stream that is further on
    have hnext : ∀ os' : Stream × Bytes, is.Advances os'.1 → Room flags 0 os'.1 →
        (ParseStringToStream flags fuel os').Ensures A (Inside s₀.size)
          fun x => is.Advances x.1 := by
      intro os' h hroom'
      exact (ih os' (hs.trans h.1) hroom'
        (Nat.lt_of_lt_of_le h.2 (Nat.le_of_lt_succ hfuel))).mono fun x hx => h.toKeeps.advances hx
    -- a character is put after it has been taken
    have hput : ∀ {is' : Stream} {t : Bytes} (c : UInt8), is.Passes t is' → t ≠ [] →
        is.Advances (put flags (is', stack) c).1 ∧ Room flags 0 (put flags (is', stack) c).1 := by
      intro is' t c hpasses ht
      obtain ⟨hkeeps, hroom'⟩ := put_keeps
        (show Room flags 1 (is', stack).1 from (hroom.passes hpasses).mono
          (Nat.le_add_left_of_le (List.length_pos_of_ne_nil ht))) c
      exact ⟨(hpasses.advances ht).keeps hkeeps, hroom'⟩
    rw [ParseStringToStream]
    dsimp only
    by_cases hback : is.Peek = '\\'.toUInt8
    · obtain ⟨rest, hrest⟩ := rest_of_peek hback (by decide)
      have htake := take_passes hrest
      obtain ⟨t, ht⟩ := is.Take.take_passes_some
      have htake' := htake.trans ht
      rw [if_pos hback]
      split
      · obtain ⟨hadvances, hroom'⟩ := hput (escape is.Take.Peek) htake' (List.cons_ne_nil _ _)
        exact hnext _ hadvances hroom'
      · split
        · refine (parseCodepoint_ensures htell is.Take.Take).bind fun x hx => ?_
          obtain ⟨u, hpasses, hlength⟩ := hx
          have hall := htake'.trans hpasses
          have hroom' : Room flags (utf8 x.1).length (x.2, stack).1 := by
            refine (hroom.passes hall).mono ?_
            have := utf8_length_le x.1
            rw [List.length_append]
            omega
          obtain ⟨hkeeps, hroom₁⟩ := puts_keeps hroom'
          exact hnext _ ((hall.advances (List.cons_ne_nil _ _)).keeps hkeeps) hroom₁
        · exact inside (by decide) htell
    rw [if_neg hback]
    by_cases hquote : is.Peek = '"'.toUInt8
    · obtain ⟨rest, hrest⟩ := rest_of_peek hquote (by decide)
      rw [if_pos hquote]
      exact (hput 0 (take_passes hrest) (List.cons_ne_nil _ _)).1
    rw [if_neg hquote]
    by_cases hcontrol : is.Peek < 0x20
    · rw [if_pos hcontrol]
      split
      · exact inside (by decide) htell
      · exact inside (by decide) htell
    · rw [if_neg hcontrol]
      have hne : is.Peek ≠ 0 := fun hzero => hcontrol (by rw [hzero]; decide)
      obtain ⟨rest, hrest⟩ := rest_of_peek rfl hne
      obtain ⟨hadvances, hroom'⟩ := hput is.Peek (take_passes hrest) (List.cons_ne_nil _ _)
      exact hnext _ hadvances hroom'

theorem parseString_ensures {A : Prop} (isKey : Bool) {s : Stream} (hs : s₀.Keeps s) :
    (ParseString flags s isKey).Ensures A (Refused s₀.size) (Inside s₀.size) s.Advances := by
  have htake := take_keeps s
  rw [ParseString]
  dsimp only
  split
  · -- in place
    have hbegin : s.Keeps s.Take.PutBegin.2 := htake
    refine (Script.ensures_lift (parseStringToStream_ensures (s.Take.PutBegin.2, [])
      (hs.trans hbegin) (fun _ => Nat.le_refl _) (Nat.lt_succ_self _))).bind fun x hx => ?_
    have h := hbegin.advances hx
    exact Script.ensures_call (refused (hs.trans h.1).tell_le) h
  case isFalse hstack =>
    refine (Script.ensures_lift (parseStringToStream_ensures (s.Take, [])
      (hs.trans htake) (fun hinsitu => absurd hinsitu hstack)
      (Nat.lt_succ_self _))).bind fun x hx => ?_
    have h := htake.advances hx
    exact Script.ensures_call (refused (hs.trans h.1).tell_le) h

-- ---------------------------------------------------------------------------
-- Numbers
-- ---------------------------------------------------------------------------

/-- A later state of the same number stream. -/
def NumberStream.Keeps (s s' : NumberStream) : Prop :=
  s'.startOffset = s.startOffset ∧
    s'.taken.length + s'.rest.length = s.taken.length + s.rest.length

/-- A stage of `ParseNumber` that starts from `s`. -/
def NumberEnsures {α : Type} (n : Nat) (s : NumberStream)
    (x : Ending ParseError (α × NumberStream)) : Prop :=
  s.startOffset + (s.taken.length + s.rest.length) = n →
    x.Ensures False (Inside n) fun y => s.Keeps y.2

theorem NumberStream.Keeps.refl (s : NumberStream) : s.Keeps s := ⟨rfl, rfl⟩

theorem NumberStream.Keeps.trans {s s' s'' : NumberStream} (h : s.Keeps s') (h' : s'.Keeps s'') :
    s.Keeps s'' := ⟨h'.1.trans h.1, h'.2.trans h.2⟩

theorem NumberStream.take_keeps (s : NumberStream) : s.Keeps s.Take := by
  obtain ⟨startOffset, taken, _ | ⟨b, rest⟩⟩ := s
  · exact Keeps.refl _
  · refine ⟨rfl, ?_⟩
    show (taken ++ [b]).length + rest.length = taken.length + (rest.length + 1)
    rw [List.length_append, List.length_singleton]
    omega

theorem NumberStream.consume_keeps {s s' : NumberStream} {b : UInt8} (h : s.Consume b = some s') :
    s.Keeps s' := by
  unfold Consume at h
  split at h
  · cases h
    exact s.take_keeps
  · cases h

theorem NumberEnsures.bind {α β : Type} {s : NumberStream}
    {x : Ending ParseError (α × NumberStream)}
    {f : α × NumberStream → Ending ParseError (β × NumberStream)} (hx : NumberEnsures n s x)
    (hf : ∀ y, NumberEnsures n y.2 (f y)) : NumberEnsures n s (x.bind f) := fun hs =>
  (hx hs).bind fun y hy =>
    (hf y (by rw [hy.1, hy.2, hs])).mono fun _ hz => hy.trans hz

theorem NumberEnsures.after {α : Type} {s s' : NumberStream}
    {x : Ending ParseError (α × NumberStream)} (h : s.Keeps s') (hx : NumberEnsures n s' x) :
    NumberEnsures n s x := fun hs => (hx (by rw [h.1, h.2, hs])).mono fun _ hy => h.trans hy

theorem numberEnsures_done {α : Type} (a : α) (s : NumberStream) :
    NumberEnsures n s (.done (a, s)) := fun _ => NumberStream.Keeps.refl s

theorem numberEnsures_fail {α : Type} (s : NumberStream) {code : ParseErrorCode}
    (hcode : code ≠ .Termination) {offset : Nat} (h : offset ≤ s.Tell) :
    NumberEnsures n s (.fail ⟨code, offset⟩ : Ending ParseError (α × NumberStream)) := by
  intro hs
  have htell : s.Tell = s.startOffset + s.taken.length := rfl
  exact inside hcode (by omega)

theorem whileDigit_ensures (turn : Number → Nat → Turn) (m : Number) (s : NumberStream) :
    NumberEnsures n s (whileDigit turn m s) := by
  obtain ⟨o, taken, rest⟩ := s
  rw [whileDigit]
  induction rest generalizing m taken with
  | nil => exact numberEnsures_done m _
  | cons b rest ih =>
    dsimp only
    rw [digitRounds]
    split
    · cases turn m (b.toNat - '0'.toNat) with
      | take m' => exact (ih m' (taken ++ [b])).after (NumberStream.take_keeps _)
      | leave m' => exact numberEnsures_done m' _
      | tooBig => exact numberEnsures_fail _ (by decide) (Nat.le_add_right _ _)
    · exact numberEnsures_done m _

theorem parseInt_ensures (minus : Bool) (s : NumberStream) :
    NumberEnsures n s (parseInt minus s) := by
  unfold parseInt
  split
  · exact (numberEnsures_done _ _).after s.take_keeps
  · split
    · refine ((whileDigit_ensures _ _ _).bind fun y => ?_).after s.take_keeps
      refine NumberEnsures.bind ?_ fun z => ?_
      · split
        · exact whileDigit_ensures _ _ _
        · exact numberEnsures_done _ _
      · dsimp only
        split
        · exact whileDigit_ensures _ _ _
        · exact numberEnsures_done _ _
    · exact numberEnsures_fail s (by decide) (Nat.le_refl _)

theorem parseFrac_ensures (m : Number) (s : NumberStream) : NumberEnsures n s (parseFrac m s) := by
  unfold parseFrac
  cases h : s.Consume '.'.toUInt8 with
  | none => exact numberEnsures_done m s
  | some s' =>
    refine NumberEnsures.after (NumberStream.consume_keeps h) ?_
    dsimp only
    split
    · exact numberEnsures_fail s' (by decide) (Nat.le_refl _)
    · refine NumberEnsures.bind ?_ fun y => whileDigit_ensures _ _ _
      split
      · exact numberEnsures_done m s'
      · exact (whileDigit_ensures _ _ _).bind fun y => numberEnsures_done _ _

theorem parseSign_keeps (s : NumberStream) : s.Keeps (parseSign s).2 := by
  unfold parseSign
  cases hplus : s.Consume '+'.toUInt8 with
  | some s' => exact NumberStream.consume_keeps hplus
  | none =>
    dsimp only
    cases hminus : s.Consume '-'.toUInt8 with
    | some s' => exact NumberStream.consume_keeps hminus
    | none => exact NumberStream.Keeps.refl s

theorem parseExp_ensures (m : Number) (s : NumberStream) : NumberEnsures n s (parseExp m s) := by
  unfold parseExp
  cases h : (s.Consume 'e'.toUInt8).or (s.Consume 'E'.toUInt8) with
  | none => exact numberEnsures_done m s
  | some s' =>
    have hs' : s.Keeps s' := by
      obtain h | ⟨-, h⟩ := Option.or_eq_some_iff.mp h <;> exact NumberStream.consume_keeps h
    refine NumberEnsures.after (hs'.trans (parseSign_keeps s')) ?_
    dsimp only
    split
    · refine NumberEnsures.after (parseSign s').2.take_keeps ?_
      split
      · exact (whileDigit_ensures _ _ _).bind fun y => numberEnsures_done _ _
      · exact whileDigit_ensures _ _ _
    · exact numberEnsures_fail _ (by decide) (Nat.le_refl _)

theorem scanLiteral_ensures (s : NumberStream) : NumberEnsures n s (scanLiteral s) := by
  have hminus : s.Keeps ((s.Consume '-'.toUInt8).getD s) := by
    cases h : s.Consume '-'.toUInt8 with
    | none => exact NumberStream.Keeps.refl s
    | some s' => exact NumberStream.consume_keeps h
  refine NumberEnsures.after hminus ?_
  exact (parseInt_ensures _ _).bind fun y => (parseFrac_ensures _ _).bind fun z =>
    parseExp_ensures _ _

theorem parseNumber_ensures {s : Stream} (hs : s₀.Keeps s) :
    (ParseNumber s).Ensures (MayAbort s₀.rest) (Refused s₀.size) (Inside s₀.size) s.Advances := by
  have hsize : s.Tell + (([] : Bytes).length + s.rest.length) = s₀.size := by
    rw [List.length_nil, Nat.zero_add]
    exact hs.1
  have hscan := scanLiteral_ensures ⟨s.Tell, [], s.rest⟩ hsize
  unfold ParseNumber
  cases hx : scanLiteral ⟨s.Tell, [], s.rest⟩ with
  | fail e =>
    rw [hx] at hscan
    rw [scanNumber, hx]
    exact Script.ensures_fail hscan
  | aborted =>
    rw [hx] at hscan
    exact hscan.elim
  | outOfFuel =>
    rw [hx] at hscan
    exact hscan.elim
  | done x =>
    -- what was read is a literal
    obtain ⟨l, rest, hl, hends, hrest⟩ := scanLiteral_sound hx
    obtain ⟨b, ds, hbs⟩ := List.exists_cons_of_ne_nil hl.digits.ne_nil
    have hne : l.text ≠ [] := by
      rw [Literal.text, hbs]
      simp
    cases hk : l.number doubleOf with
    | some k =>
      have hnumber := scanNumber_number hl hends s.Tell [] hk
      rw [← hrest] at hnumber
      rw [hnumber]
      exact Script.ensures_call (refused hs.tell_le) (Passes.advances ⟨hrest, rfl, rfl, rfl⟩ hne)
    | none =>
      obtain ⟨hfail, -⟩ | ⟨habort, hoverflows⟩ := scanNumber_noNumber hl hends s.Tell [] hk
      · rw [← hrest] at hfail
        rw [hfail]
        exact Script.ensures_fail (inside (by decide) hs.tell_le)
      · rw [← hrest] at habort
        rw [habort]
        have hinfix : l.text <:+: s.rest := by
          rw [hrest]
          exact (List.prefix_append _ _).isInfix
        exact Script.ensures_lift
          (show MayAbort s₀.rest from ⟨l, hl, hoverflows, hinfix.trans hs.2.isInfix⟩)

-- ---------------------------------------------------------------------------
-- Objects, arrays and values
-- ---------------------------------------------------------------------------

section Items

variable {bracket : Bracket} {item : Stream → Script ParseError Stream} {bound : Nat}
  (hmissing : bracket.missing ≠ .Termination)
  (hitem : ∀ s, s₀.Keeps s → s.rest.length < bound →
    (item s).Ensures (MayAbort s₀.rest) (Refused s₀.size) (Inside s₀.size) s.Advances)
include hmissing hitem

theorem items_ensures {loops count : Nat} {s : Stream} (hs : s₀.Keeps s)
    (hbound : s.rest.length < bound) (hloops : s.rest.length < loops) :
    (items flags bracket item loops count s).Ensures (MayAbort s₀.rest) (Refused s₀.size)
      (Inside s₀.size) s.Advances := by
  induction loops generalizing count s with
  | zero => exact absurd hloops (Nat.not_lt_zero _)
  | succ loops ih =>
    have htell : ∀ {s' : Stream}, s.Keeps s' → s'.Tell ≤ s₀.size := fun h => (hs.trans h).tell_le
    rw [items]
    refine (hitem s hs hbound).bind fun s₁ h₁ => skip_ensures (hs.trans h₁.1) fun s₂ h₂ => ?_
    have h₁₂ := h₁.keeps h₂
    dsimp only
    split
    · refine skip_ensures (hs.trans (h₁₂.keeps (take_keeps s₂)).1) fun s₃ h₃ => ?_
      have h₁₃ := h₁₂.keeps ((take_keeps s₂).trans h₃)
      split
      · exact Script.ensures_call (refused (htell h₁₃.toKeeps)) (h₁₃.keeps (take_keeps s₃))
      · refine (ih (hs.trans h₁₃.1) (Nat.lt_trans h₁₃.2 hbound) ?_).mono
          fun s' hs' => h₁₃.toKeeps.advances hs'
        exact Nat.lt_of_lt_of_le h₁₃.2 (Nat.le_of_lt_succ hloops)
    · split
      · have h := h₁₂.keeps (take_keeps s₂)
        exact Script.ensures_call (refused (htell h.toKeeps)) h
      · exact Script.ensures_fail (inside hmissing (htell h₁₂.toKeeps))

theorem compound_ensures (hclose : bracket.close ≠ 0) {b : UInt8} (hb : b ≠ 0) {s : Stream}
    (hs : s₀.Keeps s) (hpeek : s.Peek = b) (hbound : s.rest.length ≤ bound) :
    (compound flags bracket item s).Ensures (MayAbort s₀.rest) (Refused s₀.size)
      (Inside s₀.size) s.Advances := by
  have htake := take_advances hpeek hb
  have htell : ∀ {s' : Stream}, s.Advances s' → s'.Tell ≤ s₀.size := fun h =>
    (hs.trans h.1).tell_le
  unfold compound
  have hstart : (Script.call bracket.start (⟨.Termination, s.Take.Tell⟩ : ParseError)
      s.Take).Ensures (MayAbort s₀.rest) (Refused s₀.size) (Inside s₀.size) s.Advances :=
    Script.ensures_call (refused (htell htake)) htake
  refine hstart.bind fun s₁ h₁ => ?_
  refine skip_ensures (hs.trans h₁.1) fun s₂ h₂ => ?_
  have h₁₂ := h₁.keeps h₂
  cases hconsume : s₂.Consume bracket.close with
  | some s₃ =>
    have h := h₁₂.keeps (consume_advances hconsume hclose).toKeeps
    exact Script.ensures_call (refused (htell h)) h
  | none =>
    exact (items_ensures hmissing hitem (hs.trans h₁₂.1) (Nat.lt_of_lt_of_le h₁₂.2 hbound)
      (Nat.lt_succ_self _)).mono fun s' hs' => h₁₂.toKeeps.advances hs'

end Items

theorem member_ensures {parseValue : Stream → Script ParseError Stream} {bound : Nat}
    (hvalue : ∀ s, s₀.Keeps s → s.rest.length < bound →
      (parseValue s).Ensures (MayAbort s₀.rest) (Refused s₀.size) (Inside s₀.size) s.Advances)
    {s : Stream} (hs : s₀.Keeps s) (hbound : s.rest.length < bound) :
    (member flags parseValue s).Ensures (MayAbort s₀.rest) (Refused s₀.size)
      (Inside s₀.size) s.Advances := by
  have htell : ∀ {s' : Stream}, s.Keeps s' → s'.Tell ≤ s₀.size := fun h => (hs.trans h).tell_le
  unfold member
  split
  · exact Script.ensures_fail (inside (by decide) (htell (Keeps.refl s)))
  · refine (parseString_ensures true hs).bind fun s₁ h₁ => ?_
    refine skip_ensures (hs.trans h₁.1) fun s₂ h₂ => ?_
    have h₁₂ := h₁.keeps h₂
    cases hcolon : s₂.Consume ':'.toUInt8 with
    | none => exact Script.ensures_fail (inside (by decide) (htell h₁₂.toKeeps))
    | some s₃ =>
      have h₁₃ := h₁₂.keeps (consume_advances hcolon (by decide)).toKeeps
      refine skip_ensures (hs.trans h₁₃.1) fun s₄ h₄ => ?_
      have h₁₄ := h₁₃.keeps h₄
      exact (hvalue s₄ (hs.trans h₁₄.1) (Nat.lt_trans h₁₄.2 hbound)).mono
        fun s' hs' => h₁₄.toKeeps.advances hs'

theorem parseValue_ensures {fuel : Nat} {s : Stream} (hs : s₀.Keeps s)
    (hfuel : s.rest.length < fuel) :
    (ParseValue flags fuel s).Ensures (MayAbort s₀.rest) (Refused s₀.size)
      (Inside s₀.size) s.Advances := by
  induction fuel generalizing s with
  | zero => exact absurd hfuel (Nat.not_lt_zero _)
  | succ fuel ih =>
    have hvalue : ∀ s : Stream, s₀.Keeps s → s.rest.length < fuel →
        (ParseValue flags fuel s).Ensures (MayAbort s₀.rest) (Refused s₀.size) (Inside s₀.size)
          s.Advances := fun s hs hf => ih hs hf
    rw [ParseValue]
    split
    case isTrue hpeek =>
      exact parseLiteral_ensures (by decide) (List.all_iff_forall_prop.mp rfl) _ hs hpeek
    split
    case isTrue hpeek =>
      exact parseLiteral_ensures (by decide) (List.all_iff_forall_prop.mp rfl) _ hs hpeek
    split
    case isTrue hpeek =>
      exact parseLiteral_ensures (by decide) (List.all_iff_forall_prop.mp rfl) _ hs hpeek
    split
    case isTrue => exact parseString_ensures false hs
    split
    case isTrue hpeek =>
      exact compound_ensures (by decide) (fun s hs hf => member_ensures hvalue hs hf) (by decide)
        (by decide) hs hpeek (Nat.le_of_lt_succ hfuel)
    split
    case isTrue hpeek =>
      exact compound_ensures (by decide) hvalue (by decide) (by decide) hs hpeek
        (Nat.le_of_lt_succ hfuel)
    exact parseNumber_ensures hs

/-- **The reader gets through every text**: the budgets suffice, every error it can end
with, a refused call included, is reported at an offset of the text or at its end, and it
is aborted only if the exponent of a literal in the text overflows. -/
theorem parseStream_ensures (flags : ParseFlags) (s : Stream) :
    (parseStream flags s).Ensures (MayAbort s.rest) (Refused s.size) (Inside s.size) s.Keeps := by
  have htell : ∀ {s' : Stream}, s.Keeps s' → s'.Tell ≤ s.size := fun h => h.tell_le
  unfold parseStream
  refine skip_ensures (Keeps.refl s) fun s₁ h₁ => ?_
  split
  · exact Script.ensures_fail (inside (by decide) (htell h₁))
  · refine (parseValue_ensures h₁ (Nat.lt_succ_self _)).bind fun s₂ h₂ => ?_
    have h₁₂ := h₁.trans h₂.toKeeps
    split
    · exact Script.ensures_pure h₁₂
    · refine skip_ensures h₁₂ fun s₃ h₃ => ?_
      split
      · exact Script.ensures_fail (inside (by decide) (htell (h₁₂.trans h₃)))
      · exact Script.ensures_pure (h₁₂.trans h₃)

end GenericReader

end RapidJson
