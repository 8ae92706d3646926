import ThirdPartDemo.RapidJson.Reader

/-!
# RapidJSON — reading strings

`ParseStringToStream` accepts exactly what the grammar allows between the quotes of a
string literal, and puts the string it stands for onto the reader's stack, with a
null character at the end. Every path of the decoder is here: bytes that stand for
themselves, the table of escapes, `\u` escapes and surrogate pairs.

* `parseStringToStream_complete`, `parseStringToStream_sound` — the decoder against
  the grammar;
* `parseString_complete`, `parseString_sound` — with the quotes and the event.
-/

namespace RapidJson

open Library

namespace GenericReader

variable {flags : ParseFlags}

-- ---------------------------------------------------------------------------
-- Characters one after the other
-- ---------------------------------------------------------------------------

theorem consumeAll_of_rest {expect : Bytes} {s : Stream} {rest : Bytes}
    (h : s.rest = expect ++ rest) :
    ∃ s', consumeAll expect s = (true, s') ∧ s.Passes expect s' := by
  induction expect generalizing s with
  | nil => exact ⟨s, rfl, Stream.Passes.refl s⟩
  | cons b expect ih =>
    have htake := Stream.take_passes h
    obtain ⟨s', hs', hpasses⟩ := ih (Stream.take_rest h)
    exact ⟨s', by rw [consumeAll, Stream.consume_of_rest h]; exact hs', htake.cons hpasses⟩

theorem consumeAll_true {expect : Bytes} (hexpect : ∀ b ∈ expect, b ≠ 0) {s s' : Stream}
    (h : consumeAll expect s = (true, s')) : s.Passes expect s' := by
  induction expect generalizing s with
  | nil =>
    cases h
    exact Stream.Passes.refl _
  | cons b expect ih =>
    rw [consumeAll] at h
    cases hconsume : s.Consume b with
    | none =>
      rw [hconsume] at h
      cases h
    | some s₁ =>
      rw [hconsume] at h
      exact (Stream.consume_some hconsume (hexpect b List.mem_cons_self)).cons
        (ih (fun c hc => hexpect c (List.mem_cons_of_mem _ hc)) h)

-- ---------------------------------------------------------------------------
-- Escapes
-- ---------------------------------------------------------------------------

theorem unescape_eq (e : UInt8) :
    unescape e = if escape e = 0 then none else some (escape e) := by
  by_cases he : e = '"'.toUInt8 ∨ e = '\\'.toUInt8 ∨ e = '/'.toUInt8 ∨ e = 'b'.toUInt8 ∨
      e = 'f'.toUInt8 ∨ e = 'n'.toUInt8 ∨ e = 'r'.toUInt8 ∨ e = 't'.toUInt8
  · obtain rfl | rfl | rfl | rfl | rfl | rfl | rfl | rfl := he <;> rfl
  · simp only [not_or] at he
    obtain ⟨hquote, hback, hslash, hb, hf, hn, hr, ht⟩ := he
    rw [unescape, if_neg (by simp only [hquote, hback, hslash, or_self, not_false_iff]),
      if_neg hb, if_neg hf, if_neg hn, if_neg hr, if_neg ht, escape, if_neg hquote,
      if_neg hslash, if_neg hback, if_neg hb, if_neg hf, if_neg hn, if_neg hr, if_neg ht,
      if_pos rfl]

theorem hexDigit_zero : hexDigit 0 = none := by decide

theorem hexRounds_complete (escapeOffset : Nat) {digits : Bytes} {acc n : Nat}
    (hvalue : hexValue acc digits = some n) {s : Stream} {rest : Bytes}
    (hrest : s.rest = digits ++ rest) :
    ∃ s', hexRounds escapeOffset digits.length acc s = .done (n, s') ∧ s.Passes digits s' := by
  induction digits generalizing acc s with
  | nil =>
    cases hvalue
    exact ⟨s, rfl, Stream.Passes.refl s⟩
  | cons b digits ih =>
    rw [hexValue] at hvalue
    cases hd : hexDigit b with
    | none =>
      rw [hd] at hvalue
      cases hvalue
    | some d =>
      rw [hd] at hvalue
      have htake := Stream.take_passes hrest
      obtain ⟨s', hs', hpasses⟩ := ih hvalue (Stream.take_rest hrest)
      refine ⟨s', ?_, htake.cons hpasses⟩
      rw [List.length_cons, hexRounds, Stream.peek_of_rest hrest, hd]
      exact hs'

theorem hexRounds_sound {escapeOffset k acc n : Nat} {s s' : Stream}
    (h : hexRounds escapeOffset k acc s = .done (n, s')) :
    ∃ digits, s.Passes digits s' ∧ digits.length = k ∧ hexValue acc digits = some n := by
  induction k generalizing acc s with
  | zero =>
    cases h
    exact ⟨[], Stream.Passes.refl _, rfl, rfl⟩
  | succ k ih =>
    rw [hexRounds] at h
    cases hd : hexDigit s.Peek with
    | none =>
      rw [hd] at h
      cases h
    | some d =>
      rw [hd] at h
      obtain ⟨rest, hrest⟩ := Stream.rest_of_peek rfl fun hzero => by
        rw [hzero, hexDigit_zero] at hd
        cases hd
      obtain ⟨digits, hpasses, hlength, hvalue⟩ := ih h
      refine ⟨s.Peek :: digits, (Stream.take_passes hrest).cons hpasses, ?_, ?_⟩
      · rw [List.length_cons, hlength]
      · rw [hexValue, hd]
        exact hvalue

theorem parseHex4_complete (escapeOffset : Nat) {digits : Bytes} {n : Nat} (h : Hex4 digits n)
    {s : Stream} {rest : Bytes} (hrest : s.rest = digits ++ rest) :
    ∃ s', ParseHex4 s escapeOffset = .done (n, s') ∧ s.Passes digits s' := by
  have := hexRounds_complete escapeOffset h.2 hrest
  rwa [h.1] at this

theorem parseHex4_sound {escapeOffset n : Nat} {s s' : Stream}
    (h : ParseHex4 s escapeOffset = .done (n, s')) :
    ∃ digits, Hex4 digits n ∧ s.Passes digits s' := by
  obtain ⟨digits, hpasses, hlength, hvalue⟩ := hexRounds_sound h
  exact ⟨digits, ⟨hlength, hvalue⟩, hpasses⟩

/-- A `\u` escape that is not the first half of a surrogate pair. -/
theorem parseCodepoint_single (escapeOffset : Nat) {digits : Bytes} {n : Nat} (h : Hex4 digits n)
    (hn : ¬ HighSurrogate n) {s : Stream} {rest : Bytes} (hrest : s.rest = digits ++ rest) :
    ∃ s', parseCodepoint s escapeOffset = .done (n, s') ∧ s.Passes digits s' := by
  obtain ⟨s', hs', hpasses⟩ := parseHex4_complete escapeOffset h hrest
  refine ⟨s', ?_, hpasses⟩
  rw [parseCodepoint, hs', Ending.bind_done]
  exact if_neg hn

theorem parseCodepoint_pair (escapeOffset : Nat) {high low : Bytes} {m n : Nat}
    (hhigh : Hex4 high m) (hm : HighSurrogate m) (hlow : Hex4 low n) (hn : LowSurrogate n)
    {s : Stream} {rest : Bytes}
    (hrest : s.rest = high ++ '\\'.toUInt8 :: 'u'.toUInt8 :: (low ++ rest)) :
    ∃ s', parseCodepoint s escapeOffset = .done (surrogatePair m n, s') ∧
      s.Passes (high ++ '\\'.toUInt8 :: 'u'.toUInt8 :: low) s' := by
  obtain ⟨s₁, hs₁, hpasses₁⟩ := parseHex4_complete escapeOffset hhigh hrest
  have hrest₁ := hpasses₁.rest_eq hrest
  have hrest₁' : s₁.rest = ['\\'.toUInt8, 'u'.toUInt8] ++ (low ++ rest) := hrest₁
  obtain ⟨s₂, hs₂, hpasses₂⟩ := consumeAll_of_rest hrest₁'
  obtain ⟨s₃, hs₃, hpasses₃⟩ :=
    parseHex4_complete escapeOffset hlow (hpasses₂.rest_eq hrest₁)
  refine ⟨s₃, ?_, hpasses₁.trans (hpasses₂.trans hpasses₃)⟩
  have hlow' : ¬ (n < 0xDC00 ∨ 0xDFFF < n) := by
    obtain ⟨h₁, h₂⟩ := hn
    omega
  rw [parseCodepoint, hs₁, Ending.bind_done]
  refine (if_pos hm).trans ?_
  rw [hs₂]
  dsimp only
  rw [hs₃, Ending.bind_done]
  exact if_neg hlow'

theorem parseCodepoint_sound {escapeOffset k : Nat} {s s' : Stream}
    (h : parseCodepoint s escapeOffset = .done (k, s')) :
    (∃ digits, Hex4 digits k ∧ ¬ HighSurrogate k ∧ s.Passes digits s') ∨
      ∃ high low m n, Hex4 high m ∧ HighSurrogate m ∧ Hex4 low n ∧ LowSurrogate n ∧
        k = surrogatePair m n ∧ s.Passes (high ++ '\\'.toUInt8 :: 'u'.toUInt8 :: low) s' := by
  rw [parseCodepoint] at h
  obtain ⟨⟨m, s₁⟩, h₁, h⟩ := Ending.bind_eq_done.mp h
  obtain ⟨high, hhigh, hpasses₁⟩ := parseHex4_sound h₁
  dsimp only at h
  by_cases hm : 0xD800 ≤ m ∧ m ≤ 0xDBFF
  · rw [if_pos hm] at h
    rcases hconsume : consumeAll ['\\'.toUInt8, 'u'.toUInt8] s₁ with ⟨_ | _, s₂⟩
    · rw [hconsume] at h
      cases h
    · rw [hconsume] at h
      have hpasses₂ := consumeAll_true (List.all_iff_forall_prop.mp rfl) hconsume
      obtain ⟨⟨n, s₃⟩, h₃, h⟩ := Ending.bind_eq_done.mp h
      obtain ⟨low, hlow, hpasses₃⟩ := parseHex4_sound h₃
      dsimp only at h
      by_cases hn : n < 0xDC00 ∨ 0xDFFF < n
      · rw [if_pos hn] at h
        cases h
      · rw [if_neg hn] at h
        cases h
        refine .inr ⟨high, low, m, n, hhigh, hm, hlow, ⟨?_, ?_⟩, rfl,
          hpasses₁.trans (hpasses₂.trans hpasses₃)⟩ <;> omega
  · rw [if_neg hm] at h
    cases h
    exact .inl ⟨high, hhigh, hm, hpasses₁⟩

theorem utf8_length_le (n : Nat) : (utf8 n).length ≤ 4 := by
  unfold utf8
  split
  · simp
  split
  · simp
  split
  all_goals simp

theorem parseCodepoint_length {escapeOffset codepoint : Nat} {s s' : Stream} {t : Bytes}
    (h : parseCodepoint s escapeOffset = .done (codepoint, s')) (hpasses : s.Passes t s') :
    4 ≤ t.length := by
  have hlength := hpasses.length
  obtain ⟨digits, hdigits, -, hpasses'⟩ | ⟨high, low, m, n, hhigh, -, -, -, -, hpasses'⟩ :=
    parseCodepoint_sound h
  · have := hpasses'.length
    have := hdigits.1
    omega
  · have := hpasses'.length
    have := hhigh.1
    rw [List.length_append] at *
    omega

-- ---------------------------------------------------------------------------
-- The decoder
-- ---------------------------------------------------------------------------

theorem put_stack (hflags : flags.insitu = false) (s : Stream) (stack : Bytes) (c : UInt8) :
    put flags (s, stack) c = (s, stack ++ [c]) := by
  rw [put, hflags]
  rfl

theorem foldl_put_stack (hflags : flags.insitu = false) (s : Stream) (stack cs : Bytes) :
    cs.foldl (put flags) (s, stack) = (s, stack ++ cs) := by
  induction cs generalizing stack with
  | nil => rw [List.foldl_nil, List.append_nil]
  | cons c cs ih =>
    rw [List.foldl_cons, put_stack hflags, ih, List.append_assoc, List.singleton_append]

theorem encode_stack (hflags : flags.insitu = false) (s : Stream) (stack : Bytes) (n : Nat) :
    Encode flags (s, stack) n = (s, stack ++ utf8 n) := foldl_put_stack hflags s stack _

/-- What stands between the quotes of a literal is decoded to the string. -/
theorem parseStringToStream_complete (hflags : flags.insitu = false) {raw str : Bytes}
    (h : Chars raw str) {fuel : Nat} (hfuel : raw.length < fuel) {s : Stream} {rest : Bytes}
    (hrest : s.rest = raw ++ '"'.toUInt8 :: rest) (stack : Bytes) :
    ∃ s', ParseStringToStream flags fuel (s, stack) = .done (s', stack ++ (str ++ [0])) ∧
      s.Passes (raw ++ ['"'.toUInt8]) s' := by
  induction h generalizing fuel s stack with
  | nil =>
    obtain ⟨fuel, rfl⟩ := Nat.exists_eq_add_one_of_ne_zero (Nat.ne_zero_of_lt hfuel)
    refine ⟨s.Take, ?_, Stream.take_passes hrest⟩
    rw [ParseStringToStream, Stream.peek_of_rest hrest]
    dsimp only
    rw [if_neg (by decide), if_pos rfl, put_stack hflags]
    rfl
  | @unescaped b raw str hb h ih =>
    obtain ⟨fuel, rfl⟩ := Nat.exists_eq_add_one_of_ne_zero (Nat.ne_zero_of_lt hfuel)
    have htake := Stream.take_passes hrest
    have hfuel' : raw.length < fuel := Nat.succ_lt_succ_iff.mp hfuel
    obtain ⟨s', hs', hpasses⟩ := ih hfuel' (Stream.take_rest hrest) (stack ++ [b])
    obtain ⟨⟨hlow, hquote⟩, hback⟩ : (0x20 ≤ b ∧ b ≠ '"'.toUInt8) ∧ b ≠ '\\'.toUInt8 := by
      simpa [isUnescaped] using hb
    refine ⟨s', ?_, htake.cons hpasses⟩
    rw [ParseStringToStream, Stream.peek_of_rest hrest]
    dsimp only
    rw [if_neg hback, if_neg hquote, if_neg (UInt8.not_lt.mpr hlow), put_stack hflags]
    rw [List.append_assoc, List.singleton_append] at hs'
    exact hs'
  | @escaped b c raw str hb h ih =>
    obtain ⟨fuel, rfl⟩ := Nat.exists_eq_add_one_of_ne_zero (Nat.ne_zero_of_lt hfuel)
    obtain ⟨hescape, rfl⟩ : escape b ≠ 0 ∧ escape b = c := by
      rw [unescape_eq] at hb
      split at hb
      case isTrue => cases hb
      case isFalse hne => exact ⟨hne, Option.some.inj hb⟩
    have htake := Stream.take_passes hrest
    have htake' := Stream.take_passes (Stream.take_rest hrest)
    have hfuel' : raw.length < fuel := by
      rw [List.length_cons, List.length_cons] at hfuel
      omega
    obtain ⟨s', hs', hpasses⟩ :=
      ih hfuel' (Stream.take_rest (Stream.take_rest hrest)) (stack ++ [escape b])
    refine ⟨s', ?_, htake.cons (htake'.cons hpasses)⟩
    rw [ParseStringToStream, Stream.peek_of_rest hrest]
    dsimp only
    rw [if_pos rfl, Stream.peek_of_rest (Stream.take_rest hrest), if_pos hescape, put_stack hflags]
    rw [List.append_assoc, List.singleton_append] at hs'
    exact hs'
  | @unicode digits n raw str hdigits hn h ih =>
    obtain ⟨fuel, rfl⟩ := Nat.exists_eq_add_one_of_ne_zero (Nat.ne_zero_of_lt hfuel)
    have htake := Stream.take_passes hrest
    have htake' := Stream.take_passes (Stream.take_rest hrest)
    have hrest' : s.Take.Take.rest = digits ++ (raw ++ '"'.toUInt8 :: rest) := by
      rw [Stream.take_rest (Stream.take_rest hrest)]
      exact List.append_assoc _ _ _
    obtain ⟨s₁, hs₁, hpasses₁⟩ := parseCodepoint_single s.Tell hdigits hn hrest'
    have hfuel' : raw.length < fuel := by
      simp only [List.length_append, List.length_cons] at hfuel
      omega
    obtain ⟨s', hs', hpasses⟩ := ih hfuel' (hpasses₁.rest_eq hrest') (stack ++ utf8 n)
    refine ⟨s', ?_, ?_⟩
    · rw [ParseStringToStream, Stream.peek_of_rest hrest]
      dsimp only
      rw [if_pos rfl, Stream.peek_of_rest (Stream.take_rest hrest), if_neg (by decide), if_pos rfl,
        hs₁, Ending.bind_done]
      dsimp only
      rw [encode_stack hflags]
      rw [List.append_assoc, ← List.append_assoc (utf8 n)] at hs'
      exact hs'
    · have := htake.cons (htake'.cons (hpasses₁.trans hpasses))
      rwa [← List.append_assoc] at this
  | @pair high low m n raw str hhigh hm hlow hn h ih =>
    obtain ⟨fuel, rfl⟩ := Nat.exists_eq_add_one_of_ne_zero (Nat.ne_zero_of_lt hfuel)
    have htake := Stream.take_passes hrest
    have htake' := Stream.take_passes (Stream.take_rest hrest)
    have hrest' : s.Take.Take.rest =
        high ++ '\\'.toUInt8 :: 'u'.toUInt8 :: (low ++ (raw ++ '"'.toUInt8 :: rest)) := by
      rw [Stream.take_rest (Stream.take_rest hrest)]
      simp
    obtain ⟨s₁, hs₁, hpasses₁⟩ := parseCodepoint_pair s.Tell hhigh hm hlow hn hrest'
    have hrest₁ : s₁.rest = raw ++ '"'.toUInt8 :: rest := hpasses₁.rest_eq (by rw [hrest']; simp)
    have hfuel' : raw.length < fuel := by
      simp only [List.length_append, List.length_cons] at hfuel
      omega
    obtain ⟨s', hs', hpasses⟩ := ih hfuel' hrest₁ (stack ++ utf8 (surrogatePair m n))
    refine ⟨s', ?_, ?_⟩
    · rw [ParseStringToStream, Stream.peek_of_rest hrest]
      dsimp only
      rw [if_pos rfl, Stream.peek_of_rest (Stream.take_rest hrest), if_neg (by decide), if_pos rfl,
        hs₁, Ending.bind_done]
      dsimp only
      rw [encode_stack hflags]
      rw [List.append_assoc, ← List.append_assoc (utf8 _)] at hs'
      exact hs'
    · have := htake.cons (htake'.cons (hpasses₁.trans hpasses))
      simpa using this

/-- What is decoded stands between the quotes of a literal. -/
theorem parseStringToStream_sound (hflags : flags.insitu = false) {fuel : Nat} {s s' : Stream}
    {stack stack' : Bytes}
    (h : ParseStringToStream flags fuel (s, stack) = .done (s', stack')) :
    ∃ raw str, Chars raw str ∧ s.Passes (raw ++ ['"'.toUInt8]) s' ∧
      stack' = stack ++ (str ++ [0]) := by
  induction fuel generalizing s stack with
  | zero => cases h
  | succ fuel ih =>
    rw [ParseStringToStream] at h
    dsimp only at h
    by_cases hback : s.Peek = '\\'.toUInt8
    · -- an escape
      rw [if_pos hback] at h
      obtain ⟨rest, hrest⟩ := Stream.rest_of_peek hback (by decide)
      have htake := Stream.take_passes hrest
      by_cases hescape : escape s.Take.Peek ≠ 0
      · rw [if_pos hescape, put_stack hflags] at h
        obtain ⟨rest', hrest'⟩ := Stream.rest_of_peek (s := s.Take) rfl fun hzero => by
          rw [hzero] at hescape
          exact hescape (by decide)
        obtain ⟨raw, str, hchars, hpasses, rfl⟩ := ih h
        refine ⟨_, escape s.Take.Peek :: str, .escaped (b := s.Take.Peek) ?_ hchars,
          htake.cons ((Stream.take_passes hrest').cons hpasses), ?_⟩
        · rw [unescape_eq, if_neg hescape]
        · rw [List.append_assoc, List.singleton_append, List.cons_append]
      · rw [if_neg hescape] at h
        by_cases hu : s.Take.Peek = 'u'.toUInt8
        · rw [if_pos hu] at h
          obtain ⟨rest', hrest'⟩ := Stream.rest_of_peek hu (by decide)
          have htake' := Stream.take_passes hrest'
          obtain ⟨⟨k, s₁⟩, h₁, h⟩ := Ending.bind_eq_done.mp h
          dsimp only at h
          rw [encode_stack hflags] at h
          obtain ⟨raw, str, hchars, hpasses, rfl⟩ := ih h
          obtain ⟨digits, hdigits, hk, hpasses₁⟩ |
            ⟨high, low, m, n, hhigh, hm, hlow, hn, rfl, hpasses₁⟩ := parseCodepoint_sound h₁
          · refine ⟨_, _, .unicode hdigits hk hchars, ?_, ?_⟩
            · have := htake.cons (htake'.cons (hpasses₁.trans hpasses))
              rwa [← List.append_assoc] at this
            · rw [List.append_assoc, List.append_assoc]
          · refine ⟨_, _, .pair hhigh hm hlow hn hchars, ?_, ?_⟩
            · have := htake.cons (htake'.cons (hpasses₁.trans hpasses))
              simpa using this
            · rw [List.append_assoc, List.append_assoc]
        · rw [if_neg hu] at h
          cases h
    · rw [if_neg hback] at h
      by_cases hquote : s.Peek = '"'.toUInt8
      · -- the closing quote
        rw [if_pos hquote, put_stack hflags] at h
        obtain ⟨rest, hrest⟩ := Stream.rest_of_peek hquote (by decide)
        cases h
        exact ⟨[], [], .nil, Stream.take_passes hrest, rfl⟩
      · rw [if_neg hquote] at h
        by_cases hcontrol : s.Peek < 0x20
        · rw [if_pos hcontrol] at h
          split at h <;> cases h
        · rw [if_neg hcontrol, put_stack hflags] at h
          obtain ⟨rest, hrest⟩ := Stream.rest_of_peek (s := s) rfl fun hzero =>
            hcontrol (by rw [hzero]; decide)
          obtain ⟨raw, str, hchars, hpasses, rfl⟩ := ih h
          refine ⟨_, s.Peek :: str, .unescaped (b := s.Peek) ?_ hchars,
            (Stream.take_passes hrest).cons hpasses, ?_⟩
          · simp [isUnescaped, hback, hquote, UInt8.not_lt.mp hcontrol]
          · rw [List.append_assoc, List.singleton_append, List.cons_append]

-- ---------------------------------------------------------------------------
-- String literals
-- ---------------------------------------------------------------------------

/-- A string literal is read as its string. -/
theorem parseString_complete (hflags : flags.insitu = false) {raw str : Bytes}
    (h : Chars raw str) (isKey : Bool) {s : Stream} {rest : Bytes}
    (hrest : s.rest = quoted raw ++ rest) :
    ∃ s', (ParseString flags s isKey).result = .done s' ∧
      (ParseString flags s isKey).events = [stringEvent isKey str] ∧ s.Passes (quoted raw) s' := by
  have hrest' : s.rest = '"'.toUInt8 :: (raw ++ '"'.toUInt8 :: rest) := by
    rw [hrest, quoted]
    simp
  have htake := Stream.take_passes hrest'
  have hfuel : raw.length < s.Take.rest.length + 1 := by
    rw [Stream.take_rest hrest', List.length_append]
    omega
  obtain ⟨s', hs', hpasses⟩ :=
    parseStringToStream_complete hflags h hfuel (Stream.take_rest hrest') []
  refine ⟨s', ?_, ?_, htake.cons hpasses⟩
  all_goals
    rw [ParseString, hflags]
    dsimp only
    rw [if_neg Bool.false_ne_true]
  · rw [Script.result_bind, Script.result_lift, hs']
    rfl
  · rw [Script.events_bind_of_done (hs' : (Script.lift _).result = _)]
    simp

/-- What is read as a string is a string literal. -/
theorem parseString_sound (hflags : flags.insitu = false) {isKey : Bool} {s s' : Stream}
    (hquote : s.Peek = '"'.toUInt8) (h : (ParseString flags s isKey).result = .done s') :
    ∃ raw str, Chars raw str ∧ s.Passes (quoted raw) s' ∧
      (ParseString flags s isKey).events = [stringEvent isKey str] := by
  rw [ParseString, hflags] at h ⊢
  dsimp only at h ⊢
  rw [if_neg Bool.false_ne_true] at h ⊢
  obtain ⟨⟨s₁, stack⟩, h₁, h₂, hevents⟩ := Script.bind_eq_done h
  obtain ⟨raw, str, hchars, hpasses, rfl⟩ := parseStringToStream_sound hflags h₁
  obtain ⟨rest, hrest⟩ := Stream.rest_of_peek hquote (by decide)
  cases h₂
  refine ⟨raw, str, hchars, (Stream.take_passes hrest).cons hpasses, ?_⟩
  rw [hevents]
  simp

end GenericReader

end RapidJson
