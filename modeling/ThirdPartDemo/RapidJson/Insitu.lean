import ThirdPartDemo.RapidJson.Handlers

/-!
# RapidJSON — parsing in situ

With `kParseInsituFlag` strings are decoded over the text they are read from, and the
handler is given the addresses. What is written never reaches what is still to be read,
so the parse is that of a text that is left alone, and no later string is written over
an earlier one.

* `parseStringToStream_insitu` — decoding in place;
* `parseStream_insitu` — a whole parse, beside the one that copies;
* `ParseInsitu_agrees` — and what a handler and a document see of it.
-/

namespace RapidJson

open Library

namespace GenericReader

-- ---------------------------------------------------------------------------
-- Two streams that pass the same text
-- ---------------------------------------------------------------------------

/-- Two streams at the same place, with the same text to come. -/
structure Abreast (is js : Stream) : Prop where
  rest : is.rest = js.rest
  tell : is.Tell = js.Tell

/-- Two streams pass the same text. -/
def Moved (is js is' js' : Stream) : Prop := ∃ t, is.Passes t is' ∧ js.Passes t js'

theorem Moved.refl (is js : Stream) : Moved is js is js :=
  ⟨[], Stream.Passes.refl is, Stream.Passes.refl js⟩

theorem Moved.trans {is js is' js' is'' js'' : Stream} (h : Moved is js is' js')
    (h' : Moved is' js' is'' js'') : Moved is js is'' js'' := by
  obtain ⟨t, hi, hj⟩ := h
  obtain ⟨t', hi', hj'⟩ := h'
  exact ⟨t ++ t', hi.trans hi', hj.trans hj'⟩

theorem Moved.abreast {is js is' js' : Stream} (h : Moved is js is' js')
    (habreast : Abreast is js) : Abreast is' js' := by
  obtain ⟨t, hi, hj⟩ := h
  constructor
  · have := habreast.rest
    rw [hi.rest, hj.rest] at this
    exact List.append_cancel_left this
  · have := habreast.tell
    unfold Stream.Tell at this ⊢
    rw [hi.passed, hj.passed, List.length_append, List.length_append, this]

variable {is js : Stream} (h : Abreast is js)
include h

theorem Abreast.peek : is.Peek = js.Peek := by
  rw [Stream.Peek, Stream.Peek, h.rest]

theorem Abreast.takeMany (n : Nat) : Moved is js (takeMany n is) (takeMany n js) := by
  refine ⟨is.rest.take n, ⟨?_, rfl, rfl, rfl⟩, ⟨?_, ?_, rfl, rfl⟩⟩
  · exact (List.take_append_drop n is.rest).symm
  · rw [h.rest]
    exact (List.take_append_drop n js.rest).symm
  · rw [h.rest]
    rfl

theorem Abreast.skipWhitespace : Moved is js (SkipWhitespace is) (SkipWhitespace js) := by
  refine ⟨is.rest.takeWhile isJsonSpace, ⟨?_, rfl, rfl, rfl⟩, ⟨?_, ?_, rfl, rfl⟩⟩
  · exact List.takeWhile_append_dropWhile.symm
  · rw [h.rest]
    exact List.takeWhile_append_dropWhile.symm
  · rw [h.rest]
    rfl

theorem Abreast.take : Moved is js is.Take js.Take := by
  cases hrest : is.rest with
  | nil =>
    have hi : is.Take = is := by rw [Stream.Take, hrest]
    have hj : js.Take = js := by rw [Stream.Take, ← h.rest, hrest]
    rw [hi, hj]
    exact Moved.refl is js
  | cons b rest =>
    exact ⟨[b], Stream.take_passes hrest, Stream.take_passes (h.rest ▸ hrest)⟩

theorem Abreast.consume (b : UInt8) :
    (is.Consume b = none ∧ js.Consume b = none) ∨
      ∃ is' js', is.Consume b = some is' ∧ js.Consume b = some js' ∧ Moved is js is' js' := by
  unfold Stream.Consume
  rw [h.peek]
  split
  · exact .inr ⟨_, _, rfl, rfl, h.take⟩
  · exact .inl ⟨rfl, rfl⟩

omit h in
theorem consumeAll_moved (expect : Bytes) {is js : Stream} (h : Abreast is js) :
    (consumeAll expect is).1 = (consumeAll expect js).1 ∧
      Moved is js (consumeAll expect is).2 (consumeAll expect js).2 := by
  induction expect generalizing is js with
  | nil => exact ⟨rfl, Moved.refl is js⟩
  | cons b expect ih =>
    rw [consumeAll, consumeAll]
    obtain ⟨hi, hj⟩ | ⟨is', js', hi, hj, hmoved⟩ := h.consume b
    · rw [hi, hj]
      exact ⟨rfl, Moved.refl is js⟩
    · rw [hi, hj]
      obtain ⟨hsame, hmoved'⟩ := ih (hmoved.abreast h)
      exact ⟨hsame, hmoved.trans hmoved'⟩

omit h in
theorem skipComments_moved (fuel : Nat) {is js : Stream} (h : Abreast is js) :
    (skipComments fuel is).Related (Moved is js) (skipComments fuel js) := by
  induction fuel generalizing is js with
  | zero => trivial
  | succ fuel ih =>
    have hgo : ∀ {is' js'}, Moved is js is' js' → ∀ n,
        (skipComments fuel (SkipWhitespace (takeMany n is'))).Related (Moved is js)
          (skipComments fuel (SkipWhitespace (takeMany n js'))) := by
      intro is' js' hmoved n
      have habreast := hmoved.abreast h
      have htake := habreast.takeMany n
      have hskip := (htake.abreast habreast).skipWhitespace
      have hall := hmoved.trans (htake.trans hskip)
      exact (ih (hall.abreast h)).mono fun _ _ hmoved' => hall.trans hmoved'
    rw [skipComments, skipComments]
    obtain ⟨hi, hj⟩ | ⟨is₁, js₁, hi, hj, hmoved₁⟩ := h.consume '/'.toUInt8
    · rw [hi, hj]
      exact Moved.refl is js
    rw [hi, hj]
    dsimp only
    have h₁ := hmoved₁.abreast h
    obtain ⟨hi, hj⟩ | ⟨is₂, js₂, hi, hj, hmoved₂⟩ := h₁.consume '*'.toUInt8
    · rw [hi, hj]
      dsimp only
      obtain ⟨hi, hj⟩ | ⟨is₂, js₂, hi, hj, hmoved₂⟩ := h₁.consume '/'.toUInt8
      · rw [hi, hj, h₁.tell]
        exact rfl
      · rw [hi, hj]
        dsimp only
        rw [(hmoved₂.abreast h₁).rest]
        exact hgo (hmoved₁.trans hmoved₂) _
    · rw [hi, hj]
      dsimp only
      have h₂ := hmoved₂.abreast h₁
      rw [h₂.rest, h₂.tell]
      cases blockComment js₂.rest with
      | none => exact rfl
      | some n => exact hgo (hmoved₁.trans hmoved₂) n

theorem skipWhitespaceAndComments_moved (flags : ParseFlags) (insitu insitu' : Bool) :
    (SkipWhitespaceAndComments { flags with insitu } is).Related (Moved is js)
      (SkipWhitespaceAndComments { flags with insitu := insitu' } js) := by
  have hskip := h.skipWhitespace
  have habreast := hskip.abreast h
  unfold SkipWhitespaceAndComments
  dsimp only
  rw [habreast.rest]
  split
  · exact (skipComments_moved _ habreast).mono fun _ _ hmoved => hskip.trans hmoved
  · exact hskip

/-- The streams move as one, and the results are the same. -/
def MovedWith {α : Type} (is js : Stream) (x y : α × Stream) : Prop :=
  x.1 = y.1 ∧ Moved is js x.2 y.2

omit h in
theorem hexRounds_moved (escapeOffset k acc : Nat) {is js : Stream} (h : Abreast is js) :
    (hexRounds escapeOffset k acc is).Related (MovedWith is js)
      (hexRounds escapeOffset k acc js) := by
  induction k generalizing acc is js with
  | zero => exact ⟨rfl, Moved.refl is js⟩
  | succ k ih =>
    rw [hexRounds, hexRounds, h.peek]
    cases hexDigit js.Peek with
    | none => exact rfl
    | some d =>
      have htake := h.take
      exact (ih _ (htake.abreast h)).mono fun _ _ hmoved => ⟨hmoved.1, htake.trans hmoved.2⟩

theorem parseCodepoint_moved (escapeOffset : Nat) :
    (parseCodepoint is escapeOffset).Related (MovedWith is js)
      (parseCodepoint js escapeOffset) := by
  refine (hexRounds_moved escapeOffset 4 0 h).bind ?_
  rintro ⟨codepoint, is₁⟩ ⟨_, js₁⟩ - ⟨rfl, hmoved₁⟩
  dsimp only at hmoved₁ ⊢
  split
  · obtain ⟨hsame, hmoved₂⟩ :=
      consumeAll_moved ['\\'.toUInt8, 'u'.toUInt8] (hmoved₁.abreast h)
    rcases hi : consumeAll ['\\'.toUInt8, 'u'.toUInt8] is₁ with ⟨_ | _, is₂⟩
    all_goals rcases hj : consumeAll ['\\'.toUInt8, 'u'.toUInt8] js₁ with ⟨_ | _, js₂⟩
    all_goals rw [hi, hj] at hsame hmoved₂
    · exact rfl
    · cases hsame
    · cases hsame
    · have hmoved := hmoved₁.trans hmoved₂
      refine (hexRounds_moved escapeOffset 4 0 (hmoved.abreast h)).bind ?_
      rintro ⟨codepoint2, is₃⟩ ⟨_, js₃⟩ - ⟨rfl, hmoved₃⟩
      dsimp only at hmoved₃ ⊢
      split
      · exact rfl
      · exact ⟨rfl, hmoved.trans hmoved₃⟩
  · exact ⟨rfl, hmoved₁⟩

-- ---------------------------------------------------------------------------
-- Decoding in place
-- ---------------------------------------------------------------------------

omit h in
/-- Since `PutBegin` at `base` the string `stack` has been put, and `junk` is what is left
of the text that has been read. -/
structure Decoding (base is js : Stream) (stack junk : Bytes) : Prop where
  abreast : Abreast is js
  passed : is.passed = base.passed ++ (stack ++ junk)
  dst : is.dst = base.Tell + stack.length
  strings : is.strings = base.strings

omit h

theorem Decoding.moved {base is js is' js' : Stream} {stack junk : Bytes}
    (h : Decoding base is js stack junk) (hmoved : Moved is js is' js') :
    ∃ t, is.Passes t is' ∧ Decoding base is' js' stack (junk ++ t) := by
  have habreast := hmoved.abreast h.abreast
  obtain ⟨t, hi, -⟩ := hmoved
  refine ⟨t, hi, habreast, ?_, hi.dst.trans h.dst, hi.strings.trans h.strings⟩
  rw [hi.passed, h.passed, List.append_assoc, List.append_assoc]

theorem Decoding.take {base is js : Stream} {stack junk : Bytes}
    (h : Decoding base is js stack junk) (hpeek : js.Peek ≠ 0) :
    ∃ junk', junk' ≠ [] ∧ Decoding base is.Take js.Take stack junk' := by
  obtain ⟨rest, hrest⟩ := Stream.rest_of_peek rfl hpeek
  obtain ⟨t, hpasses, hdecoding⟩ := h.moved h.abreast.take
  refine ⟨_, List.append_ne_nil_of_right_ne_nil _ ?_, hdecoding⟩
  rintro rfl
  have hsame := hpasses.length
  rw [Stream.take_rest (h.abreast.rest.trans hrest), h.abreast.rest, hrest] at hsame
  simp at hsame

/-- A character is put over text that has been read. -/
theorem Decoding.overwrite {base is js : Stream} {stack junk : Bytes} {b : UInt8}
    (h : Decoding base is js stack (b :: junk)) (c : UInt8) :
    Decoding base (is.Put c) js (stack ++ [c]) junk := by
  have hlt : is.dst < is.passed.length := by
    rw [h.dst, h.passed, Stream.Tell]
    simp only [List.length_append, List.length_cons]
    omega
  have hset : is.passed.set is.dst c = base.passed ++ (stack ++ c :: junk) := by
    rw [h.dst, h.passed, Stream.Tell, List.set_append_right _ _ (by omega),
      List.set_append_right _ _ (by omega),
      show base.passed.length + stack.length - base.passed.length - stack.length = 0 by omega,
      List.set_cons_zero]
  rw [Stream.Put, if_pos hlt, hset]
  refine ⟨⟨h.abreast.rest, ?_⟩, ?_, ?_, h.strings⟩
  · rw [← h.abreast.tell, Stream.Tell, Stream.Tell, h.passed]
    simp only [List.length_append, List.length_cons]
  · simp
  · rw [h.dst, List.length_append, List.length_singleton]
    rfl

theorem Decoding.overwrites {base is js : Stream} {stack junk : Bytes} (flags : ParseFlags)
    (h : Decoding base is js stack junk) {cs : Bytes} (hcs : cs.length ≤ junk.length) :
    ∃ is' junk', cs.foldl (put { flags with insitu := true }) (is, []) = (is', []) ∧
      Decoding base is' js (stack ++ cs) junk' := by
  induction cs generalizing is stack junk with
  | nil => exact ⟨is, junk, rfl, by rwa [List.append_nil]⟩
  | cons c cs ih =>
    cases junk with
    | nil => exact absurd hcs (Nat.not_succ_le_zero _)
    | cons b junk =>
      obtain ⟨is', junk', hfold, hdecoding⟩ := ih (h.overwrite c) (Nat.le_of_succ_le_succ hcs)
      refine ⟨is', junk', hfold, ?_⟩
      rwa [List.append_assoc] at hdecoding

/-- **Decoding in place** puts the string that decoding onto the stack makes. -/
theorem parseStringToStream_insitu (flags : ParseFlags) (fuel : Nat) {base is js : Stream}
    {stack junk : Bytes} (h : Decoding base is js stack junk) :
    (ParseStringToStream { flags with insitu := true } fuel (is, [])).Related
      (fun x y => ∃ str junk', y.2 = str ++ [0] ∧ Decoding base x.1 y.1 (str ++ [0]) junk')
      (ParseStringToStream { flags with insitu := false } fuel (js, stack)) := by
  induction fuel generalizing is js stack junk with
  | zero => trivial
  | succ fuel ih =>
    have hput : ∀ {is' js' : Stream} {junk' : Bytes} (cs : Bytes),
        Decoding base is' js' stack junk' → cs.length ≤ junk'.length →
        (ParseStringToStream { flags with insitu := true } fuel
          (cs.foldl (put { flags with insitu := true }) (is', []))).Related
          (fun x y => ∃ str junk', y.2 = str ++ [0] ∧ Decoding base x.1 y.1 (str ++ [0]) junk')
          (ParseStringToStream { flags with insitu := false } fuel
            (cs.foldl (put { flags with insitu := false }) (js', stack))) := by
      intro is' js' junk' cs hd hcs
      obtain ⟨is'', junk'', hfold, hdecoding⟩ := hd.overwrites flags hcs
      rw [hfold, foldl_put_stack rfl]
      exact ih hdecoding
    rw [ParseStringToStream, ParseStringToStream]
    dsimp only
    rw [h.abreast.peek, h.abreast.tell]
    split
    case isTrue hslash =>
      obtain ⟨junk₁, hjunk₁, hd₁⟩ := h.take (hslash ▸ by decide)
      obtain ⟨t, hpasses, hd₂⟩ := hd₁.moved hd₁.abreast.take
      rw [hd₁.abreast.peek]
      have hroom : ∀ u, [escape js.Take.Peek].length ≤ (junk₁ ++ u).length := by
        intro u
        have := List.length_pos_of_ne_nil hjunk₁
        rw [List.length_append, List.length_singleton]
        omega
      split
      · exact hput [_] hd₂ (hroom t)
      split
      · refine (parseCodepoint_moved hd₂.abreast js.Tell).bind ?_
        rintro ⟨codepoint, is₃⟩ ⟨_, js₃⟩ hi ⟨rfl, hmoved⟩
        obtain ⟨u, hpasses', hd₃⟩ := hd₂.moved hmoved
        have hlength := parseCodepoint_length hi hpasses'
        refine hput (utf8 codepoint) hd₃ ((utf8_length_le codepoint).trans ?_)
        rw [List.length_append]
        omega
      · exact rfl
    case isFalse hslash =>
      split
      case isTrue hquote =>
        obtain ⟨junk₁, hjunk₁, hd₁⟩ := h.take (hquote ▸ by decide)
        obtain ⟨is₂, junk₂, hfold, hd₂⟩ :=
          hd₁.overwrites flags (show [(0 : UInt8)].length ≤ _ from List.length_pos_of_ne_nil hjunk₁)
        rw [show put { flags with insitu := true } (is.Take, []) 0 = _ from hfold,
          put_stack rfl]
        exact ⟨stack, junk₂, rfl, hd₂⟩
      split
      · split
        · exact rfl
        · exact rfl
      case isFalse hquote hcontrol =>
        have hzero : js.Peek ≠ 0 := fun hzero => hcontrol (hzero ▸ by decide)
        obtain ⟨junk₁, hjunk₁, hd₁⟩ := h.take hzero
        exact hput [_] hd₁ (List.length_pos_of_ne_nil hjunk₁)

-- ---------------------------------------------------------------------------
-- The strings that are handed over
-- ---------------------------------------------------------------------------

/-- The string that a call hands over. -/
def stringOf : SaxEvent → Option Bytes
  | .string str | .key str => some str
  | _ => none

/-- The strings lie one after the other between an offset and the read position, each
with its null. -/
def Placed (s : Stream) : Nat → List (Nat × Bytes) → Prop
  | start, [] => start ≤ s.Tell
  | start, (head, str) :: strings =>
    start ≤ head ∧ s.memory head (str.length + 1) = str ++ [0] ∧
      Placed s (head + str.length + 1) strings

theorem Placed.le {s : Stream} {start : Nat} {strings : List (Nat × Bytes)}
    (h : Placed s start strings) : start ≤ s.Tell := by
  induction strings generalizing start with
  | nil => exact h
  | cons x strings ih =>
    obtain ⟨head, str⟩ := x
    obtain ⟨hstart, -, hrest⟩ := h
    have := ih hrest
    omega

/-- What has been read stays where it is when the reader goes on. -/
theorem memory_of_frame {s s' : Stream} (h : s.passed <+: s'.passed) {head n : Nat}
    (hn : head + n ≤ s.Tell) : s'.memory head n = s.memory head n := by
  obtain ⟨t, ht⟩ := h
  unfold Stream.Tell at hn
  unfold Stream.memory
  rw [← ht, List.append_assoc, List.drop_append_of_le_length (by omega),
    List.drop_append_of_le_length (by omega), List.take_append_of_le_length,
    List.take_append_of_le_length]
  all_goals
    rw [List.length_drop]
    omega

theorem Placed.append {s s' : Stream} {start : Nat} {strings strings' : List (Nat × Bytes)}
    (h : Placed s start strings) (hframe : s.passed <+: s'.passed)
    (h' : Placed s' s.Tell strings') : Placed s' start (strings ++ strings') := by
  induction strings generalizing start with
  | nil =>
    cases strings' with
    | nil => exact Nat.le_trans h h'
    | cons x strings' => exact ⟨Nat.le_trans h h'.1, h'.2⟩
  | cons x strings ih =>
    obtain ⟨head, str⟩ := x
    obtain ⟨hstart, hmemory, hrest⟩ := h
    refine ⟨hstart, ?_, ih hrest⟩
    rw [memory_of_frame hframe (by have := hrest.le; omega), hmemory]

/-- The reader has come from `s` to `s'` with these events, has left alone what was read
before, and has put the strings of the events after it. -/
structure Decodes (s : Stream) (es : List SaxEvent) (s' : Stream) : Prop where
  frame : s.passed <+: s'.passed
  placed : ∃ strings, s'.strings = s.strings ++ strings ∧
    strings.map Prod.snd = es.filterMap stringOf ∧ Placed s' s.Tell strings

theorem Decodes.trans {s s' s'' : Stream} {es es' : List SaxEvent} (h : Decodes s es s')
    (h' : Decodes s' es' s'') : Decodes s (es ++ es') s'' := by
  obtain ⟨strings, hstrings, hevents, hplaced⟩ := h.placed
  obtain ⟨strings', hstrings', hevents', hplaced'⟩ := h'.placed
  refine ⟨h.frame.trans h'.frame, strings ++ strings', ?_, ?_, hplaced.append h'.frame hplaced'⟩
  · rw [hstrings', hstrings, List.append_assoc]
  · rw [List.map_append, List.filterMap_append, hevents, hevents']

theorem decodes_of_passes {s s' : Stream} {t : Bytes} (h : s.Passes t s') : Decodes s [] s' where
  frame := ⟨t, h.passed.symm⟩
  placed := by
    refine ⟨[], h.strings.trans (List.append_nil _).symm, rfl, ?_⟩
    show s.passed.length ≤ s'.passed.length
    rw [h.passed, List.length_append]
    omega

/-- A call without a string. -/
theorem Decodes.silent {s s' : Stream} (h : Decodes s [] s') {e : SaxEvent}
    (he : stringOf e = none) : Decodes s [e] s' := by
  obtain ⟨strings, hstrings, hevents, hplaced⟩ := h.placed
  refine ⟨h.frame, strings, hstrings, ?_, hplaced⟩
  rw [hevents, List.filterMap_cons_none he]

/-- What a part of the reader does in place, beside the part that copies. -/
def Beside (is : Stream) (es : List SaxEvent) (is' js' : Stream) : Prop :=
  Abreast is' js' ∧ Decodes is es is'

theorem Moved.beside {is js is' js' : Stream} (h : Moved is js is' js')
    (habreast : Abreast is js) : Beside is [] is' js' := by
  refine ⟨h.abreast habreast, ?_⟩
  obtain ⟨t, hi, -⟩ := h
  exact decodes_of_passes hi

/-- **A string in place** is the string that is copied, with its null after it. -/
theorem parseString_insitu (flags : ParseFlags) (isKey : Bool) {is js : Stream}
    (h : Abreast is js) :
    (ParseString { flags with insitu := true } is isKey).Follows (Beside is)
      (ParseString { flags with insitu := false } js isKey) := by
  have htake := h.take
  have habreast := htake.abreast h
  have hstart : Decoding is.Take.PutBegin.2 is.Take.PutBegin.2 js.Take [] [] :=
    ⟨⟨habreast.rest, habreast.tell⟩, (List.append_nil _).symm, rfl, rfl⟩
  have hdecoded := parseStringToStream_insitu flags (js.Take.rest.length + 1) hstart
  unfold ParseString
  dsimp only
  rw [if_pos rfl, if_neg Bool.false_ne_true, show is.Take.PutBegin.2.rest = _ from habreast.rest]
  refine (Script.follows_lift (R := fun es x y => es = [] ∧ ∃ str junk, y.2 = str ++ [0] ∧
    Decoding is.Take.PutBegin.2 x.1 y.1 (str ++ [0]) junk)
    (hdecoded.mono fun _ _ hxy => ⟨rfl, hxy⟩)).bind ?_
  rintro _ ⟨is₁, _⟩ ⟨js₁, _⟩ ⟨rfl, str, junk, rfl, hd⟩
  dsimp only at hd ⊢
  have hlength : is₁.PutEnd is.Take.PutBegin.1 - 1 = str.length := by
    rw [Stream.PutEnd, hd.dst, List.length_append, List.length_singleton]
    show is.Take.Tell + (str.length + 1) - is.Take.Tell - 1 = str.length
    omega
  have hhead : is.Take.PutBegin.1 = is.Take.PutBegin.2.passed.length := rfl
  have hmemory : ∀ n, n ≤ str.length + 1 →
      is₁.memory is.Take.PutBegin.1 n = (str ++ [0]).take n := by
    intro n hn
    rw [Stream.memory, hd.passed, hhead, List.append_assoc, List.drop_left, List.append_assoc,
      List.take_append_of_le_length]
    rw [List.length_append]
    exact hn
  have hstr : is₁.memory is.Take.PutBegin.1 str.length = str := by
    rw [hmemory _ (Nat.le_succ _), List.take_left]
  rw [hlength, hstr, List.length_append, List.length_singleton, Nat.add_sub_cancel, List.take_left,
    hd.abreast.tell]
  obtain ⟨t, hpasses, -⟩ := htake
  have hread : is₁.passed = is.passed ++ (t ++ ((str ++ [0]) ++ junk)) := by
    rw [hd.passed, show is.Take.PutBegin.2.passed = is.Take.passed from rfl, hpasses.passed,
      List.append_assoc]
  have hevent : [stringEvent isKey str].filterMap stringOf = [str] := by
    cases isKey
    · rfl
    · rfl
  have hplaced : Placed { is₁ with strings := is₁.strings ++ [(is.Take.PutBegin.1, str)] } is.Tell
      [(is.Take.PutBegin.1, str)] := by
    refine ⟨?_, (hmemory _ (Nat.le_refl _)).trans (List.take_of_length_le (by simp)), ?_⟩
    · show is.passed.length ≤ is.Take.passed.length
      rw [hpasses.passed, List.length_append]
      omega
    · show is.Take.passed.length + str.length + 1 ≤ is₁.passed.length
      rw [hread, hpasses.passed]
      simp only [List.length_append, List.length_singleton]
      omega
  have hstrings : is₁.strings = is.strings := hd.strings.trans hpasses.strings
  exact Script.follows_call _ _ ⟨⟨hd.abreast.rest, hd.abreast.tell⟩, ⟨_, hread.symm⟩,
    [(is.Take.PutBegin.1, str)], congrArg (· ++ _) hstrings, hevent.symm, hplaced⟩

-- ---------------------------------------------------------------------------
-- The reader in place
-- ---------------------------------------------------------------------------

theorem Beside.trans {is is' js' is'' js'' : Stream} {es es' : List SaxEvent}
    (h : Beside is es is' js') (h' : Beside is' es' is'' js'') : Beside is (es ++ es') is'' js'' :=
  ⟨h'.1, h.2.trans h'.2⟩

/-- A call without a string. -/
theorem Beside.silent {is is' js' : Stream} (h : Beside is [] is' js') {e : SaxEvent}
    (he : stringOf e = none) : Beside is [e] is' js' := ⟨h.1, h.2.silent he⟩

/-- One part after the other. -/
theorem follows_bind {is : Stream} {x y : Script ParseError Stream}
    {f g : Stream → Script ParseError Stream} (h : x.Follows (Beside is) y)
    (hfg : ∀ is' js', Abreast is' js' → (f is').Follows (Beside is') (g js')) :
    (x.bind f).Follows (Beside is) (y.bind g) :=
  h.bind fun _ is' js' hbeside => (hfg is' js' hbeside.1).mono fun _ _ _ => hbeside.trans

theorem follows_of_moved {is js is' js' : Stream} (h : Abreast is js)
    (hmoved : Moved is js is' js') {x y : Script ParseError Stream}
    (hxy : x.Follows (Beside is') y) : x.Follows (Beside is) y :=
  hxy.mono fun _ _ _ => (hmoved.beside h).trans

theorem follows_silent {is js is' js' : Stream} (h : Abreast is js)
    (hmoved : Moved is js is' js') {event : SaxEvent} (he : stringOf event = none)
    (e : ParseError) :
    (Script.call event e is').Follows (Beside is) (.call event e js') :=
  Script.follows_call _ _ ((hmoved.beside h).silent he)

section Parts

variable (flags : ParseFlags)

theorem skip_insitu {is js : Stream} (h : Abreast is js)
    {f g : Stream → Script ParseError Stream}
    (hfg : ∀ is' js', Abreast is' js' → (f is').Follows (Beside is') (g js')) :
    (skip { flags with insitu := true } is f).Follows (Beside is)
      (skip { flags with insitu := false } js g) := by
  refine follows_bind (Script.follows_lift ?_) hfg
  exact (skipWhitespaceAndComments_moved h flags true false).mono fun _ _ hmoved => hmoved.beside h

theorem parseLiteral_insitu (tail : Bytes) {event : SaxEvent} (he : stringOf event = none)
    {is js : Stream} (h : Abreast is js) :
    (parseLiteral tail event is).Follows (Beside is) (parseLiteral tail event js) := by
  have htake := h.take
  obtain ⟨hsame, hmoved⟩ := consumeAll_moved tail (htake.abreast h)
  unfold parseLiteral
  rcases hi : consumeAll tail is.Take with ⟨_ | _, is₁⟩
  all_goals rcases hj : consumeAll tail js.Take with ⟨_ | _, js₁⟩
  all_goals rw [hi, hj] at hsame hmoved
  · dsimp only at hmoved ⊢
    rw [((htake.trans hmoved).abreast h).tell]
    exact Script.follows_fail _
  · cases hsame
  · cases hsame
  · dsimp only at hmoved ⊢
    rw [((htake.trans hmoved).abreast h).tell]
    exact follows_silent h (htake.trans hmoved) he _

theorem parseNumber_insitu {is js : Stream} (h : Abreast is js) :
    (ParseNumber is).Follows (Beside is) (ParseNumber js) := by
  unfold ParseNumber
  rw [h.tell, h.rest]
  cases hx : scanNumber ⟨js.Tell, [], js.rest⟩ with
  | fail e => exact ⟨rfl, rfl⟩
  | aborted => exact ⟨rfl, trivial⟩
  | outOfFuel => exact ⟨rfl, trivial⟩
  | done x =>
    obtain ⟨n, ns⟩ := x
    obtain ⟨l, rest, -, -, hrest, -, rfl⟩ := scanNumber_sound hx
    have he : stringOf (.number n) = none := rfl
    refine follows_silent h ?_ he _
    exact ⟨l.text, ⟨h.rest.trans hrest, rfl, rfl, rfl⟩, ⟨hrest, rfl, rfl, rfl⟩⟩

/-- The two brackets. -/
structure Bracket.Silent (bracket : Bracket) : Prop where
  start : stringOf bracket.start = none
  finish : ∀ count, stringOf (bracket.finish count) = none

variable {item item' : Stream → Script ParseError Stream}
  (hitem : ∀ is js, Abreast is js → (item is).Follows (Beside is) (item' js))
  {bracket : Bracket} (hbracket : Bracket.Silent bracket)
include hitem hbracket

theorem items_insitu (loops count : Nat) {is js : Stream} (h : Abreast is js) :
    (items { flags with insitu := true } bracket item loops count is).Follows (Beside is)
      (items { flags with insitu := false } bracket item' loops count js) := by
  induction loops generalizing count is js with
  | zero => exact ⟨rfl, trivial⟩
  | succ loops ih =>
    rw [items, items]
    refine follows_bind (hitem is js h) fun is₁ js₁ h₁ => skip_insitu flags h₁ fun is₂ js₂ h₂ => ?_
    dsimp only
    rw [h₂.peek]
    have htake := h₂.take
    have h₃ := htake.abreast h₂
    split
    · refine follows_of_moved h₂ htake (skip_insitu flags h₃ fun is₄ js₄ h₄ => ?_)
      rw [h₄.peek, h₄.tell]
      split
      · exact follows_silent h₄ h₄.take (hbracket.finish _) _
      · exact ih _ h₄
    · split
      · rw [h₃.tell]
        exact follows_silent h₂ htake (hbracket.finish _) _
      · rw [h₂.tell]
        exact Script.follows_fail _

theorem compound_insitu {is js : Stream} (h : Abreast is js) :
    (compound { flags with insitu := true } bracket item is).Follows (Beside is)
      (compound { flags with insitu := false } bracket item' js) := by
  have htake := h.take
  unfold compound
  rw [(htake.abreast h).tell]
  refine follows_bind (follows_silent h htake hbracket.start _) fun is₁ js₁ h₁ =>
    skip_insitu flags h₁ fun is₂ js₂ h₂ => ?_
  obtain ⟨hi, hj⟩ | ⟨is₃, js₃, hi, hj, hmoved⟩ := h₂.consume bracket.close
  · rw [hi, hj, h₂.rest]
    exact items_insitu flags hitem hbracket _ _ h₂
  · rw [hi, hj]
    dsimp only
    rw [(hmoved.abreast h₂).tell]
    exact follows_silent h₂ hmoved (hbracket.finish 0) _

end Parts

theorem member_insitu (flags : ParseFlags)
    {parseValue parseValue' : Stream → Script ParseError Stream}
    (hvalue : ∀ is js, Abreast is js → (parseValue is).Follows (Beside is) (parseValue' js))
    {is js : Stream} (h : Abreast is js) :
    (member { flags with insitu := true } parseValue is).Follows (Beside is)
      (member { flags with insitu := false } parseValue' js) := by
  unfold member
  rw [h.peek, h.tell]
  split
  · exact Script.follows_fail _
  · refine follows_bind (parseString_insitu flags true h) fun is₁ js₁ h₁ =>
      skip_insitu flags h₁ fun is₂ js₂ h₂ => ?_
    obtain ⟨hi, hj⟩ | ⟨is₃, js₃, hi, hj, hmoved⟩ := h₂.consume ':'.toUInt8
    · rw [hi, hj, h₂.tell]
      exact Script.follows_fail _
    · rw [hi, hj]
      exact follows_of_moved h₂ hmoved (skip_insitu flags (hmoved.abreast h₂) hvalue)

theorem objectBracket_silent : Bracket.Silent objectBracket := ⟨rfl, fun _ => rfl⟩

theorem arrayBracket_silent : Bracket.Silent arrayBracket := ⟨rfl, fun _ => rfl⟩

theorem parseValue_insitu (flags : ParseFlags) (fuel : Nat) {is js : Stream} (h : Abreast is js) :
    (ParseValue { flags with insitu := true } fuel is).Follows (Beside is)
      (ParseValue { flags with insitu := false } fuel js) := by
  induction fuel generalizing is js with
  | zero => exact ⟨rfl, trivial⟩
  | succ fuel ih =>
    rw [ParseValue, ParseValue, h.peek]
    split
    · exact parseLiteral_insitu _ rfl h
    split
    · exact parseLiteral_insitu _ rfl h
    split
    · exact parseLiteral_insitu _ rfl h
    split
    · exact parseString_insitu flags false h
    split
    · exact compound_insitu flags (fun _ _ => member_insitu flags fun _ _ => ih)
        objectBracket_silent h
    split
    · exact compound_insitu flags (fun _ _ => ih) arrayBracket_silent h
    · exact parseNumber_insitu h

/-- **A parse in place** makes the calls of the parse that copies. -/
theorem parseStream_insitu (flags : ParseFlags) {is js : Stream} (h : Abreast is js) :
    (parseStream { flags with insitu := true } is).Follows (Beside is)
      (parseStream { flags with insitu := false } js) := by
  refine skip_insitu flags h fun is₁ js₁ h₁ => ?_
  dsimp only
  rw [h₁.peek, h₁.tell, h₁.rest]
  split
  · exact Script.follows_fail _
  · refine follows_bind (parseValue_insitu flags _ h₁) fun is₂ js₂ h₂ => ?_
    split
    · exact Script.follows_pure ((Moved.refl is₂ js₂).beside h₂)
    · refine skip_insitu flags h₂ fun is₃ js₃ h₃ => ?_
      rw [h₃.peek, h₃.tell]
      split
      · exact Script.follows_fail _
      · exact Script.follows_pure ((Moved.refl is₃ js₃).beside h₃)

end GenericReader

namespace GenericDocument

open GenericReader

/-- A document parsed in place is the document that is parsed of a text left alone. -/
theorem parseInsitu_eq (flags : ParseFlags) (str : Bytes) (d : GenericDocument) :
    d.ParseInsitu flags str = d.ParseStream { flags with insitu := false } str := by
  have hfollows := parseStream_insitu flags
    (show Abreast (StringStream str) (StringStream str) from ⟨rfl, rfl⟩)
  obtain ⟨hstate, hends⟩ := hfollows.play call (some [])
  unfold ParseInsitu ParseStream Parse
  rcases hi : (parseStream { flags with insitu := true } (StringStream str)).play call (some [])
    with ⟨x, stack⟩
  rcases hj : (parseStream { flags with insitu := false } (StringStream str)).play call (some [])
    with ⟨y, stack'⟩
  rw [hi, hj] at hstate hends
  cases hstate
  cases x
  all_goals cases y
  case done.done =>
    rcases stack with _ | _ | ⟨v, _ | ⟨_, _⟩⟩
    all_goals rfl
  all_goals first | rfl | cases hends
  rfl

end GenericDocument

namespace GenericReader

/-- **Parsing in place agrees** with parsing, for every handler: the same calls, the same
end, the same error, and so for a document. The strings that were handed over in place are
those of the calls, and at the end they still lie in the text, one after the other, each
with its null. -/
theorem ParseInsitu_agrees (flags : ParseFlags) (json : Bytes) :
    (∀ {σ : Type} (handler : σ → SaxEvent → Bool × σ) (s : σ),
      (Parse { flags with insitu := true } json handler s).2 =
          (Parse { flags with insitu := false } json handler s).2 ∧
        (Parse { flags with insitu := true } json handler s).1.Related
          (fun is js => is.rest = js.rest ∧ is.Tell = js.Tell ∧
            is.strings.map Prod.snd = (parseStream { flags with insitu := false }
              (StringStream json)).events.filterMap stringOf ∧ Placed is 0 is.strings)
          (Parse { flags with insitu := false } json handler s).1) ∧
    ∀ d : GenericDocument,
      d.ParseInsitu flags json = d.ParseStream { flags with insitu := false } json := by
  refine ⟨fun handler s => ?_, GenericDocument.parseInsitu_eq flags json⟩
  have hfollows := parseStream_insitu flags
    (show Abreast (StringStream json) (StringStream json) from ⟨rfl, rfl⟩)
  obtain ⟨hstate, hends⟩ := hfollows.play handler s
  have hevents : (parseStream { flags with insitu := true } (StringStream json)).events =
      (parseStream { flags with insitu := false } (StringStream json)).events :=
    congrArg (List.map Prod.fst) hfollows.1
  refine ⟨hstate, hends.mono fun is js hbeside => ?_⟩
  obtain ⟨strings, hstrings, hsame, hplaced⟩ := hbeside.2.placed
  rw [hevents] at hsame
  rw [show is.strings = strings from hstrings]
  exact ⟨hbeside.1.rest, hbeside.1.tell, hsame, hplaced⟩

end GenericReader

end RapidJson
