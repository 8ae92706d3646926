import ThirdPartDemo.RapidJson.Numbers
import ThirdPartDemo.RapidJson.Strings

/-!
# RapidJSON — the reader against the grammar

Without comments `GenericReader::Parse` accepts exactly the JSON texts, and hands the
document over as its events. Trailing commas are part of the grammar when the flag is
set.

* `parseValue_complete` — what the grammar derives is read, in any place where the
  text does not go on with a number;
* `parseValue_sound` — what is read is derived;
* `parse_iff_jsonText` — a whole parse.
-/

namespace RapidJson

open Library

namespace GenericReader

/-- The dialect of the reader. -/
def dialect (flags : ParseFlags) : Dialect :=
  { double := doubleOf, trailingCommas := flags.trailingCommas }

/-- What may follow a value: the end, white space, or the text goes on with the
enclosing array or object. -/
def Stops (rest : Bytes) : Prop :=
  ∀ b ∈ rest.head?, isJsonSpace b = true ∨ b = ','.toUInt8 ∨ b = ']'.toUInt8 ∨ b = '}'.toUInt8

/-- How values, elements and members start. -/
def Starts (text : Bytes) : Prop :=
  ∃ b rest, text = b :: rest ∧ isJsonSpace b = false ∧ b ≠ ','.toUInt8 ∧ b ≠ ']'.toUInt8 ∧
    b ≠ '}'.toUInt8

-- ---------------------------------------------------------------------------
-- White space
-- ---------------------------------------------------------------------------

/-- The text does not start with white space. -/
def NoSpace (rest : Bytes) : Prop := ∀ b ∈ rest.head?, isJsonSpace b = false

theorem Starts.noSpace {text rest : Bytes} (h : Starts text) : NoSpace (text ++ rest) := by
  obtain ⟨b, t, rfl, hb, -⟩ := h
  rintro c ⟨⟩
  exact hb

theorem skipWhitespace_passes (s : Stream) :
    ∃ gap, Blank gap ∧ s.Passes gap (SkipWhitespace s) ∧ NoSpace (SkipWhitespace s).rest := by
  refine ⟨s.rest.takeWhile isJsonSpace, List.all_eq_true.mp List.all_takeWhile,
    ⟨List.takeWhile_append_dropWhile.symm, rfl, rfl, rfl⟩, fun b hb => ?_⟩
  have hhead : (s.rest.dropWhile isJsonSpace).head? = some b := hb
  have := List.head?_dropWhile_not isJsonSpace s.rest
  rw [hhead] at this
  simpa using this

theorem skipWhitespace_blank {s : Stream} {gap rest : Bytes} (hgap : Blank gap)
    (hrest : s.rest = gap ++ rest) (hspace : NoSpace rest) : s.Passes gap (SkipWhitespace s) := by
  have hdrop : rest.dropWhile isJsonSpace = rest := by
    cases rest with
    | nil => rfl
    | cons b rest => rw [List.dropWhile_cons, hspace b rfl]; rfl
  have htake : rest.takeWhile isJsonSpace = [] := by
    cases rest with
    | nil => rfl
    | cons b rest => rw [List.takeWhile_cons, hspace b rfl]; rfl
  unfold SkipWhitespace
  rw [hrest, List.takeWhile_append_of_pos hgap, List.dropWhile_append_of_pos hgap, hdrop, htake,
    List.append_nil]
  exact ⟨hrest, rfl, rfl, rfl⟩

variable {flags : ParseFlags}

theorem skip_plain (hcomments : flags.comments = false) (is : Stream)
    (next : Stream → Script ParseError Stream) :
    skip flags is next = next (SkipWhitespace is) := by
  rw [skip, SkipWhitespaceAndComments, hcomments]
  rfl

-- ---------------------------------------------------------------------------
-- Simple values
-- ---------------------------------------------------------------------------

theorem Stops.ends {rest : Bytes} (h : Stops rest) (l : Literal) : Ends l rest := by
  have hnot : ∀ c : UInt8, (∀ b, (isJsonSpace b = true ∨ b = ','.toUInt8 ∨ b = ']'.toUInt8 ∨
      b = '}'.toUInt8) → b ≠ c) → rest.head? ≠ some c := fun c hc hhead => hc c (h c hhead) rfl
  have hspace : ∀ {b : UInt8}, isJsonSpace b = true →
      b = ' '.toUInt8 ∨ b = '\n'.toUInt8 ∨ b = '\r'.toUInt8 ∨ b = '\t'.toUInt8 := by
    intro b hb
    simpa [isJsonSpace, or_assoc] using hb
  refine ⟨.inr fun b hb => ?_, fun _ _ => hnot _ ?_, fun _ => ⟨hnot _ ?_, hnot _ ?_⟩⟩
  · obtain hs | rfl | rfl | rfl := h b hb
    · obtain rfl | rfl | rfl | rfl := hspace hs <;> rfl
    all_goals rfl
  all_goals
    rintro b (hs | rfl | rfl | rfl)
    · obtain rfl | rfl | rfl | rfl := hspace hs <;> decide
    all_goals decide

theorem parseLiteral_complete {b : UInt8} {tail : Bytes} (event : SaxEvent) {s : Stream}
    {rest : Bytes} (hrest : s.rest = b :: tail ++ rest) :
    ∃ s', (parseLiteral tail event s).Yields [event] s' ∧ s.Passes (b :: tail) s' := by
  obtain ⟨s', hs', hpasses⟩ := consumeAll_of_rest (Stream.take_rest hrest)
  refine ⟨s', ?_, (Stream.take_passes hrest).cons hpasses⟩
  rw [parseLiteral, hs']
  exact Script.yields_call _ _ _

theorem parseLiteral_sound {b : UInt8} (hb : b ≠ 0) {tail : Bytes} (htail : ∀ b ∈ tail, b ≠ 0)
    {event : SaxEvent} {s s' : Stream} (hpeek : s.Peek = b)
    (h : (parseLiteral tail event s).result = .done s') :
    s.Passes (b :: tail) s' ∧ (parseLiteral tail event s).events = [event] := by
  obtain ⟨rest, hrest⟩ := Stream.rest_of_peek hpeek hb
  rw [parseLiteral] at h ⊢
  rcases hconsume : consumeAll tail s.Take with ⟨_ | _, s₁⟩
  · rw [hconsume] at h
    cases h
  · rw [hconsume] at h
    cases h
    exact ⟨(Stream.take_passes hrest).cons (consumeAll_true htail hconsume), rfl⟩

theorem parseNumber_complete {l : Literal} (hl : l.WellFormed) {n : JsonNumber}
    (hn : l.number doubleOf = some n) {s : Stream} {rest : Bytes} (hrest : s.rest = l.text ++ rest)
    (hstops : Stops rest) :
    ∃ s', (ParseNumber s).Yields [.number n] s' ∧ s.Passes l.text s' := by
  have hscan := scanNumber_number hl (hstops.ends l) s.Tell [] hn
  refine ⟨{ s with passed := s.passed ++ l.text, rest }, ?_, hrest, rfl, rfl, rfl⟩
  rw [ParseNumber, hrest, hscan]
  exact Script.yields_call _ _ _

theorem parseNumber_sound {s s' : Stream} (h : (ParseNumber s).result = .done s') :
    ∃ l n, Literal.WellFormed l ∧ l.number doubleOf = some n ∧ s.Passes l.text s' ∧
      (ParseNumber s).events = [.number n] := by
  rw [ParseNumber] at h ⊢
  obtain ⟨⟨n, ns⟩, hscan, hresult, hevents⟩ := Script.bind_eq_done h
  rw [Script.result_lift] at hscan
  obtain ⟨l, rest, hl, -, hrest, hn, rfl⟩ := scanNumber_sound hscan
  cases hresult
  exact ⟨l, n, hl, hn, ⟨hrest, rfl, rfl, rfl⟩, by rw [hevents]; rfl⟩

theorem Literal.starts {l : Literal} (hl : l.WellFormed) :
    ∃ b rest, l.text = b :: rest ∧ (b = '-'.toUInt8 ∨ isDecimal b = true) := by
  obtain ⟨b, ds, hbs⟩ := List.exists_cons_of_ne_nil hl.digits.ne_nil
  have hb := hl.digits.isDecimal b (hbs ▸ List.mem_cons_self)
  rw [Literal.text, Literal.minus, hbs]
  cases l.negative with
  | true => exact ⟨_, _, rfl, .inl rfl⟩
  | false => exact ⟨_, _, rfl, .inr hb⟩

theorem starts_of_number {b : UInt8} (hb : b = '-'.toUInt8 ∨ isDecimal b = true) (rest : Bytes) :
    Starts (b :: rest) := by
  have hne : ∀ c : UInt8, c ≠ '-'.toUInt8 → isDecimal c = false → b ≠ c := by
    rintro c hc hdec rfl
    obtain rfl | hb := hb
    · exact hc rfl
    · rw [hdec] at hb
      cases hb
  refine ⟨b, rest, rfl, ?_, hne _ (by decide) rfl, hne _ (by decide) rfl, hne _ (by decide) rfl⟩
  have hspace : ∀ c, isJsonSpace c = true →
      c = ' '.toUInt8 ∨ c = '\n'.toUInt8 ∨ c = '\r'.toUInt8 ∨ c = '\t'.toUInt8 := fun c hc => by
    simpa [isJsonSpace, or_assoc] using hc
  by_contra hs
  rw [Bool.not_eq_false] at hs
  obtain h | h | h | h := hspace b hs <;> exact absurd h (hne _ (by decide) rfl)

/-- Every derived text starts with a character that is no white space and ends no
list. -/
theorem derives_starts {D : Dialect} {text : Bytes} {shape : Shape} (h : Derives D text shape) :
    Starts text := by
  have happ : ∀ {t : Bytes} (u : Bytes), Starts t → Starts (t ++ u) := by
    rintro t u ⟨b, rest, rfl, hb⟩
    exact ⟨b, rest ++ u, rfl, hb⟩
  induction h with
  | number hl hn =>
    obtain ⟨b, rest, heq, hb⟩ := Literal.starts hl
    rw [heq]
    exact starts_of_number hb rest
  | lastElement hv h ih => exact happ _ ih
  | trailingElement ht hv h h₂ ih => exact happ _ ih
  | consElement hv h h₂ hvs ih ih' => exact happ _ ih
  | lastMember hm h ih => exact happ _ ih
  | trailingMember ht hm h h₂ ih => exact happ _ ih
  | consMember hm h h₂ hms ih ih' => exact happ _ ih
  | _ => exact ⟨_, _, rfl, by decide, by decide, by decide, by decide⟩

-- ---------------------------------------------------------------------------
-- What the grammar derives is read
-- ---------------------------------------------------------------------------

theorem parseValue_number (fuel : Nat) {s : Stream}
    (hpeek : s.Peek = '-'.toUInt8 ∨ isDecimal s.Peek = true) :
    ParseValue flags (fuel + 1) s = ParseNumber s := by
  have hne : ∀ c : UInt8, c ≠ '-'.toUInt8 → isDecimal c = false → s.Peek ≠ c := by
    rintro c hc hdec rfl
    obtain h | h := hpeek
    · exact hc h
    · rw [hdec] at h
      cases h
  rw [ParseValue, if_neg (hne _ (by decide) rfl), if_neg (hne _ (by decide) rfl),
    if_neg (hne _ (by decide) rfl), if_neg (hne _ (by decide) rfl),
    if_neg (hne _ (by decide) rfl), if_neg (hne _ (by decide) rfl)]

theorem noSpace_cons {b : UInt8} (hb : isJsonSpace b = false) (rest : Bytes) :
    NoSpace (b :: rest) := by
  rintro c ⟨⟩
  exact hb

theorem Stops.blank {gap rest : Bytes} (hgap : Blank gap) (hrest : Stops rest) :
    Stops (gap ++ rest) := by
  cases gap with
  | nil => exact hrest
  | cons b gap =>
    rintro c ⟨⟩
    exact .inl (hgap b List.mem_cons_self)

theorem stops_comma (rest : Bytes) : Stops (','.toUInt8 :: rest) := by
  rintro c ⟨⟩
  exact .inr (.inl rfl)

theorem stops_square (rest : Bytes) : Stops (']'.toUInt8 :: rest) := by
  rintro c ⟨⟩
  exact .inr (.inr (.inl rfl))

theorem stops_curly (rest : Bytes) : Stops ('}'.toUInt8 :: rest) := by
  rintro c ⟨⟩
  exact .inr (.inr (.inr rfl))

/-- The values of a list are used as the reader and the grammar agree on them. -/
structure Bracket.Fits (bracket : Bracket) : Prop where
  noSpace : isJsonSpace bracket.close = false
  ne_comma : bracket.close ≠ ','.toUInt8
  ne_zero : bracket.close ≠ 0
  stops : ∀ rest, Stops (bracket.close :: rest)

theorem objectBracket_fits : objectBracket.Fits := ⟨rfl, by decide, by decide, stops_curly⟩
theorem arrayBracket_fits : arrayBracket.Fits := ⟨rfl, by decide, by decide, stops_square⟩

section Items

variable {bracket : Bracket} {item : Stream → Script ParseError Stream} {text : Bytes}
  {es : List SaxEvent}

/-- An item is read, in any place. -/
def ItemReads (item : Stream → Script ParseError Stream) (text : Bytes) (es : List SaxEvent) :
    Prop :=
  ∀ s rest, s.rest = text ++ rest → Stops rest → ∃ s', (item s).Yields es s' ∧ s.Passes text s'

/-- A list of `n` items is read, with what closes it. -/
def ListReads (flags : ParseFlags) (bracket : Bracket) (item : Stream → Script ParseError Stream)
    (text : Bytes) (es : List SaxEvent) (n : Nat) : Prop :=
  ∀ loops count s rest, text.length < loops → s.rest = text ++ bracket.close :: rest →
    ∃ s', (items flags bracket item loops count s).Yields (es ++ [bracket.finish (count + n)]) s' ∧
      s.Passes (text ++ [bracket.close]) s'

variable (hitem : ItemReads item text es) (hcomments : flags.comments = false)
include hitem hcomments

/-- An item and a comma, and what they lead to. -/
theorem items_comma {gap gap₂ rest : Bytes} (hgap : Blank gap) (hgap₂ : Blank gap₂)
    (hspace : NoSpace rest) (loops count : Nat) {s : Stream}
    (hrest : s.rest = text ++ (gap ++ ','.toUInt8 :: (gap₂ ++ rest))) :
    ∃ s₁, s₁.rest = rest ∧ s.Passes (text ++ (gap ++ ','.toUInt8 :: gap₂)) s₁ ∧
      ∀ es' s', (if flags.trailingCommas ∧ s₁.Peek = bracket.close then
          Script.call (bracket.finish (count + 1)) ⟨.Termination, s₁.Tell⟩ s₁.Take
        else items flags bracket item loops (count + 1) s₁).Yields es' s' →
        (items flags bracket item (loops + 1) count s).Yields (es ++ es') s' := by
  obtain ⟨s₁, hyields, hpasses₁⟩ := hitem s _ hrest (Stops.blank hgap (stops_comma _))
  have hrest₁ := hpasses₁.rest_eq hrest
  have hpasses₂ := skipWhitespace_blank hgap hrest₁ (noSpace_cons (by decide) _)
  have hrest₂ := hpasses₂.rest_eq hrest₁
  have hrest₃ := Stream.take_rest hrest₂
  have hpasses₄ := skipWhitespace_blank hgap₂ hrest₃ hspace
  refine ⟨_, hpasses₄.rest_eq hrest₃,
    hpasses₁.trans (hpasses₂.trans ((Stream.take_passes hrest₂).trans hpasses₄)),
    fun es' s' h => ?_⟩
  rw [items]
  refine hyields.bind ?_
  rw [skip_plain hcomments, Stream.peek_of_rest hrest₂]
  dsimp only
  rw [if_pos rfl, skip_plain hcomments]
  exact h

variable (hbracket : bracket.Fits)
include hbracket

/-- The last item of a list. -/
theorem listReads_last {gap : Bytes} (hgap : Blank gap) :
    ListReads flags bracket item (text ++ gap) es 1 := by
  intro loops count s rest hloops hrest
  obtain ⟨loops, rfl⟩ := Nat.exists_eq_add_one_of_ne_zero (Nat.ne_zero_of_lt hloops)
  rw [List.append_assoc] at hrest ⊢
  obtain ⟨s₁, hyields, hpasses₁⟩ := hitem s _ hrest (Stops.blank hgap (hbracket.stops rest))
  have hrest₁ := hpasses₁.rest_eq hrest
  have hpasses₂ := skipWhitespace_blank hgap hrest₁ (noSpace_cons hbracket.noSpace rest)
  have hrest₂ := hpasses₂.rest_eq hrest₁
  refine ⟨_, ?_, hpasses₁.trans (hpasses₂.trans (Stream.take_passes hrest₂))⟩
  rw [items]
  refine hyields.bind ?_
  rw [skip_plain hcomments, Stream.peek_of_rest hrest₂]
  dsimp only
  rw [if_neg hbracket.ne_comma, if_pos rfl]
  exact Script.yields_call _ _ _

/-- The last item of a list with a comma after it. -/
theorem listReads_trailing (ht : flags.trailingCommas = true) {gap gap₂ : Bytes}
    (hgap : Blank gap) (hgap₂ : Blank gap₂) :
    ListReads flags bracket item (text ++ (gap ++ ','.toUInt8 :: gap₂)) es 1 := by
  intro loops count s rest hloops hrest
  obtain ⟨loops, rfl⟩ := Nat.exists_eq_add_one_of_ne_zero (Nat.ne_zero_of_lt hloops)
  have hrest' : s.rest = text ++ (gap ++ ','.toUInt8 :: (gap₂ ++ bracket.close :: rest)) := by
    rw [hrest]
    simp
  obtain ⟨s₁, hrest₁, hpasses, hyields⟩ := items_comma hitem hcomments hgap hgap₂
    (noSpace_cons hbracket.noSpace rest) loops count hrest'
  refine ⟨_, hyields _ _ ?_, hpasses.trans (Stream.take_passes hrest₁)⟩
  rw [if_pos ⟨ht, Stream.peek_of_rest hrest₁⟩]
  exact Script.yields_call _ _ _

omit hbracket in
/-- An item, a comma and the items after it. -/
theorem listReads_cons {gap gap₂ texts : Bytes} (hgap : Blank gap) (hgap₂ : Blank gap₂)
    (hstarts : Starts texts) (hclose : texts.head? ≠ some bracket.close) {n : Nat}
    {es' : List SaxEvent} (hlist : ListReads flags bracket item texts es' n) :
    ListReads flags bracket item (text ++ (gap ++ ','.toUInt8 :: (gap₂ ++ texts))) (es ++ es')
      (n + 1) := by
  intro loops count s rest hloops hrest
  obtain ⟨loops, rfl⟩ := Nat.exists_eq_add_one_of_ne_zero (Nat.ne_zero_of_lt hloops)
  have hrest' : s.rest =
      text ++ (gap ++ ','.toUInt8 :: (gap₂ ++ (texts ++ bracket.close :: rest))) := by
    rw [hrest]
    simp
  obtain ⟨s₁, hrest₁, hpasses, hyields⟩ := items_comma hitem hcomments hgap hgap₂
    hstarts.noSpace loops count hrest'
  have hloops' : texts.length < loops := by
    simp only [List.length_append, List.length_cons] at hloops
    omega
  obtain ⟨s', hitems, hpasses'⟩ := hlist loops (count + 1) s₁ rest hloops' hrest₁
  rw [show count + 1 + n = count + (n + 1) by omega] at hitems
  have hpeek : s₁.Peek ≠ bracket.close := by
    obtain ⟨b, t, rfl, -⟩ := hstarts
    exact fun hc => hclose (congrArg some ((Stream.peek_of_rest hrest₁).symm.trans hc))
  refine ⟨s', ?_, ?_⟩
  · rw [List.append_assoc]
    refine hyields _ _ ?_
    rw [if_neg fun hc => hpeek hc.2]
    exact hitems
  · have := hpasses.trans hpasses'
    simpa using this

end Items

section Compound

variable {bracket : Bracket} (hbracket : bracket.Fits) {item : Stream → Script ParseError Stream}
  (hcomments : flags.comments = false)
include hbracket hcomments

theorem compound_empty {b : UInt8} {gap rest : Bytes} (hgap : Blank gap) {s : Stream}
    (hrest : s.rest = b :: (gap ++ [bracket.close]) ++ rest) :
    ∃ s', (compound flags bracket item s).Yields [bracket.start, bracket.finish 0] s' ∧
      s.Passes (b :: (gap ++ [bracket.close])) s' := by
  have hrest₁ : s.Take.rest = gap ++ bracket.close :: rest := by
    rw [Stream.take_rest hrest]
    simp
  have hpasses := skipWhitespace_blank hgap hrest₁ (noSpace_cons hbracket.noSpace rest)
  have hrest₂ := hpasses.rest_eq hrest₁
  refine ⟨_, ?_,
    (Stream.take_passes hrest).cons (hpasses.trans (Stream.take_passes hrest₂))⟩
  rw [compound]
  refine (Script.yields_call bracket.start _ _).bind ?_
  rw [skip_plain hcomments, Stream.consume_of_rest hrest₂]
  exact Script.yields_call _ _ _

omit hbracket in
theorem compound_list {b : UInt8} {gap texts rest : Bytes} {es : List SaxEvent} {n : Nat}
    (hgap : Blank gap) (hstarts : Starts texts) (hclose : texts.head? ≠ some bracket.close)
    (hlist : ListReads flags bracket item texts es n) {s : Stream}
    (hrest : s.rest = b :: (gap ++ (texts ++ [bracket.close])) ++ rest) :
    ∃ s', (compound flags bracket item s).Yields (bracket.start :: (es ++ [bracket.finish n])) s' ∧
      s.Passes (b :: (gap ++ (texts ++ [bracket.close]))) s' := by
  have hrest₁ : s.Take.rest = gap ++ (texts ++ bracket.close :: rest) := by
    rw [Stream.take_rest hrest]
    simp
  have hpasses := skipWhitespace_blank hgap hrest₁ hstarts.noSpace
  have hrest₂ := hpasses.rest_eq hrest₁
  obtain ⟨s', hyields, hpasses'⟩ := hlist ((SkipWhitespace s.Take).rest.length + 1) 0 _ rest
    (by rw [hrest₂, List.length_append]; omega) hrest₂
  rw [Nat.zero_add] at hyields
  refine ⟨s', ?_, (Stream.take_passes hrest).cons (hpasses.trans hpasses')⟩
  rw [compound]
  refine (Script.yields_call bracket.start _ _).bind ?_
  obtain ⟨c, t, rfl, -⟩ := hstarts
  rw [skip_plain hcomments, Stream.consume_none fun hc =>
    hclose (congrArg some ((Stream.peek_of_rest hrest₂).symm.trans hc))]
  exact hyields

end Compound

/-- How the text of a value, of elements, of a member and of members is read, on a
budget that its length suffices for. -/
def Reads (flags : ParseFlags) (text : Bytes) (shape : Shape) : Prop :=
  ∀ fuel, text.length < fuel →
    match shape with
    | .value v => ItemReads (ParseValue flags fuel) text v.events
    | .member key v => ItemReads (member flags (ParseValue flags fuel)) text (.key key :: v.events)
    | .elements vs =>
      ListReads flags arrayBracket (ParseValue flags fuel) text (elementEvents vs) vs.length
    | .members ms =>
      ListReads flags objectBracket (member flags (ParseValue flags fuel)) text (memberEvents ms)
        ms.length

theorem starts_head {text : Bytes} (h : Starts text) :
    text.head? ≠ some ']'.toUInt8 ∧ text.head? ≠ some '}'.toUInt8 := by
  obtain ⟨b, rest, rfl, -, -, hsquare, hcurly⟩ := h
  exact ⟨fun h => hsquare (Option.some.inj h), fun h => hcurly (Option.some.inj h)⟩

/-- A member is read when its value is. -/
theorem member_reads (hflags : flags.insitu = false) (hcomments : flags.comments = false)
    {raw key gap gap₂ text : Bytes} {v : Json} (hkey : Chars raw key) (hgap : Blank gap)
    (hgap₂ : Blank gap₂) (hstarts : Starts text) {parseValue : Stream → Script ParseError Stream}
    (hvalue : ItemReads parseValue text v.events) :
    ItemReads (member flags parseValue)
      (quoted raw ++ (gap ++ ':'.toUInt8 :: (gap₂ ++ text))) (.key key :: v.events) := by
  intro s rest hrest hstops
  have hrest' : s.rest =
      quoted raw ++ (gap ++ ':'.toUInt8 :: (gap₂ ++ (text ++ rest))) := by
    rw [hrest]
    simp
  obtain ⟨s₁, hresult, hevents, hpasses₁⟩ := parseString_complete hflags hkey true hrest'
  have hrest₁ := hpasses₁.rest_eq hrest'
  have hpasses₂ := skipWhitespace_blank hgap hrest₁ (noSpace_cons (by decide) _)
  have hrest₂ := hpasses₂.rest_eq hrest₁
  have hrest₃ := Stream.take_rest hrest₂
  have hpasses₄ := skipWhitespace_blank hgap₂ hrest₃ hstarts.noSpace
  obtain ⟨s', hyields, hpasses₅⟩ := hvalue _ rest (hpasses₄.rest_eq hrest₃) hstops
  refine ⟨s', ?_, hpasses₁.trans (hpasses₂.trans
    ((Stream.take_passes hrest₂).cons (hpasses₄.trans hpasses₅)))⟩
  have hquote : s.Peek = '"'.toUInt8 := Stream.peek_of_rest hrest'
  rw [member, hquote, if_neg (not_not.mpr rfl)]
  refine Script.Yields.bind ⟨hresult, hevents⟩ ?_
  rw [skip_plain hcomments, Stream.consume_of_rest hrest₂]
  dsimp only
  rw [skip_plain hcomments]
  exact hyields

/-- **What the grammar derives is read**, and the events are those of the value. -/
theorem reads_of_derives (hflags : flags.insitu = false) (hcomments : flags.comments = false)
    {text : Bytes} {shape : Shape} (h : Derives (dialect flags) text shape) :
    Reads flags text shape := by
  induction h with
  | null =>
    intro fuel hfuel s rest hrest hstops
    obtain ⟨fuel, rfl⟩ := Nat.exists_eq_add_one_of_ne_zero (Nat.ne_zero_of_lt hfuel)
    rw [ParseValue, Stream.peek_of_rest hrest]
    exact parseLiteral_complete .null hrest
  | true =>
    intro fuel hfuel s rest hrest hstops
    obtain ⟨fuel, rfl⟩ := Nat.exists_eq_add_one_of_ne_zero (Nat.ne_zero_of_lt hfuel)
    rw [ParseValue, Stream.peek_of_rest hrest]
    exact parseLiteral_complete (.bool true) hrest
  | false =>
    intro fuel hfuel s rest hrest hstops
    obtain ⟨fuel, rfl⟩ := Nat.exists_eq_add_one_of_ne_zero (Nat.ne_zero_of_lt hfuel)
    rw [ParseValue, Stream.peek_of_rest hrest]
    exact parseLiteral_complete (.bool false) hrest
  | number hl hn =>
    intro fuel hfuel s rest hrest hstops
    obtain ⟨fuel, rfl⟩ := Nat.exists_eq_add_one_of_ne_zero (Nat.ne_zero_of_lt hfuel)
    obtain ⟨b, t, htext, hb⟩ := Literal.starts hl
    have hpeek : s.Peek = b := Stream.peek_of_rest (by rw [hrest, htext, List.cons_append])
    rw [parseValue_number fuel (hpeek ▸ hb)]
    exact parseNumber_complete hl hn hrest hstops
  | string h =>
    intro fuel hfuel s rest hrest hstops
    obtain ⟨fuel, rfl⟩ := Nat.exists_eq_add_one_of_ne_zero (Nat.ne_zero_of_lt hfuel)
    obtain ⟨s', hresult, hevents, hpasses⟩ := parseString_complete hflags h false hrest
    rw [ParseValue, Stream.peek_of_rest hrest]
    exact ⟨s', ⟨hresult, hevents⟩, hpasses⟩
  | emptyArray hgap =>
    intro fuel hfuel s rest hrest hstops
    obtain ⟨fuel, rfl⟩ := Nat.exists_eq_add_one_of_ne_zero (Nat.ne_zero_of_lt hfuel)
    rw [ParseValue, Stream.peek_of_rest hrest]
    exact compound_empty arrayBracket_fits hcomments hgap hrest
  | array hgap hvs ih =>
    intro fuel hfuel s rest hrest hstops
    obtain ⟨fuel, rfl⟩ := Nat.exists_eq_add_one_of_ne_zero (Nat.ne_zero_of_lt hfuel)
    rw [ParseValue, Stream.peek_of_rest hrest]
    have hstarts := derives_starts hvs
    refine compound_list hcomments hgap hstarts (starts_head hstarts).1
      (ih fuel ?_) hrest
    simp only [List.length_append, List.length_cons] at hfuel
    omega
  | emptyObject hgap =>
    intro fuel hfuel s rest hrest hstops
    obtain ⟨fuel, rfl⟩ := Nat.exists_eq_add_one_of_ne_zero (Nat.ne_zero_of_lt hfuel)
    rw [ParseValue, Stream.peek_of_rest hrest]
    exact compound_empty objectBracket_fits hcomments hgap hrest
  | object hgap hms ih =>
    intro fuel hfuel s rest hrest hstops
    obtain ⟨fuel, rfl⟩ := Nat.exists_eq_add_one_of_ne_zero (Nat.ne_zero_of_lt hfuel)
    rw [ParseValue, Stream.peek_of_rest hrest]
    have hstarts := derives_starts hms
    refine compound_list hcomments hgap hstarts (starts_head hstarts).2
      (ih fuel ?_) hrest
    simp only [List.length_append, List.length_cons] at hfuel
    omega
  | lastElement hv hgap ih =>
    intro fuel hfuel
    rw [List.length_append] at hfuel
    have hlist := listReads_last (ih fuel (by omega)) hcomments arrayBracket_fits hgap
    rwa [← List.append_nil (Json.events _)] at hlist
  | trailingElement ht hv hgap hgap₂ ih =>
    intro fuel hfuel
    rw [List.length_append] at hfuel
    have hlist := listReads_trailing (ih fuel (by omega)) hcomments arrayBracket_fits ht hgap hgap₂
    rwa [← List.append_nil (Json.events _)] at hlist
  | consElement hv hgap hgap₂ hvs ih ih' =>
    intro fuel hfuel
    simp only [List.length_append, List.length_cons] at hfuel
    have hstarts := derives_starts hvs
    exact listReads_cons (ih fuel (by omega)) hcomments hgap hgap₂ hstarts (starts_head hstarts).1
      (ih' fuel (by omega))
  | member hkey hgap hgap₂ hv ih =>
    intro fuel hfuel
    simp only [List.length_append, List.length_cons] at hfuel
    exact member_reads hflags hcomments hkey hgap hgap₂ (derives_starts hv) (ih fuel (by omega))
  | lastMember hm hgap ih =>
    intro fuel hfuel
    rw [List.length_append] at hfuel
    have hlist := listReads_last (ih fuel (by omega)) hcomments objectBracket_fits hgap
    rwa [← List.append_nil (Json.events _)] at hlist
  | trailingMember ht hm hgap hgap₂ ih =>
    intro fuel hfuel
    rw [List.length_append] at hfuel
    have hlist := listReads_trailing (ih fuel (by omega)) hcomments objectBracket_fits ht hgap hgap₂
    rwa [← List.append_nil (Json.events _)] at hlist
  | consMember hm hgap hgap₂ hms ih ih' =>
    intro fuel hfuel
    simp only [List.length_append, List.length_cons] at hfuel
    have hstarts := derives_starts hms
    exact listReads_cons (ih fuel (by omega)) hcomments hgap hgap₂ hstarts (starts_head hstarts).2
      (ih' fuel (by omega))

-- ---------------------------------------------------------------------------
-- What is read is derived
-- ---------------------------------------------------------------------------

section Items

variable {α : Type} {bracket : Bracket} {item : Stream → Script ParseError Stream}
  {Item : Bytes → α → Prop} {Items : Bytes → List α → Prop} {events : α → List SaxEvent}

/-- What an item that was read is. -/
def ItemSound (item : Stream → Script ParseError Stream) (Item : Bytes → α → Prop)
    (events : α → List SaxEvent) : Prop :=
  ∀ s s', (item s).result = .done s' →
    ∃ text a, Item text a ∧ s.Passes text s' ∧ (item s).events = events a

/-- How lists are put together from their items. -/
structure ListRules (flags : ParseFlags) (Item : Bytes → α → Prop)
    (Items : Bytes → List α → Prop) : Prop where
  last : ∀ {text gap a}, Item text a → Blank gap → Items (text ++ gap) [a]
  trailing : flags.trailingCommas = true → ∀ {text gap gap₂ a}, Item text a → Blank gap →
    Blank gap₂ → Items (text ++ (gap ++ ','.toUInt8 :: gap₂)) [a]
  cons : ∀ {text gap gap₂ texts a as}, Item text a → Blank gap → Blank gap₂ → Items texts as →
    Items (text ++ (gap ++ ','.toUInt8 :: (gap₂ ++ texts))) (a :: as)

variable (hbracket : bracket.Fits) (hrules : ListRules flags Item Items)
  (hitem : ItemSound item Item events) (hcomments : flags.comments = false)
include hbracket hrules hitem hcomments

/-- Items that were read are a list. -/
theorem items_sound {loops count : Nat} {s s' : Stream}
    (h : (items flags bracket item loops count s).result = .done s') :
    ∃ text as, Items text as ∧ s.Passes (text ++ [bracket.close]) s' ∧
      (items flags bracket item loops count s).events =
        as.flatMap events ++ [bracket.finish (count + as.length)] := by
  induction loops generalizing count s with
  | zero => cases h
  | succ loops ih =>
    rw [items] at h ⊢
    obtain ⟨s₁, ⟨h₁, -⟩, hnext, hevents⟩ := Script.exists_of_bind h
    obtain ⟨text, a, ha, hpasses₁, hitemEvents⟩ := hitem s s₁ h₁
    rw [hevents, hitemEvents]
    clear h hevents
    rw [skip_plain hcomments] at hnext ⊢
    obtain ⟨gap, hgap, hpasses₂, -⟩ := skipWhitespace_passes s₁
    dsimp only at hnext ⊢
    by_cases hcomma : (SkipWhitespace s₁).Peek = ','.toUInt8
    · rw [if_pos hcomma, skip_plain hcomments] at hnext ⊢
      obtain ⟨rest, hrest⟩ := Stream.rest_of_peek hcomma (by decide)
      obtain ⟨gap₂, hgap₂, hpasses₄, -⟩ := skipWhitespace_passes (SkipWhitespace s₁).Take
      have hpasses := hpasses₁.trans
        (hpasses₂.trans ((Stream.take_passes hrest).cons hpasses₄))
      by_cases htrailing : flags.trailingCommas ∧
          (SkipWhitespace (SkipWhitespace s₁).Take).Peek = bracket.close
      · -- a trailing comma
        rw [if_pos htrailing] at hnext ⊢
        cases hnext
        obtain ⟨rest', hrest'⟩ := Stream.rest_of_peek htrailing.2 hbracket.ne_zero
        refine ⟨_, [a], hrules.trailing htrailing.1 ha hgap hgap₂,
          hpasses.trans (Stream.take_passes hrest'), ?_⟩
        rw [List.flatMap_singleton]
        rfl
      · rw [if_neg htrailing] at hnext ⊢
        obtain ⟨texts, as, has, hpasses', hevents⟩ := ih hnext
        refine ⟨_, a :: as, hrules.cons ha hgap hgap₂ has, ?_, ?_⟩
        · have := hpasses.trans hpasses'
          simpa using this
        · rw [hevents, List.flatMap_cons, List.append_assoc, List.length_cons,
            Nat.add_assoc, Nat.add_comm 1]
    · rw [if_neg hcomma] at hnext ⊢
      by_cases hclose : (SkipWhitespace s₁).Peek = bracket.close
      · rw [if_pos hclose] at hnext ⊢
        cases hnext
        obtain ⟨rest, hrest⟩ := Stream.rest_of_peek hclose hbracket.ne_zero
        refine ⟨text ++ gap, [a], hrules.last ha hgap, ?_, ?_⟩
        · have := hpasses₁.trans (hpasses₂.trans (Stream.take_passes hrest))
          rwa [← List.append_assoc] at this
        · rw [List.flatMap_singleton]
          rfl
      · rw [if_neg hclose] at hnext
        cases hnext

/-- An object or an array that was read. -/
theorem compound_sound {b : UInt8} (hb : b ≠ 0) {s s' : Stream} (hpeek : s.Peek = b)
    (h : (compound flags bracket item s).result = .done s') :
    (∃ gap, Blank gap ∧ s.Passes (b :: (gap ++ [bracket.close])) s' ∧
      (compound flags bracket item s).events = [bracket.start, bracket.finish 0]) ∨
    ∃ gap texts as, Blank gap ∧ Items texts as ∧
      s.Passes (b :: (gap ++ (texts ++ [bracket.close]))) s' ∧
      (compound flags bracket item s).events =
        bracket.start :: (as.flatMap events ++ [bracket.finish as.length]) := by
  obtain ⟨rest, hrest⟩ := Stream.rest_of_peek hpeek hb
  rw [compound] at h ⊢
  obtain ⟨s₁, ⟨h₁, -⟩, hnext, hevents⟩ := Script.exists_of_bind h
  cases h₁
  rw [hevents]
  clear h hevents
  rw [skip_plain hcomments] at hnext ⊢
  obtain ⟨gap, hgap, hpasses, -⟩ := skipWhitespace_passes s.Take
  cases hconsume : (SkipWhitespace s.Take).Consume bracket.close with
  | some s₂ =>
    rw [hconsume] at hnext
    cases hnext
    exact .inl ⟨gap, hgap, (Stream.take_passes hrest).cons
      (hpasses.trans (Stream.consume_some hconsume hbracket.ne_zero)), rfl⟩
  | none =>
    rw [hconsume] at hnext
    obtain ⟨texts, as, has, hpasses', hevents⟩ :=
      items_sound hbracket hrules hitem hcomments hnext
    refine .inr ⟨gap, texts, as, hgap, has,
      (Stream.take_passes hrest).cons (hpasses.trans hpasses'), ?_⟩
    dsimp only
    rw [hevents, Nat.zero_add]
    rfl

end Items

theorem elementEvents_eq (vs : List Json) : elementEvents vs = vs.flatMap Json.events := by
  induction vs with
  | nil => rfl
  | cons v vs ih => rw [elementEvents, ih, List.flatMap_cons]

theorem memberEvents_eq (ms : List (Bytes × Json)) :
    memberEvents ms = ms.flatMap fun m => .key m.1 :: m.2.events := by
  induction ms with
  | nil => rfl
  | cons m ms ih =>
    obtain ⟨key, v⟩ := m
    rw [memberEvents, ih, List.flatMap_cons, List.cons_append]

theorem elementRules (flags : ParseFlags) :
    ListRules flags (fun text v => Derives (dialect flags) text (.value v))
      (fun text vs => Derives (dialect flags) text (.elements vs)) :=
  ⟨.lastElement, fun ht => .trailingElement ht, .consElement⟩

theorem memberRules (flags : ParseFlags) :
    ListRules flags (fun text (m : Bytes × Json) => Derives (dialect flags) text (.member m.1 m.2))
      (fun text ms => Derives (dialect flags) text (.members ms)) :=
  ⟨.lastMember, fun ht => .trailingMember ht, .consMember⟩

/-- A member that was read. -/
theorem member_sound (hflags : flags.insitu = false) (hcomments : flags.comments = false)
    {parseValue : Stream → Script ParseError Stream}
    (hvalue : ItemSound parseValue (fun text v => Derives (dialect flags) text (.value v))
      Json.events) :
    ItemSound (member flags parseValue)
      (fun text (m : Bytes × Json) => Derives (dialect flags) text (.member m.1 m.2))
      (fun m => .key m.1 :: m.2.events) := by
  intro s s' h
  rw [member] at h ⊢
  by_cases hquote : s.Peek = '"'.toUInt8
  · rw [hquote, if_neg (not_not.mpr rfl)] at h ⊢
    obtain ⟨s₁, ⟨h₁, -⟩, hnext, hevents⟩ := Script.exists_of_bind h
    obtain ⟨raw, key, hkey, hpasses₁, hkeyEvents⟩ := parseString_sound hflags hquote h₁
    rw [hevents, hkeyEvents]
    clear h hevents
    rw [skip_plain hcomments] at hnext ⊢
    obtain ⟨gap, hgap, hpasses₂, -⟩ := skipWhitespace_passes s₁
    cases hcolon : (SkipWhitespace s₁).Consume ':'.toUInt8 with
    | none =>
      rw [hcolon] at hnext
      cases hnext
    | some s₂ =>
      rw [hcolon] at hnext
      dsimp only at hnext ⊢
      rw [skip_plain hcomments] at hnext ⊢
      obtain ⟨gap₂, hgap₂, hpasses₄, -⟩ := skipWhitespace_passes s₂
      obtain ⟨text, v, hv, hpasses₅, hvEvents⟩ := hvalue _ s' hnext
      refine ⟨_, (key, v), .member hkey hgap hgap₂ hv, hpasses₁.trans (hpasses₂.trans
        ((Stream.consume_some hcolon (by decide)).cons (hpasses₄.trans hpasses₅))), ?_⟩
      rw [hvEvents]
      rfl
  · rw [if_pos hquote] at h
    cases h

/-- **What is read is derived**, and the events are those of the value. -/
theorem parseValue_sound (hflags : flags.insitu = false) (hcomments : flags.comments = false)
    (fuel : Nat) :
    ItemSound (ParseValue flags fuel) (fun text v => Derives (dialect flags) text (.value v))
      Json.events := by
  induction fuel with
  | zero =>
    intro s s' h
    cases h
  | succ fuel ih =>
    intro s s' h
    rw [ParseValue] at h ⊢
    by_cases hnull : s.Peek = 'n'.toUInt8
    · rw [if_pos hnull] at h ⊢
      obtain ⟨hpasses, hevents⟩ :=
        parseLiteral_sound (by decide) (List.all_iff_forall_prop.mp rfl) hnull h
      exact ⟨_, .null, .null, hpasses, hevents⟩
    rw [if_neg hnull] at h ⊢
    by_cases htrue : s.Peek = 't'.toUInt8
    · rw [if_pos htrue] at h ⊢
      obtain ⟨hpasses, hevents⟩ :=
        parseLiteral_sound (by decide) (List.all_iff_forall_prop.mp rfl) htrue h
      exact ⟨_, .bool true, .true, hpasses, hevents⟩
    rw [if_neg htrue] at h ⊢
    by_cases hfalse : s.Peek = 'f'.toUInt8
    · rw [if_pos hfalse] at h ⊢
      obtain ⟨hpasses, hevents⟩ :=
        parseLiteral_sound (by decide) (List.all_iff_forall_prop.mp rfl) hfalse h
      exact ⟨_, .bool false, .false, hpasses, hevents⟩
    rw [if_neg hfalse] at h ⊢
    by_cases hquote : s.Peek = '"'.toUInt8
    · rw [if_pos hquote] at h ⊢
      obtain ⟨raw, str, hchars, hpasses, hevents⟩ := parseString_sound hflags hquote h
      exact ⟨_, .string str, .string hchars, hpasses, hevents⟩
    rw [if_neg hquote] at h ⊢
    by_cases hcurly : s.Peek = '{'.toUInt8
    · rw [if_pos hcurly] at h ⊢
      obtain ⟨gap, hgap, hpasses, hevents⟩ | ⟨gap, texts, ms, hgap, hms, hpasses, hevents⟩ :=
        compound_sound objectBracket_fits (memberRules flags) (member_sound hflags hcomments ih)
          hcomments (by decide) hcurly h
      · exact ⟨_, .object [], .emptyObject hgap, hpasses, hevents⟩
      · refine ⟨_, .object ms, .object hgap hms, hpasses, ?_⟩
        rw [Json.events, memberEvents_eq]
        exact hevents
    rw [if_neg hcurly] at h ⊢
    by_cases hsquare : s.Peek = '['.toUInt8
    · rw [if_pos hsquare] at h ⊢
      obtain ⟨gap, hgap, hpasses, hevents⟩ | ⟨gap, texts, vs, hgap, hvs, hpasses, hevents⟩ :=
        compound_sound arrayBracket_fits (elementRules flags) ih hcomments (by decide) hsquare h
      · exact ⟨_, .array [], .emptyArray hgap, hpasses, hevents⟩
      · refine ⟨_, .array vs, .array hgap hvs, hpasses, ?_⟩
        rw [Json.events, elementEvents_eq]
        exact hevents
    rw [if_neg hsquare] at h ⊢
    obtain ⟨l, n, hl, hn, hpasses, hevents⟩ := parseNumber_sound h
    refine ⟨_, .number n, .number hl hn, hpasses, hevents⟩

-- ---------------------------------------------------------------------------
-- A whole text
-- ---------------------------------------------------------------------------

theorem stops_nil : Stops [] := fun _ h => absurd h (Option.not_mem_none _)

theorem noSpace_nil : NoSpace [] := fun _ h => absurd h (Option.not_mem_none _)

/-- A JSON text is read, with the events of its document. -/
theorem parseStream_complete {flags : ParseFlags} (hflags : flags.insitu = false)
    (hcomments : flags.comments = false) (hstop : flags.stopWhenDone = false) {text : Bytes}
    {root : Json} (h : JsonText (dialect flags) text root) {s : Stream} (hs : s.rest = text)
    (hzero : ∀ b ∈ text, b ≠ 0) :
    ∃ s', (parseStream flags s).Yields root.events s' ∧ s.Passes text s' := by
  obtain ⟨gap, body, gap', hgap, hbody, hgap', rfl⟩ := h
  have hstarts := derives_starts hbody
  have hpasses₁ := skipWhitespace_blank hgap hs hstarts.noSpace
  have hrest₁ := hpasses₁.rest_eq hs
  have hstops : Stops gap' := by
    have := Stops.blank hgap' stops_nil
    rwa [List.append_nil] at this
  obtain ⟨s₂, hyields, hpasses₂⟩ := reads_of_derives hflags hcomments hbody
    ((SkipWhitespace s).rest.length + 1) (by rw [hrest₁, List.length_append]; omega)
    (SkipWhitespace s) gap' hrest₁ hstops
  have hrest₂ := hpasses₂.rest_eq hrest₁
  have hpasses₃ := skipWhitespace_blank hgap' (hrest₂.trans (List.append_nil gap').symm)
    noSpace_nil
  have hrest₃ := hpasses₃.rest_eq (hrest₂.trans (List.append_nil gap').symm)
  refine ⟨_, ?_, hpasses₁.trans (hpasses₂.trans hpasses₃)⟩
  have hpeek : (SkipWhitespace s).Peek ≠ 0 := by
    obtain ⟨b, t, rfl, -⟩ := hstarts
    rw [Stream.peek_of_rest hrest₁]
    exact hzero b (by simp)
  have hend : (SkipWhitespace s₂).Peek = 0 := by rw [Stream.Peek, hrest₃, List.headD_nil]
  rw [parseStream, skip_plain hcomments, if_neg hpeek, ← List.append_nil root.events]
  refine hyields.bind ?_
  rw [hstop, if_neg Bool.false_ne_true, skip_plain hcomments, hend, if_neg (not_not.mpr rfl)]
  exact ⟨rfl, rfl⟩

/-- What is read to its end is a JSON text. -/
theorem parseStream_sound {flags : ParseFlags} (hflags : flags.insitu = false)
    (hcomments : flags.comments = false) (hstop : flags.stopWhenDone = false) {s s' : Stream}
    (hzero : ∀ b ∈ s.rest, b ≠ 0) (h : (parseStream flags s).result = .done s') :
    ∃ root, JsonText (dialect flags) s.rest root ∧ (parseStream flags s).events = root.events := by
  rw [parseStream, skip_plain hcomments] at h ⊢
  obtain ⟨gap, hgap, hpasses₁, -⟩ := skipWhitespace_passes s
  by_cases hpeek : (SkipWhitespace s).Peek = 0
  · rw [if_pos hpeek] at h
    cases h
  rw [if_neg hpeek] at h ⊢
  obtain ⟨s₂, ⟨h₂, -⟩, hnext, hevents⟩ := Script.exists_of_bind h
  obtain ⟨body, root, hbody, hpasses₂, hroot⟩ := parseValue_sound hflags hcomments _ _ _ h₂
  rw [hevents, hroot]
  rw [hstop, if_neg Bool.false_ne_true, skip_plain hcomments] at hnext ⊢
  obtain ⟨gap', hgap', hpasses₃, -⟩ := skipWhitespace_passes s₂
  have hpasses := hpasses₁.trans (hpasses₂.trans hpasses₃)
  by_cases hend : (SkipWhitespace s₂).Peek ≠ 0
  · rw [if_pos hend] at hnext
    cases hnext
  rw [if_neg hend] at hnext ⊢
  have hrest₃ : (SkipWhitespace s₂).rest = [] := by
    cases hrest : (SkipWhitespace s₂).rest with
    | nil => rfl
    | cons b rest =>
      have hb : b = 0 := (Stream.peek_of_rest hrest).symm.trans (not_not.mp hend)
      refine absurd hb (hzero b ?_)
      rw [hpasses.rest, hrest]
      simp
  refine ⟨root, ⟨gap, body, gap', hgap, hbody, hgap', ?_⟩, ?_⟩
  · rw [hpasses.rest, hrest₃, List.append_nil]
  · rw [Script.events_pure, List.append_nil]

end GenericReader

end RapidJson
