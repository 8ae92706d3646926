import ThirdPartDemo.RapidJson.IterativeReader
import ThirdPartDemo.RapidJson.Parse

/-!
# RapidJSON — the iterative reader does what the recursive one does

`IterativeParse` makes the calls that `Parse` makes and ends as it does. The machine
in a state `src` with any stack is the recursive parse of what `src` waits for, and
then the machine in the state and with the stack it comes back to (`resume`):

* `value_alike` — a value, by induction on the text;
* `items_alike` — the members or the elements of a list, by their `Walks`;
* `IterativeParse_agrees` — whole texts. The two readers name one error differently.
-/

namespace RapidJson

open Library RapidJson.Stream

namespace GenericReader

variable {flags : ParseFlags}

-- ---------------------------------------------------------------------------
-- The loop without its budget
-- ---------------------------------------------------------------------------

theorem keeps_of_skip {is is' : Stream} (h : SkipWhitespaceAndComments flags is = .done is') :
    is.Keeps is' := (skipWhitespaceAndComments_ensures (A := False) (Keeps.refl is)).of_done h

theorem skip_congr {is : Stream} {f g : Stream → Script ParseError Stream}
    (h : ∀ is', is.Keeps is' → f is' = g is') : skip flags is f = skip flags is g :=
  Script.bind_congr fun is' his' => h is' (keeps_of_skip his')

theorem skip_alike {is : Stream} {f g : Stream → Script ParseError Stream}
    (h : ∀ is', is.Keeps is' → (f is').Alike ParseError.code (g is')) :
    (skip flags is f).Alike ParseError.code (skip flags is g) :=
  (Script.Alike.refl _ _).bind fun is' his' => h is' (keeps_of_skip his')

theorem skip_bind (is : Stream) (f g : Stream → Script ParseError Stream) :
    (skip flags is f).bind g = skip flags is fun is => (f is).bind g := Script.bind_assoc _ _ _

/-- Every transition but the one to the error state takes something off the text. -/
theorem transit_advances {src dst d : IterativeParsingState} {is is' : Stream}
    {stack stack' : IterativeStack} (hpeek : is.Peek ≠ 0)
    (h : (Transit flags src dst is stack).result = .done (d, stack', is')) (hd : d ≠ .Error) :
    is.Advances is' := by
  have htake : is.Advances is.Take := take_advances rfl hpeek
  have hparse : ∀ {x : Script ParseError Stream} {d₁ : IterativeParsingState},
      x.Ensures (MayAbort is.rest) (Refused is.size) (Inside is.size) is.Advances →
      (x.bind fun is => .pure (d₁, stack, is)).result = .done (d, stack', is') →
      is.Advances is' := by
    intro x d₁ hx hdone
    obtain ⟨is₁, his₁, heq, -⟩ := Script.bind_eq_done hdone
    cases heq
    exact hx.of_done his₁
  have hfinish : ∀ {delimiter item : IterativeParsingState} {trailing : ParseErrorCode}
      {finish : Nat → SaxEvent},
      (finishList flags src delimiter item trailing finish is stack).result =
        .done (d, stack', is') → is.Advances is' := by
    intro delimiter item trailing finish hdone
    unfold finishList at hdone
    split at hdone
    · cases hdone
    · split at hdone
      · cases hdone
        exact absurd rfl hd
      · cases hdone
        exact htake
  have hvalue : (ParseValue flags (is.rest.length + 1) is).Ensures (MayAbort is.rest)
      (Refused is.size) (Inside is.size) is.Advances :=
    parseValue_ensures (Keeps.refl is) (Nat.lt_succ_self _)
  cases dst with
  | Error =>
    cases h
    exact absurd rfl hd
  | ObjectInitial | ArrayInitial | KeyValueDelimiter =>
    cases h
    exact htake
  | MemberKey => exact hparse (parseString_ensures true (Keeps.refl is)) h
  | MemberValue | Element | Start | Finish | Value => exact hparse hvalue h
  | ObjectFinish | ArrayFinish => exact hfinish h
  | MemberDelimiter | ElementDelimiter =>
    unfold Transit at h
    dsimp only at h
    split at h
    · cases h
      exact absurd rfl hd
    · cases h
      exact htake

theorem iterate_fuel {fuel fuel' : Nat} {state : IterativeParsingState} {stack : IterativeStack}
    {is : Stream} (h : is.rest.length < fuel) (h' : is.rest.length < fuel') :
    iterate flags fuel state stack is = iterate flags fuel' state stack is := by
  induction fuel generalizing fuel' state stack is with
  | zero => exact absurd h (Nat.not_lt_zero _)
  | succ fuel ih =>
    cases fuel' with
    | zero => exact absurd h' (Nat.not_lt_zero _)
    | succ fuel' =>
      rw [iterate, iterate]
      by_cases hpeek : is.Peek = 0
      · rw [if_pos hpeek, if_pos hpeek]
      · rw [if_neg hpeek, if_neg hpeek]
        refine Script.bind_congr ?_
        rintro ⟨d, stack', is'⟩ hdone
        dsimp only
        by_cases hd : d = .Error
        · rw [if_pos hd, if_pos hd]
        · have hadvances := transit_advances hpeek hdone hd
          rw [if_neg hd, if_neg hd]
          congr 1
          refine skip_congr fun is'' his'' => ?_
          have hlt := (hadvances.keeps his'').2
          exact ih (by omega) (by omega)

/-- The loop of `IterativeParse`, on the budget that suffices for it. -/
def iter (flags : ParseFlags) (state : IterativeParsingState) (stack : IterativeStack)
    (is : Stream) : Script ParseError Stream :=
  iterate flags (is.rest.length + 1) state stack is

/-- What the loop does after a transition. -/
def resume (flags : ParseFlags) (state : IterativeParsingState) (stack : IterativeStack)
    (is : Stream) : Script ParseError Stream :=
  if flags.stopWhenDone ∧ state = .Finish then .pure is else skip flags is (iter flags state stack)

theorem resume_of_ne {state : IterativeParsingState} (h : state ≠ .Finish) (stack : IterativeStack)
    (is : Stream) : resume flags state stack is = skip flags is (iter flags state stack) :=
  if_neg fun hfinish => h hfinish.2

/-- A round of the loop, from the state `src`. -/
theorem iter_of_peek {is : Stream} (hpeek : is.Peek ≠ 0) (src : IterativeParsingState)
    (stack : IterativeStack) :
    iter flags src stack is =
      (Transit flags src (Predict src (Tokenize is.Peek)) is stack).bind fun (d, stack, is) =>
        if d = .Error then .fail (HandleError src is) else resume flags d stack is := by
  rw [iter, iterate, if_neg hpeek]
  refine Script.bind_congr ?_
  rintro ⟨d, stack', is'⟩ hdone
  dsimp only
  by_cases hd : d = .Error
  · rw [if_pos hd, if_pos hd]
  · rw [if_neg hd, if_neg hd, resume]
    congr 1
    refine skip_congr fun is'' his'' => ?_
    have hlt := ((transit_advances hpeek hdone hd).keeps his'').2
    exact iterate_fuel (by omega) (Nat.lt_succ_self _)

/-- The character of a token, but for the numbers and what is no token. -/
def Token.char : Token → Option UInt8
  | .LeftBracket => '['.toUInt8
  | .RightBracket => ']'.toUInt8
  | .LeftCurlyBracket => '{'.toUInt8
  | .RightCurlyBracket => '}'.toUInt8
  | .Comma => ','.toUInt8
  | .Colon => ':'.toUInt8
  | .String => '"'.toUInt8
  | .False => 'f'.toUInt8
  | .True => 't'.toUInt8
  | .Null => 'n'.toUInt8
  | .Number => none

theorem char_ite {c a b : UInt8} {token other : Token}
    (h : (if c = a then token else other).char = some b) (htoken : token.char = some a)
    (hother : other.char = some b → c = b) : c = b := by
  by_cases hc : c = a
  · rw [if_pos hc, htoken] at h
    cases h
    exact hc
  · rw [if_neg hc] at h
    exact hother h

theorem char_tokenize {c b : UInt8} (h : (Tokenize c).char = some b) : c = b := by
  unfold Tokenize at h
  iterate 10 refine char_ite h rfl fun h => ?_
  cases h

theorem tokenize_ne (token : Token) {c b : UInt8} (htoken : token.char = some b) (h : c ≠ b) :
    Tokenize c ≠ token := fun heq => h (char_tokenize (heq ▸ htoken))

/-- A round in a state whose token does not fit, or which the text ends in. -/
theorem iter_misfit {src : IterativeParsingState} (hsrc : src ≠ .Finish) {is : Stream}
    (h : is.Peek = 0 ∨ Predict src (Tokenize is.Peek) = .Error) (stack : IterativeStack) :
    iter flags src stack is = .fail (HandleError src is) := by
  by_cases hpeek : is.Peek = 0
  · rw [iter, iterate, if_pos hpeek, if_pos hsrc]
  · rw [iter_of_peek hpeek, h.resolve_left hpeek]
    rfl

/-- A transition that goes through one of the parse functions. -/
theorem iter_parse {src dst d : IterativeParsingState} {is : Stream} {stack : IterativeStack}
    {x : Script ParseError Stream} (hpeek : is.Peek ≠ 0)
    (hpredict : Predict src (Tokenize is.Peek) = dst) (hd : d ≠ .Error)
    (h : Transit flags src dst is stack = x.bind fun is => .pure (d, stack, is)) :
    iter flags src stack is = x.bind (resume flags d stack) := by
  rw [iter_of_peek hpeek, hpredict, h, Script.bind_assoc]
  refine Script.bind_congr fun is' _ => ?_
  rw [Script.pure_bind]
  exact if_neg hd

-- ---------------------------------------------------------------------------
-- Lists
-- ---------------------------------------------------------------------------

/-- The state that a list leads back to, from the one on the stack. -/
def closed (n : IterativeParsingState) : IterativeParsingState :=
  if n = .Start then .Finish else n

/-- How the machine goes through a list: it waits for the first thing in the list in
`initial`, for the next in `delimiter`, and for a comma or the end in `after`. Without
the flag for it, the end right after a comma is the error `trailing`. -/
structure Walks (flags : ParseFlags) (bracket : Bracket)
    (initial delimiter after : IterativeParsingState) (trailing : ParseErrorCode) : Prop where
  running : initial ≠ .Finish ∧ delimiter ≠ .Finish ∧ after ≠ .Finish
  distinct : initial ≠ delimiter ∧ initial ≠ after ∧ delimiter ≠ after
  close : ∀ src ∈ [initial, delimiter, after], ∀ n c stack is, n ≠ .Error →
    is.Peek = bracket.close →
    iter flags src ((n, c) :: stack) is =
      if !flags.trailingCommas ∧ src = delimiter then .fail ⟨trailing, is.Tell⟩
      else
        (Script.call (bracket.finish (if src = after then c + 1 else c)) ⟨.Termination, is.Tell⟩
          is.Take).bind (resume flags (closed n) stack)
  comma : ∀ n c stack is, is.Peek = ','.toUInt8 →
    iter flags after ((n, c) :: stack) is =
      resume flags delimiter ((n, c + 1) :: stack) is.Take
  missing : ∀ stack is, is.Peek ≠ ','.toUInt8 → is.Peek ≠ bracket.close →
    iter flags after stack is = .fail ⟨bracket.missing, is.Tell⟩

theorem iter_finishList {src dst delimiter item : IterativeParsingState} {trailing : ParseErrorCode}
    {finish : Nat → SaxEvent} {is : Stream} (hpeek : is.Peek ≠ 0)
    (hpredict : Predict src (Tokenize is.Peek) = dst) (n : IterativeParsingState) (c : Nat)
    (stack : IterativeStack) (hn : n ≠ .Error)
    (h : Transit flags src dst is ((n, c) :: stack) =
      finishList flags src delimiter item trailing finish is ((n, c) :: stack)) :
    iter flags src ((n, c) :: stack) is =
      if !flags.trailingCommas ∧ src = delimiter then .fail ⟨trailing, is.Tell⟩
      else
        (Script.call (finish (if src = item then c + 1 else c)) ⟨.Termination, is.Tell⟩
          is.Take).bind (resume flags (closed n) stack) := by
  rw [iter_of_peek hpeek, hpredict, h, finishList]
  split
  · rfl
  · refine Script.call_bind_congr _ _ (if_neg ?_)
    split
    · decide
    · exact hn

theorem array_walks :
    Walks flags arrayBracket .ArrayInitial .ElementDelimiter .Element .ValueInvalid where
  running := by decide
  distinct := by decide
  close src hsrc n c stack is hn hpeek := by
    have hpredict : Predict src (Tokenize is.Peek) = .ArrayFinish := by
      rw [hpeek]
      revert src
      decide
    exact iter_finishList (hpeek ▸ by decide) hpredict n c stack hn rfl
  comma n c stack is hpeek := by
    have hpredict : Predict .Element (Tokenize is.Peek) = .ElementDelimiter := by
      rw [hpeek]
      rfl
    rw [iter_of_peek (hpeek ▸ by decide), hpredict]
    rfl
  missing stack is hcomma hclose := by
    have hcomma := tokenize_ne .Comma rfl hcomma
    have hclose := tokenize_ne .RightBracket rfl hclose
    refine iter_misfit (by decide) (.inr ?_) stack
    cases htoken : Tokenize is.Peek
    case Comma => exact absurd htoken hcomma
    case RightBracket => exact absurd htoken hclose
    all_goals rfl

theorem object_walks :
    Walks flags objectBracket .ObjectInitial .MemberDelimiter .MemberValue .ObjectMissName where
  running := by decide
  distinct := by decide
  close src hsrc n c stack is hn hpeek := by
    have hpredict : Predict src (Tokenize is.Peek) = .ObjectFinish := by
      rw [hpeek]
      revert src
      decide
    exact iter_finishList (hpeek ▸ by decide) hpredict n c stack hn rfl
  comma n c stack is hpeek := by
    have hpredict : Predict .MemberValue (Tokenize is.Peek) = .MemberDelimiter := by
      rw [hpeek]
      rfl
    rw [iter_of_peek (hpeek ▸ by decide), hpredict]
    rfl
  missing stack is hcomma hclose := by
    have hcomma := tokenize_ne .Comma rfl hcomma
    have hclose := tokenize_ne .RightCurlyBracket rfl hclose
    refine iter_misfit (by decide) (.inr ?_) stack
    cases htoken : Tokenize is.Peek
    case Comma => exact absurd htoken hcomma
    case RightCurlyBracket => exact absurd htoken hclose
    all_goals rfl

variable {bracket : Bracket} {initial delimiter after : IterativeParsingState}
  {trailing : ParseErrorCode} {item : Stream → Script ParseError Stream} {bound : Nat}

/-- What is asked of the items of a list: the machine does what `item` does, also where
the end of the list comes instead, and `item` takes something off the text. -/
structure WalksItem (flags : ParseFlags) (bracket : Bracket)
    (initial delimiter after : IterativeParsingState) (trailing : ParseErrorCode)
    (item : Stream → Script ParseError Stream) (bound : Nat) : Prop where
  alike : ∀ src ∈ [initial, delimiter], ∀ stack is, is.rest.length < bound →
    is.Peek ≠ bracket.close →
    (iter flags src stack is).Alike ParseError.code
      ((item is).bind (resume flags after stack))
  close : ∀ is, is.rest.length < bound → is.Peek = bracket.close →
    item is = .fail ⟨trailing, is.Tell⟩
  advances : ∀ is is', is.rest.length < bound → (item is).result = .done is' → is.Advances is'

theorem items_alike (walks : Walks flags bracket initial delimiter after trailing)
    (hitem : WalksItem flags bracket initial delimiter after trailing item bound)
    {n : IterativeParsingState} (hn : n ≠ .Error) {loops : Nat} {src : IterativeParsingState}
    (hsrc : src ∈ [initial, delimiter]) {c : Nat} {stack : IterativeStack} {is : Stream}
    (hbound : is.rest.length < bound) (hloops : is.rest.length < loops)
    (hpeek : is.Peek ≠ bracket.close) :
    (iter flags src ((n, c) :: stack) is).Alike ParseError.code
      ((items flags bracket item loops c is).bind (resume flags (closed n) stack)) := by
  induction loops generalizing src c is with
  | zero => exact absurd hloops (Nat.not_lt_zero _)
  | succ loops ih =>
    rw [items, Script.bind_assoc]
    have hfirst := hitem.alike src hsrc ((n, c) :: stack) is hbound hpeek
    refine hfirst.trans ((Script.Alike.refl _ _).bind fun is₁ his₁ => ?_)
    have h₁ := hitem.advances is is₁ hbound his₁
    rw [resume_of_ne walks.running.2.2, skip_bind]
    refine skip_alike fun is₂ h₂ => ?_
    have h₁₂ := h₁.keeps h₂
    dsimp only
    by_cases hcomma : is₂.Peek = ','.toUInt8
    · rw [walks.comma n c stack is₂ hcomma, if_pos hcomma, resume_of_ne walks.running.2.1,
        skip_bind]
      refine skip_alike fun is₃ h₃ => ?_
      have h₁₃ := h₁₂.keeps ((take_keeps is₂).trans h₃)
      have hdelimiter : delimiter ∈ [initial, delimiter, after] := by simp
      by_cases hclose : is₃.Peek = bracket.close
      · rw [walks.close delimiter hdelimiter n (c + 1) stack is₃ hn hclose,
          if_neg walks.distinct.2.2]
        by_cases htrailing : flags.trailingCommas
        · rw [if_neg (by simp [htrailing]), if_pos ⟨htrailing, hclose⟩]
          exact Script.Alike.refl _ _
        · -- the recursive reader meets the end where it parses an item
          rw [if_pos (by simp [htrailing]), if_neg fun h => htrailing h.1]
          cases loops with
          | zero =>
            have := h₁₃.2
            omega
          | succ loops =>
            rw [items, hitem.close is₃ (Nat.lt_trans h₁₃.2 hbound) hclose]
            exact Script.Alike.refl _ _
      · rw [if_neg fun h => hclose h.2]
        have hlt := h₁₃.2
        exact ih (by simp) (by omega) (by omega) hclose
    · rw [if_neg hcomma]
      by_cases hclose : is₂.Peek = bracket.close
      · have hafter : after ∈ [initial, delimiter, after] := by simp
        rw [walks.close after hafter n c stack is₂ hn hclose, if_pos hclose, if_pos rfl,
          if_neg fun h => walks.distinct.2.2 h.2.symm]
        exact (Script.alike_call _ rfl _).bind fun _ _ => Script.Alike.refl _ _
      · rw [walks.missing _ is₂ hcomma hclose, if_neg hclose]
        exact Script.Alike.refl _ _

theorem compound_alike (walks : Walks flags bracket initial delimiter after trailing)
    (hitem : WalksItem flags bracket initial delimiter after trailing item bound)
    (hinitial : initial ≠ .Error) {src : IterativeParsingState} (hsrc : pushedState src ≠ .Error)
    {is : Stream} {stack : IterativeStack} (hbound : is.rest.length ≤ bound) (hpeek : is.Peek ≠ 0)
    (htransit : Transit flags src (Predict src (Tokenize is.Peek)) is stack =
      .call bracket.start ⟨.Termination, is.Tell⟩
        (initial, (pushedState src, 0) :: stack, is.Take)) :
    (iter flags src stack is).Alike ParseError.code
      ((compound flags bracket item is).bind
        (resume flags (closed (pushedState src)) stack)) := by
  have hstart : iter flags src stack is =
      (Script.call bracket.start ⟨.Termination, is.Tell⟩ is.Take).bind
        (resume flags initial ((pushedState src, 0) :: stack)) := by
    rw [iter_of_peek hpeek, htransit]
    exact Script.call_bind_congr _ _ (if_neg hinitial)
  rw [hstart, compound, Script.bind_assoc]
  refine Script.Alike.bind (Script.alike_call _ ?_ _) fun is₁ his₁ => ?_
  · rfl
  cases his₁
  rw [resume_of_ne walks.running.1, skip_bind]
  refine skip_alike fun is₂ h₂ => ?_
  have h₁₂ := (take_advances (s := is) rfl hpeek).keeps h₂
  by_cases hclose : is₂.Peek = bracket.close
  · rw [walks.close initial (by simp) _ 0 stack is₂ hsrc hclose, Consume, if_pos hclose,
      if_neg fun h => walks.distinct.1 h.2, if_neg walks.distinct.2.1]
    exact (Script.alike_call _ rfl _).bind fun _ _ => Script.Alike.refl _ _
  · rw [consume_none hclose]
    exact items_alike walks hitem hsrc (by simp) (Nat.lt_of_lt_of_le h₁₂.2 hbound)
      (Nat.lt_succ_self _) hclose

-- ---------------------------------------------------------------------------
-- Values
-- ---------------------------------------------------------------------------

/-- The states in which the machine waits for a value. -/
def valueStates : List IterativeParsingState :=
  [.Start, .KeyValueDelimiter, .ArrayInitial, .ElementDelimiter]

/-- The characters, and the end of the text, that no value starts with, nor the attempt
to parse a number. -/
def noValue : Bytes := [0, ']'.toUInt8, '}'.toUInt8, ','.toUInt8, ':'.toUInt8]

theorem noValue_ne : ∀ c ∈ noValue,
    (c ≠ '-'.toUInt8 ∧ c ≠ '0'.toUInt8 ∧ ¬('1'.toUInt8 ≤ c ∧ c ≤ '9'.toUInt8)) ∧
      c ≠ 'n'.toUInt8 ∧ c ≠ 't'.toUInt8 ∧ c ≠ 'f'.toUInt8 ∧ c ≠ '"'.toUInt8 ∧
      c ≠ '{'.toUInt8 ∧ c ≠ '['.toUInt8 := List.all_iff_forall_prop.mp rfl

theorem parseValue_noValue {is : Stream} (h : is.Peek ∈ noValue) (fuel : Nat) :
    ParseValue flags (fuel + 1) is = .fail ⟨.ValueInvalid, is.Tell⟩ := by
  obtain ⟨⟨hminus, hzero, hdigit⟩, hn, ht, hf, hquote, hcurly, hsquare⟩ := noValue_ne _ h
  have hnumber : scanNumber ⟨is.Tell, [], is.rest⟩ = .fail ⟨.ValueInvalid, is.Tell⟩ := by
    have hpeek : (⟨is.Tell, [], is.rest⟩ : NumberStream).Peek = is.Peek := rfl
    rw [scanNumber, scanLiteral, NumberStream.Consume, hpeek, if_neg hminus, Option.getD_none,
      parseInt, hpeek, if_neg hzero, if_neg hdigit]
    rfl
  rw [ParseValue, if_neg hn, if_neg ht, if_neg hf, if_neg hquote, if_neg hcurly, if_neg hsquare,
    ParseNumber, hnumber]
  rfl

theorem parseValue_fuel {is : Stream} (hcurly : is.Peek ≠ '{'.toUInt8)
    (hsquare : is.Peek ≠ '['.toUInt8) (fuel fuel' : Nat) :
    ParseValue flags (fuel + 1) is = ParseValue flags (fuel' + 1) is := by
  rw [ParseValue, ParseValue]
  simp only [if_neg hcurly, if_neg hsquare]

theorem pushedState_ne : ∀ src ∈ valueStates, pushedState src ≠ .Error := by decide

/-- The tokens of what cannot start a value, and of what starts a list. -/
theorem tokenize_simple {c : UInt8} (hvalue : c ∉ noValue) (hcurly : c ≠ '{'.toUInt8)
    (hsquare : c ≠ '['.toUInt8) :
    Tokenize c ∈ [.String, .False, .True, .Null, .Number] := by
  cases htoken : Tokenize c
  case LeftBracket => exact absurd htoken (tokenize_ne _ rfl hsquare)
  case LeftCurlyBracket => exact absurd htoken (tokenize_ne _ rfl hcurly)
  case RightBracket | RightCurlyBracket | Comma | Colon =>
    refine absurd htoken (tokenize_ne _ rfl ?_)
    rintro rfl
    exact hvalue (by decide)
  all_goals decide

/-- A value that is no list, in a state that waits for one. -/
theorem transit_simple {src : IterativeParsingState} (hsrc : src ∈ valueStates) {token : Token}
    (htoken : token ∈ [.String, .False, .True, .Null, .Number]) (is : Stream)
    (stack : IterativeStack) :
    Transit flags src (Predict src token) is stack =
      (ParseValue flags (is.rest.length + 1) is).bind fun is =>
        .pure (closed (pushedState src), stack, is) := by
  have hpredict : ∀ src ∈ valueStates, ∀ token ∈ [.String, .False, .True, .Null, .Number],
      (Predict src token, closed (pushedState src)) ∈
        [(.Value, .Finish), (.MemberValue, .MemberValue), (.Element, .Element)] := by decide
  have hmem := hpredict src hsrc token htoken
  generalize Predict src token = dst at hmem
  generalize closed (pushedState src) = d at hmem
  simp only [List.mem_cons, Prod.mk.injEq, List.not_mem_nil, or_false] at hmem
  obtain ⟨rfl, rfl⟩ | ⟨rfl, rfl⟩ | ⟨rfl, rfl⟩ := hmem
  all_goals rfl

/-- The recursive parse of a value, as what the machine does from any of the states that
wait for one. -/
def ValueAlike (flags : ParseFlags) (fuel : Nat) : Prop :=
  ∀ src ∈ valueStates, ∀ stack is, is.rest.length < fuel →
    (src = .Start → is.Peek ∉ noValue) →
    (src = .ArrayInitial ∨ src = .ElementDelimiter → is.Peek ≠ ']'.toUInt8) →
    (iter flags src stack is).Alike ParseError.code
      ((ParseValue flags fuel is).bind (resume flags (closed (pushedState src)) stack))

theorem parseValue_advances {fuel : Nat} {is is' : Stream} (hfuel : is.rest.length < fuel)
    (h : (ParseValue flags fuel is).result = .done is') : is.Advances is' :=
  (parseValue_ensures (Keeps.refl is) hfuel).of_done h

theorem value_walksItem {fuel : Nat} (hvalue : ValueAlike flags fuel) :
    WalksItem flags arrayBracket .ArrayInitial .ElementDelimiter .Element .ValueInvalid
      (ParseValue flags fuel) fuel where
  alike src hsrc stack is hbound hpeek := by
    have hstates : src ∈ valueStates ∧ src ≠ .Start ∧ closed (pushedState src) = .Element := by
      revert src
      decide
    obtain ⟨hstates, hstart, hclosed⟩ := hstates
    rw [← hclosed]
    exact hvalue src hstates stack is hbound (fun h => absurd h hstart) fun _ => hpeek
  close is hbound hpeek := by
    cases fuel with
    | zero => exact absurd hbound (Nat.not_lt_zero _)
    | succ fuel => exact parseValue_noValue (hpeek ▸ by decide) fuel
  advances is is' hbound h := parseValue_advances hbound h

theorem member_walksItem {fuel : Nat} (hvalue : ValueAlike flags fuel) :
    WalksItem flags objectBracket .ObjectInitial .MemberDelimiter .MemberValue .ObjectMissName
      (member flags (ParseValue flags fuel)) fuel where
  alike src hsrc stack is hbound hpeek := by
    unfold member
    by_cases hquote : is.Peek = '"'.toUInt8
    · rw [if_neg fun h => h hquote, Script.bind_assoc]
      have hpredict : Predict src (Tokenize is.Peek) = .MemberKey := by
        rw [hquote]
        revert src
        decide
      rw [iter_parse (hquote ▸ by decide) hpredict (by decide) rfl]
      refine (Script.Alike.refl _ _).bind fun is₁ his₁ => ?_
      have h₁ : is.Advances is₁ :=
        (parseString_ensures (A := False) true (Keeps.refl is)).of_done his₁
      rw [resume_of_ne (by decide), skip_bind]
      refine skip_alike fun is₂ h₂ => ?_
      have h₁₂ := h₁.keeps h₂
      by_cases hcolon : is₂.Peek = ':'.toUInt8
      · have hpredict₂ : Predict .MemberKey (Tokenize is₂.Peek) = .KeyValueDelimiter := by
          rw [hcolon]
          rfl
        have hnext : iter flags .MemberKey stack is₂ =
            resume flags .KeyValueDelimiter stack is₂.Take := by
          rw [iter_of_peek (hcolon ▸ by decide), hpredict₂]
          rfl
        rw [hnext, resume_of_ne (by decide), Consume, if_pos hcolon]
        dsimp only
        rw [skip_bind]
        refine skip_alike fun is₃ h₃ => ?_
        have hlt := (h₁₂.keeps ((take_keeps is₂).trans h₃)).2
        exact hvalue .KeyValueDelimiter (by decide) stack is₃ (by omega) (by simp) (by simp)
      · have hmisfit : Predict .MemberKey (Tokenize is₂.Peek) = .Error := by
          have hcolon := tokenize_ne .Colon rfl hcolon
          cases htoken : Tokenize is₂.Peek
          case Colon => exact absurd htoken hcolon
          all_goals rfl
        rw [iter_misfit (by decide) (.inr hmisfit), consume_none hcolon]
        exact Script.Alike.refl _ _
    · have hsrc' : src ≠ .Finish ∧ ∀ is, HandleError src is = ⟨.ObjectMissName, is.Tell⟩ := by
        simp only [List.mem_cons, List.not_mem_nil, or_false] at hsrc
        obtain rfl | rfl := hsrc
        all_goals exact ⟨by decide, fun _ => rfl⟩
      have hmisfit : Predict src (Tokenize is.Peek) = .Error := by
        have hquote := tokenize_ne .String rfl hquote
        have hpeek := tokenize_ne .RightCurlyBracket rfl hpeek
        simp only [List.mem_cons, List.not_mem_nil, or_false] at hsrc
        cases htoken : Tokenize is.Peek
        case String => exact absurd htoken hquote
        case RightCurlyBracket => exact absurd htoken hpeek
        all_goals obtain rfl | rfl := hsrc
        all_goals rfl
      rw [if_pos hquote, iter_misfit hsrc'.1 (.inr hmisfit), hsrc'.2]
      exact Script.Alike.refl _ _
  close is _ hpeek := by
    rw [member, if_pos (hpeek ▸ by decide)]
  advances is is' hbound h :=
    (member_ensures (fun _ hs hf => parseValue_ensures hs hf) (Keeps.refl is) hbound).of_done h

theorem value_alike (flags : ParseFlags) (fuel : Nat) : ValueAlike flags fuel := by
  induction fuel with
  | zero => exact fun _ _ _ _ hfuel => absurd hfuel (Nat.not_lt_zero _)
  | succ fuel ih =>
    intro src hsrc stack is hfuel hstart harray
    have hpushed := pushedState_ne src hsrc
    by_cases hvalue : is.Peek ∈ noValue
    · -- no value: the number that the recursive reader tries fails as the table does
      have hmisfit : ∀ c ∈ noValue, ∀ src ∈ valueStates, c = 0 ∨
          Predict src (Tokenize c) = .Error ∨
          ((src = .ArrayInitial ∨ src = .ElementDelimiter) ∧ c = ']'.toUInt8) :=
        List.all_iff_forall_prop.mp rfl
      have herror : ∀ src ∈ valueStates, src ≠ .Start →
          src ≠ .Finish ∧ HandleError src is = ⟨.ValueInvalid, is.Tell⟩ := by
        simp [valueStates, HandleError]
      obtain ⟨hfinish, herror⟩ := herror src hsrc fun h => hstart h hvalue
      rw [iter_misfit hfinish ?_, herror, parseValue_noValue hvalue]
      · exact Script.Alike.refl _ _
      · obtain h | h | ⟨h, hpeek⟩ := hmisfit _ hvalue src hsrc
        · exact .inl h
        · exact .inr h
        · exact absurd hpeek (harray h)
    · have hpeek : is.Peek ≠ 0 := fun h => hvalue (h ▸ by decide)
      by_cases hcurly : is.Peek = '{'.toUInt8
      · have hpredict : ∀ src ∈ valueStates, Predict src .LeftCurlyBracket = .ObjectInitial := by
          decide
        have htoken : Tokenize is.Peek = .LeftCurlyBracket := hcurly ▸ rfl
        have hparse : ParseValue flags (fuel + 1) is =
            ParseObject flags (ParseValue flags fuel) is := by
          rw [ParseValue, hcurly]
          rfl
        rw [hparse]
        refine compound_alike object_walks (member_walksItem ih) (by decide) hpushed
          (Nat.le_of_lt_succ hfuel) hpeek ?_
        rw [htoken, hpredict src hsrc]
        rfl
      · by_cases hsquare : is.Peek = '['.toUInt8
        · have hpredict : ∀ src ∈ valueStates, Predict src .LeftBracket = .ArrayInitial := by decide
          have htoken : Tokenize is.Peek = .LeftBracket := hsquare ▸ rfl
          have hparse : ParseValue flags (fuel + 1) is =
              ParseArray flags (ParseValue flags fuel) is := by
            rw [ParseValue, hsquare]
            rfl
          rw [hparse]
          refine compound_alike array_walks (value_walksItem ih) (by decide) hpushed
            (Nat.le_of_lt_succ hfuel) hpeek ?_
          rw [htoken, hpredict src hsrc]
          rfl
        · have hclosed : ∀ src ∈ valueStates, closed (pushedState src) ≠ .Error := by decide
          have hsimple := tokenize_simple hvalue hcurly hsquare
          rw [iter_parse hpeek rfl (hclosed src hsrc) (transit_simple hsrc hsimple is stack),
            parseValue_fuel hcurly hsquare fuel is.rest.length]
          exact Script.Alike.refl _ _

-- ---------------------------------------------------------------------------
-- Whole texts
-- ---------------------------------------------------------------------------

/-- The machine after the value of the document. -/
theorem resume_finish (stack : IterativeStack) (is : Stream) :
    resume flags .Finish stack is =
      if flags.stopWhenDone then .pure is
      else
        skip flags is fun is =>
          if is.Peek ≠ 0 then .fail ⟨.DocumentRootNotSingular, is.Tell⟩ else .pure is := by
  by_cases hstop : flags.stopWhenDone
  · rw [resume, if_pos ⟨hstop, rfl⟩, if_pos hstop]
  · rw [resume, if_neg fun h => hstop h.1, if_neg hstop]
    refine skip_congr fun is' _ => ?_
    by_cases hpeek : is'.Peek = 0
    · rw [if_neg fun h => h hpeek, iter, iterate, if_pos hpeek, if_neg fun h => h rfl]
    · rw [if_pos hpeek, iter_of_peek hpeek]
      rfl

theorem start_alike {is : Stream} (h : is.Peek = 0 ∨ is.Peek ∉ noValue) :
    (iter flags .Start [] is).Alike ParseError.code
      (if is.Peek = 0 then .fail ⟨.DocumentEmpty, is.Tell⟩
      else
        (ParseValue flags (is.rest.length + 1) is).bind fun is =>
          if flags.stopWhenDone then .pure is
          else
            skip flags is fun is =>
              if is.Peek ≠ 0 then .fail ⟨.DocumentRootNotSingular, is.Tell⟩ else .pure is) := by
  by_cases hpeek : is.Peek = 0
  · rw [if_pos hpeek, iter_misfit (by decide) (.inl hpeek)]
    exact Script.Alike.refl _ _
  · have hvalue := value_alike flags (is.rest.length + 1) .Start (by decide) [] is
      (Nat.lt_succ_self _) (fun _ => h.resolve_left hpeek) (by simp)
    rw [if_neg hpeek]
    refine hvalue.trans ((Script.Alike.refl _ _).bind fun is' _ => ?_)
    rw [← resume_finish []]
    exact Script.Alike.refl _ _

/-- The first character after white space and comments ends a list, or is a comma or a
colon. -/
def StartsWithPunctuation (flags : ParseFlags) (json : Bytes) : Prop :=
  ∃ is, SkipWhitespaceAndComments flags (StringStream json) = .done is ∧
    is.Peek ∈ [']'.toUInt8, '}'.toUInt8, ','.toUInt8, ':'.toUInt8]

/-- **The iterative reader agrees with the recursive one**, whatever the flags and the
handler: it makes the same calls and comes to the same end, up to the offset that it
reports for a refused call. The exception is a text that starts with one of the
characters no value starts with: it is an empty document to the one and an invalid
value to the other. -/
theorem IterativeParse_agrees (flags : ParseFlags) (json : Bytes) {σ : Type}
    (handler : σ → SaxEvent → Bool × σ) (s : σ) :
    (¬ StartsWithPunctuation flags json →
      (IterativeParse flags json handler s).2 = (Parse flags json handler s).2 ∧
      ((IterativeParse flags json handler s).1 = (Parse flags json handler s).1 ∨
        ∃ o o', (IterativeParse flags json handler s).1 = .fail ⟨.Termination, o⟩ ∧
          (Parse flags json handler s).1 = .fail ⟨.Termination, o'⟩)) ∧
    (StartsWithPunctuation flags json →
      ∃ o, IterativeParse flags json handler s = (.fail ⟨.DocumentEmpty, o⟩, s) ∧
        Parse flags json handler s = (.fail ⟨.ValueInvalid, o⟩, s)) := by
  constructor
  · intro hstart
    have halike : (iterativeStream flags (StringStream json)).Alike ParseError.code
        (parseStream flags (StringStream json)) := by
      refine (Script.Alike.refl _ _).bind fun is his => start_alike ?_
      by_contra hpeek
      obtain ⟨hzero, hmem⟩ := not_or.mp hpeek
      refine hstart ⟨is, his, ?_⟩
      exact (List.mem_cons.mp (not_not.mp hmem)).resolve_left hzero
    have hends := parseStream_ensures flags (StringStream json)
    obtain ⟨hstate, ⟨-, hend⟩ | ⟨event, e, e', hmem, hend, hend', hcode⟩⟩ := halike.play handler s
    · exact ⟨hstate, .inl hend⟩
    · have he' : e'.code = .Termination := (hends.1 _ hmem).1
      obtain ⟨code, o⟩ := e
      obtain ⟨code', o'⟩ := e'
      cases he'
      cases hcode
      exact ⟨hstate, .inr ⟨o, o', hend, hend'⟩⟩
  · rintro ⟨is, his, hpeek⟩
    have hmem : ∀ c ∈ [']'.toUInt8, '}'.toUInt8, ','.toUInt8, ':'.toUInt8],
        c ≠ 0 ∧ Predict .Start (Tokenize c) = .Error := List.all_iff_forall_prop.mp rfl
    obtain ⟨hzero, hpredict⟩ := hmem _ hpeek
    have hresult : (Script.lift (SkipWhitespaceAndComments flags (StringStream json)) :
        Script ParseError Stream).result = .done is := his
    refine ⟨is.Tell, ?_, ?_⟩
    · have hiter : iter flags .Start [] is = .fail ⟨.DocumentEmpty, is.Tell⟩ :=
        iter_misfit (by decide) (.inr hpredict) []
      rw [IterativeParse, iterativeStream, skip, Script.bind_of_done hresult]
      unfold iter at hiter
      rw [hiter]
      rfl
    · have hvalue : is.Peek ∈ noValue := List.mem_cons_of_mem _ hpeek
      rw [Parse, parseStream, skip, Script.bind_of_done hresult, if_neg hzero,
        parseValue_noValue hvalue]
      rfl

end GenericReader

end RapidJson
