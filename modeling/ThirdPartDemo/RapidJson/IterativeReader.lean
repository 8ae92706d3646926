import ThirdPartDemo.RapidJson.Reader

/-!
# RapidJSON — the iterative reader

`GenericReader::IterativeParse` of `rapidjson/reader.h`: a state machine over one token
of lookahead, with a stack of the states to return to and the counts of the members or
elements so far. Simple values go through the same functions as in the recursive
reader.
-/

namespace RapidJson

open Library

namespace GenericReader

/-- `IterativeParsingState` -/
inductive IterativeParsingState where
  | Start
  | Finish
  | Error
  | ObjectInitial
  | MemberKey
  | KeyValueDelimiter
  | MemberValue
  | MemberDelimiter
  | ObjectFinish
  | ArrayInitial
  | Element
  | ElementDelimiter
  | ArrayFinish
  | Value
  deriving DecidableEq, Repr

/-- `Token` -/
inductive Token where
  | LeftBracket
  | RightBracket
  | LeftCurlyBracket
  | RightCurlyBracket
  | Comma
  | Colon
  | String
  | False
  | True
  | Null
  | Number
  deriving DecidableEq, Repr

/-- `Tokenize` -/
def Tokenize (c : UInt8) : Token :=
  if c = '"'.toUInt8 then .String
  else if c = ','.toUInt8 then .Comma
  else if c = ':'.toUInt8 then .Colon
  else if c = '['.toUInt8 then .LeftBracket
  else if c = ']'.toUInt8 then .RightBracket
  else if c = 'f'.toUInt8 then .False
  else if c = 'n'.toUInt8 then .Null
  else if c = 't'.toUInt8 then .True
  else if c = '{'.toUInt8 then .LeftCurlyBracket
  else if c = '}'.toUInt8 then .RightCurlyBracket
  else .Number

/-- A row of the table for a state in which a value can come: where a simple value
leads, and where a right bracket does. -/
def predictValue (value rightBracket : IterativeParsingState) :
    Token → IterativeParsingState
  | .LeftBracket => .ArrayInitial
  | .RightBracket => rightBracket
  | .LeftCurlyBracket => .ObjectInitial
  | .RightCurlyBracket | .Comma | .Colon => .Error
  | .String | .False | .True | .Null | .Number => value

/-- `Predict`: the table `G`. -/
def Predict (state : IterativeParsingState) (token : Token) : IterativeParsingState :=
  match state with
  | .Start => predictValue .Value .Error token
  | .KeyValueDelimiter => predictValue .MemberValue .Error token
  | .ArrayInitial => predictValue .Element .ArrayFinish token
  | .ElementDelimiter => predictValue .Element .ArrayFinish token
  | .ObjectInitial | .MemberDelimiter =>
    match token with
    | .RightCurlyBracket => .ObjectFinish
    | .String => .MemberKey
    | _ => .Error
  | .MemberKey =>
    match token with
    | .Colon => .KeyValueDelimiter
    | _ => .Error
  | .MemberValue =>
    match token with
    | .RightCurlyBracket => .ObjectFinish
    | .Comma => .MemberDelimiter
    | _ => .Error
  | .Element =>
    match token with
    | .RightBracket => .ArrayFinish
    | .Comma => .ElementDelimiter
    | _ => .Error
  | .Finish | .Error | .ObjectFinish | .ArrayFinish | .Value => .Error

/-- The stack of the machine: the states to return to, each with the count above it. -/
abbrev IterativeStack := List (IterativeParsingState × Nat)

/-- What a transition leads to. -/
abbrev Transition := IterativeParsingState × IterativeStack × Stream

/-- The state that the end of the array or object that starts in `src` leads to. -/
def pushedState (src : IterativeParsingState) : IterativeParsingState :=
  if src = .ArrayInitial ∨ src = .ElementDelimiter then .Element
  else if src = .KeyValueDelimiter then .MemberValue
  else src

/-- `Transit` where an array or an object ends: without the flag the transition from a
delimiter is an error, otherwise the state on the stack is restored. -/
def finishList (flags : ParseFlags) (src delimiter item : IterativeParsingState)
    (trailing : ParseErrorCode) (finish : Nat → SaxEvent) (is : Stream) (stack : IterativeStack) :
    Script ParseError Transition :=
  if !flags.trailingCommas ∧ src = delimiter then .fail ⟨trailing, is.Tell⟩
  else
    match stack with
    | [] => .pure (.Error, [], is)    -- the stack has a frame here
    | (n, c) :: stack =>
      let c := if src = item then c + 1 else c
      let n := if n = .Start then .Finish else n
      .call (finish c) ⟨.Termination, is.Tell⟩ (n, stack, is.Take)

/-- `Transit` -/
def Transit (flags : ParseFlags) (src dst : IterativeParsingState) (is : Stream)
    (stack : IterativeStack) : Script ParseError Transition :=
  match dst with
  | .Error => .pure (.Error, stack, is)
  | .ObjectInitial =>
    .call .startObject ⟨.Termination, is.Tell⟩ (dst, (pushedState src, 0) :: stack, is.Take)
  | .ArrayInitial =>
    .call .startArray ⟨.Termination, is.Tell⟩ (dst, (pushedState src, 0) :: stack, is.Take)
  | .MemberKey => (ParseString flags is true).bind fun is => .pure (dst, stack, is)
  | .KeyValueDelimiter => .pure (dst, stack, is.Take)
  | .MemberValue | .Element =>
    (ParseValue flags (is.rest.length + 1) is).bind fun is => .pure (dst, stack, is)
  | .MemberDelimiter | .ElementDelimiter =>
    match stack with
    | [] => .pure (.Error, [], is)    -- the stack has a frame here
    | (n, c) :: stack => .pure (dst, (n, c + 1) :: stack, is.Take)
  | .ObjectFinish =>
    finishList flags src .MemberDelimiter .MemberValue .ObjectMissName .endObject is stack
  | .ArrayFinish =>
    finishList flags src .ElementDelimiter .Element .ValueInvalid .endArray is stack
  | .Start | .Finish | .Value =>
    (ParseValue flags (is.rest.length + 1) is).bind fun is => .pure (.Finish, stack, is)

/-- `HandleError`: the error of a state whose token does not fit. -/
def HandleError (src : IterativeParsingState) (is : Stream) : ParseError :=
  match src with
  | .Start => ⟨.DocumentEmpty, is.Tell⟩
  | .Finish => ⟨.DocumentRootNotSingular, is.Tell⟩
  | .ObjectInitial | .MemberDelimiter => ⟨.ObjectMissName, is.Tell⟩
  | .MemberKey => ⟨.ObjectMissColon, is.Tell⟩
  | .MemberValue => ⟨.ObjectMissCommaOrCurlyBracket, is.Tell⟩
  | .KeyValueDelimiter | .ArrayInitial | .ElementDelimiter => ⟨.ValueInvalid, is.Tell⟩
  | .Element | .Error | .ObjectFinish | .ArrayFinish | .Value =>
    ⟨.ArrayMissCommaOrSquareBracket, is.Tell⟩

/-- The loop of `IterativeParse`, and what comes after it. -/
def iterate (flags : ParseFlags) :
    Nat → IterativeParsingState → IterativeStack → Stream → Script ParseError Stream
  | 0, _, _, _ => .outOfFuel
  | fuel + 1, state, stack, is =>
    if is.Peek = 0 then
      if state ≠ .Finish then .fail (HandleError state is) else .pure is
    else
      (Transit flags state (Predict state (Tokenize is.Peek)) is stack).bind
        fun (d, stack, is) =>
          if d = .Error then .fail (HandleError state is)
          else if flags.stopWhenDone ∧ d = .Finish then .pure is
          else skip flags is fun is => iterate flags fuel d stack is

/-- The calls and the end of `IterativeParse` on a stream. -/
def iterativeStream (flags : ParseFlags) (is : Stream) : Script ParseError Stream :=
  skip flags is fun is => iterate flags (is.rest.length + 1) .Start [] is

/-- `GenericReader::IterativeParse` -/
def IterativeParse {σ : Type} (flags : ParseFlags) (json : Bytes)
    (handler : σ → SaxEvent → Bool × σ) (s : σ) : Ending ParseError Stream × σ :=
  (iterativeStream flags (StringStream json)).play handler s

end GenericReader

end RapidJson
