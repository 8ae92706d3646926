import ThirdPartDemo.Library.JsonText
import ThirdPartDemo.RapidJson.Stream

/-!
# RapidJSON — the recursive reader

`GenericReader<UTF8<>, UTF8<>>::Parse` of `rapidjson/reader.h` and what it calls. A
parse on a stream is the script of the calls it makes of its handler, each with the
error that a refused call is reported as; `GenericReader.Parse` plays it.

The numbers go through all the stages of `ParseNumber`: 32 bits, 64 bits, then a
double that takes the rest of the digits, a fraction that is collected in an integer
as long as it fits 53 bits, an exponent that is capped before it can overflow. The
digits of the fraction are subtracted from the exponent after that, and there a large
negative one can overflow after all.

The functions that loop over members and elements take the function for the values
as an argument; `ParseValue` ties the knot on a budget, which the length of the text
always suffices for.

`SizeType` is a natural number and the `int`s of an exponent are integers, as they are on
texts shorter than `2^27` bytes; only the last sum of exponents is an `int` of its own.
-/

namespace RapidJson

open Library

namespace GenericReader

-- ---------------------------------------------------------------------------
-- White space and comments
-- ---------------------------------------------------------------------------

/-- `SkipWhitespace` -/
def SkipWhitespace (s : Stream) : Stream :=
  { s with
    passed := s.passed ++ s.rest.takeWhile isJsonSpace
    rest := s.rest.dropWhile isJsonSpace }

/-- The rest of a multi-line comment: its length, through `*/`. -/
def blockComment : Bytes → Option Nat
  | [] => none
  | b :: rest =>
    if b = '*'.toUInt8 ∧ rest.head? = some '/'.toUInt8 then some 2
    else (blockComment rest).map (· + 1)

/-- The rest of a one-line comment: its length, through the end of the line. -/
def lineComment : Bytes → Nat
  | [] => 0
  | b :: rest => if b = '\n'.toUInt8 then 1 else lineComment rest + 1

/-- `Take` a number of times. -/
def takeMany (n : Nat) (s : Stream) : Stream :=
  { s with passed := s.passed ++ s.rest.take n, rest := s.rest.drop n }

/-- The comments of `SkipWhitespaceAndComments`, with the white space after each. -/
def skipComments : Nat → Stream → Ending ParseError Stream
  | 0, _ => .outOfFuel
  | fuel + 1, s =>
    match s.Consume '/'.toUInt8 with
    | none => .done s
    | some s =>
      if let some s := s.Consume '*'.toUInt8 then
        match blockComment s.rest with
        | some n => skipComments fuel (SkipWhitespace (takeMany n s))
        | none => .fail ⟨.UnspecificSyntaxError, s.Tell + s.rest.length⟩
      else if let some s := s.Consume '/'.toUInt8 then
        skipComments fuel (SkipWhitespace (takeMany (lineComment s.rest) s))
      else .fail ⟨.UnspecificSyntaxError, s.Tell⟩

/-- `SkipWhitespaceAndComments` -/
def SkipWhitespaceAndComments (flags : ParseFlags) (s : Stream) : Ending ParseError Stream :=
  let s := SkipWhitespace s
  if flags.comments then skipComments (s.rest.length + 1) s else .done s

-- ---------------------------------------------------------------------------
-- Literals
-- ---------------------------------------------------------------------------

/-- `Consume` one character after the other, up to the first that differs, and
whether none does. -/
def consumeAll : Bytes → Stream → Bool × Stream
  | [], s => (true, s)
  | b :: expect, s =>
    match s.Consume b with
    | some s => consumeAll expect s
    | none => (false, s)

/-- `ParseNull`, `ParseTrue` and `ParseFalse`: what follows the first character, and
the event. -/
def parseLiteral (tail : Bytes) (event : SaxEvent) (s : Stream) : Script ParseError Stream :=
  match consumeAll tail s.Take with
  | (true, s) => .call event ⟨.Termination, s.Tell⟩ s
  | (false, s) => .fail ⟨.ValueInvalid, s.Tell⟩

def ParseNull : Stream → Script ParseError Stream := parseLiteral (ascii "ull") .null
def ParseTrue : Stream → Script ParseError Stream := parseLiteral (ascii "rue") (.bool true)
def ParseFalse : Stream → Script ParseError Stream := parseLiteral (ascii "alse") (.bool false)

-- ---------------------------------------------------------------------------
-- Strings
-- ---------------------------------------------------------------------------

/-- The table `escape` of `ParseStringToStream`. -/
def escape (e : UInt8) : UInt8 :=
  if e = '"'.toUInt8 then '"'.toUInt8
  else if e = '/'.toUInt8 then '/'.toUInt8
  else if e = '\\'.toUInt8 then '\\'.toUInt8
  else if e = 'b'.toUInt8 then 0x08
  else if e = 'f'.toUInt8 then 0x0C
  else if e = 'n'.toUInt8 then 0x0A
  else if e = 'r'.toUInt8 then 0x0D
  else if e = 't'.toUInt8 then 0x09
  else 0

/-- The rounds of `ParseHex4` that are left. -/
def hexRounds (escapeOffset : Nat) : Nat → Nat → Stream → Ending ParseError (Nat × Stream)
  | 0, codepoint, is => .done (codepoint, is)
  | i + 1, codepoint, is =>
    match hexDigit is.Peek with
    | some d => hexRounds escapeOffset i (16 * codepoint + d) is.Take
    | none => .fail ⟨.StringUnicodeEscapeInvalidHex, escapeOffset⟩

/-- `ParseHex4` -/
def ParseHex4 (is : Stream) (escapeOffset : Nat) : Ending ParseError (Nat × Stream) :=
  hexRounds escapeOffset 4 0 is

/-- The code point of a `\u` escape, after the `u`. -/
def parseCodepoint (is : Stream) (escapeOffset : Nat) : Ending ParseError (Nat × Stream) :=
  (ParseHex4 is escapeOffset).bind fun (codepoint, is) =>
    if 0xD800 ≤ codepoint ∧ codepoint ≤ 0xDBFF then
      match consumeAll ['\\'.toUInt8, 'u'.toUInt8] is with
      | (false, _) => .fail ⟨.StringUnicodeSurrogateInvalid, escapeOffset⟩
      | (true, is) =>
        (ParseHex4 is escapeOffset).bind fun (codepoint2, is) =>
          if codepoint2 < 0xDC00 ∨ 0xDFFF < codepoint2 then
            .fail ⟨.StringUnicodeSurrogateInvalid, escapeOffset⟩
          else
            .done ((codepoint - 0xD800) * 0x400 + (codepoint2 - 0xDC00) + 0x10000, is)
    else .done (codepoint, is)

/-- `os.Put`: onto the reader's stack, or with `kParseInsituFlag` into the text. -/
def put (flags : ParseFlags) (os : Stream × Bytes) (c : UInt8) : Stream × Bytes :=
  if flags.insitu then (os.1.Put c, os.2) else (os.1, os.2 ++ [c])

/-- `UTF8<>::Encode` -/
def Encode (flags : ParseFlags) (os : Stream × Bytes) (codepoint : Nat) : Stream × Bytes :=
  (utf8 codepoint).foldl (put flags) os

/-- `ParseStringToStream`, with the characters put on the stack so far. -/
def ParseStringToStream (flags : ParseFlags) :
    Nat → Stream × Bytes → Ending ParseError (Stream × Bytes)
  | 0, _ => .outOfFuel
  | fuel + 1, (is, stack) =>
    let c := is.Peek
    if c = '\\'.toUInt8 then
      let escapeOffset := is.Tell    -- for invalid escaping, report the initial '\\'
      let is := is.Take
      let e := is.Peek
      if escape e ≠ 0 then
        ParseStringToStream flags fuel (put flags (is.Take, stack) (escape e))
      else if e = 'u'.toUInt8 then
        (parseCodepoint is.Take escapeOffset).bind fun (codepoint, is) =>
          ParseStringToStream flags fuel (Encode flags (is, stack) codepoint)
      else .fail ⟨.StringEscapeInvalid, escapeOffset⟩
    else if c = '"'.toUInt8 then .done (put flags (is.Take, stack) 0)
    else if c < 0x20 then
      if c = 0 then .fail ⟨.StringMissQuotationMark, is.Tell⟩
      else .fail ⟨.StringEscapeInvalid, is.Tell⟩
    else ParseStringToStream flags fuel (put flags (is.Take, stack) c)

/-- The event of a string. -/
def stringEvent (isKey : Bool) (str : Bytes) : SaxEvent := if isKey then .key str else .string str

/-- `ParseString`. The null that ends the decoded string is not part of its length. -/
def ParseString (flags : ParseFlags) (s : Stream) (isKey : Bool) : Script ParseError Stream :=
  let s := s.Take
  if flags.insitu then
    let (head, s) := s.PutBegin
    (Script.lift (ParseStringToStream flags (s.rest.length + 1) (s, []))).bind fun (s, _) =>
      let str := s.memory head (s.PutEnd head - 1)
      .call (stringEvent isKey str) ⟨.Termination, s.Tell⟩
        { s with strings := s.strings ++ [(head, str)] }
  else
    (Script.lift (ParseStringToStream flags (s.rest.length + 1) (s, []))).bind fun (s, stack) =>
      let str := stack.take (stack.length - 1)
      .call (stringEvent isKey str) ⟨.Termination, s.Tell⟩ s

-- ---------------------------------------------------------------------------
-- Numbers
-- ---------------------------------------------------------------------------

/-- `NumberStream`: the stream from where the number starts. -/
structure NumberStream where
  startOffset : Nat
  taken : Bytes
  rest : Bytes

namespace NumberStream

def Peek (s : NumberStream) : UInt8 := s.rest.headD 0

def Take (s : NumberStream) : NumberStream :=
  match s.rest with
  | [] => s
  | b :: rest => { s with taken := s.taken ++ [b], rest }

def Tell (s : NumberStream) : Nat := s.startOffset + s.taken.length

def Consume (s : NumberStream) (expect : UInt8) : Option NumberStream :=
  if s.Peek = expect then some s.Take else none

end NumberStream

/-- The local variables of `ParseNumber`. -/
structure Number where
  i : Nat := 0
  i64 : Nat := 0
  use64bit : Bool := false
  d : Float := 0.0
  useDouble : Bool := false
  significandDigit : Nat := 0
  expFrac : Int := 0
  exp : Int := 0

/-- What a round of a loop over digits does: take the digit, leave the loop before
it, or give up. -/
inductive Turn where
  | take (n : Number)
  | leave (n : Number)
  | tooBig

/-- `while (s.Peek() >= '0' && s.Peek() <= '9')`, over the rest of the stream. -/
def digitRounds (startOffset : Nat) (turn : Number → Nat → Turn) :
    Number → Bytes → Bytes → Ending ParseError (Number × NumberStream)
  | n, taken, [] => .done (n, ⟨startOffset, taken, []⟩)
  | n, taken, b :: rest =>
    if isDecimal b then
      match turn n (b.toNat - '0'.toNat) with
      | .take n => digitRounds startOffset turn n (taken ++ [b]) rest
      | .leave n => .done (n, ⟨startOffset, taken, b :: rest⟩)
      | .tooBig => .fail ⟨.NumberTooBig, startOffset⟩
    else .done (n, ⟨startOffset, taken, b :: rest⟩)

def whileDigit (turn : Number → Nat → Turn) (n : Number) (s : NumberStream) :
    Ending ParseError (Number × NumberStream) :=
  digitRounds s.startOffset turn n s.taken s.rest

/-- Whether another digit takes an integer past `limit` and the digit `last` after it. -/
def past (limit last acc digit : Nat) : Bool := limit ≤ acc && (acc != limit || last < digit)

/-- A round in 32 bits, up to `2^31` for a negative number and `2^32 - 1` for others. -/
def turn32 (minus : Bool) (n : Number) (digit : Nat) : Turn :=
  if bif minus then past 214748364 8 n.i digit else past 429496729 5 n.i digit then
    .leave { n with i64 := n.i, use64bit := true }
  else .take { n with i := n.i * 10 + digit, significandDigit := n.significandDigit + 1 }

/-- A round in 64 bits, up to `2^63` for a negative number and `2^64 - 1` for others. -/
def turn64 (minus : Bool) (n : Number) (digit : Nat) : Turn :=
  if bif minus then past 0x0CCCCCCCCCCCCCCC 8 n.i64 digit
      else past 0x1999999999999999 5 n.i64 digit then
    .leave { n with d := n.i64.toUInt64.toFloat, useDouble := true }
  else .take { n with i64 := n.i64 * 10 + digit, significandDigit := n.significandDigit + 1 }

/-- A round for a big integer, as a double. -/
def turnDouble (n : Number) (digit : Nat) : Turn :=
  if n.d ≥ 1.7976931348623157e307 then .tooBig    -- DBL_MAX / 10.0
  else .take { n with d := n.d * 10 + Float.ofNat digit }

/-- Parse int: zero / ( digit1-9 *DIGIT ) -/
def parseInt (minus : Bool) (s : NumberStream) : Ending ParseError (Number × NumberStream) :=
  if s.Peek = '0'.toUInt8 then .done ({}, s.Take)
  else if '1'.toUInt8 ≤ s.Peek ∧ s.Peek ≤ '9'.toUInt8 then
    (whileDigit (turn32 minus) { i := s.Peek.toNat - '0'.toNat } s.Take).bind fun (n, s) =>
      (if n.use64bit then whileDigit (turn64 minus) n s else .done (n, s)).bind fun (n, s) =>
        if n.useDouble then whileDigit turnDouble n s else .done (n, s)
  else .fail ⟨.ValueInvalid, s.Tell⟩

/-- A digit of the fraction while the significand is an integer of at most 53 bits. -/
def turnFrac (n : Number) (digit : Nat) : Turn :=
  if 0x1FFFFFFFFFFFFF < n.i64 then .leave n
  else
    let i64 := n.i64 * 10 + digit
    .take { n with
      i64
      expFrac := n.expFrac - 1
      significandDigit := if i64 ≠ 0 then n.significandDigit + 1 else n.significandDigit }

/-- A digit of the fraction after that; the seventeenth significant digit is the last
that counts. -/
def turnFracDouble (n : Number) (digit : Nat) : Turn :=
  if n.significandDigit < 17 then
    let d := n.d * 10.0 + Float.ofNat digit
    .take { n with
      d
      expFrac := n.expFrac - 1
      significandDigit := if d > 0.0 then n.significandDigit + 1 else n.significandDigit }
  else .take n

/-- Parse frac = decimal-point 1*DIGIT -/
def parseFrac (n : Number) (s : NumberStream) : Ending ParseError (Number × NumberStream) :=
  match s.Consume '.'.toUInt8 with
  | none => .done (n, s)
  | some s =>
    if !isDecimal s.Peek then .fail ⟨.NumberMissFraction, s.Tell⟩
    else
      (if n.useDouble then .done (n, s)
        else
          (whileDigit turnFrac { n with i64 := if n.use64bit then n.i64 else n.i } s).bind
            fun (n, s) => .done ({ n with d := n.i64.toUInt64.toFloat, useDouble := true }, s)).bind
        fun (n, s) => whileDigit turnFracDouble n s

/-- The integer so far as a double, if it is not one yet. -/
def Number.asDouble (n : Number) : Number :=
  if n.useDouble then n
  else { n with d := (if n.use64bit then n.i64 else n.i).toUInt64.toFloat, useDouble := true }

/-- A digit of a negative exponent. Once it is large the rest is only consumed. -/
def turnExpMinus (n : Number) (digit : Nat) : Turn :=
  if n.exp ≥ 214748364 then .take n else .take { n with exp := n.exp * 10 + digit }

/-- A digit of another exponent. -/
def turnExp (maxExp : Int) (n : Number) (digit : Nat) : Turn :=
  if n.exp * 10 + digit > maxExp then .tooBig else .take { n with exp := n.exp * 10 + digit }

/-- The sign of an exponent, and whether it is a minus. -/
def parseSign (s : NumberStream) : Bool × NumberStream :=
  match s.Consume '+'.toUInt8 with
  | some s => (false, s)
  | none =>
    match s.Consume '-'.toUInt8 with
    | some s => (true, s)
    | none => (false, s)

/-- Parse exp = e [ minus / plus ] 1*DIGIT -/
def parseExp (n : Number) (s : NumberStream) : Ending ParseError (Number × NumberStream) :=
  match (s.Consume 'e'.toUInt8).or (s.Consume 'E'.toUInt8) with
  | none => .done (n, s)
  | some s =>
    let (expMinus, s) := parseSign s
    if isDecimal s.Peek then
      let n := { n.asDouble with exp := (s.Peek.toNat - '0'.toNat : Nat) }
      if expMinus then
        (whileDigit turnExpMinus n s.Take).bind fun (n, s) =>
          .done ({ n with exp := -n.exp }, s)
      else whileDigit (turnExp (308 - n.expFrac)) n s.Take
    else .fail ⟨.NumberMissExponent, s.Tell⟩

/-- `internal::Pow10` of `internal/pow10.h`, and its assertion -/
def Pow10 (n : Int) : Option Float :=
  if 0 ≤ n ∧ n ≤ 308 then some (Float.ofScientific 1 false n.toNat) else none

/-- `internal::FastPath` of `internal/strtod.h` -/
def FastPath (significand : Float) (exp : Int) : Option Float :=
  if exp < -308 then some 0.0
  else if 0 ≤ exp then (Pow10 exp).map fun e => significand * e
  else (Pow10 (-exp)).map fun e => significand / e

/-- `internal::StrtodNormalPrecision` -/
def StrtodNormalPrecision (d : Float) (p : Int) : Option Float :=
  if p < -308 then
    -- prevent expSum < -308, making Pow10(p) = 0
    (FastPath d (-308)).bind fun d => FastPath d (p + 308)
  else FastPath d p

/-- The sum of two `int`s. An overflow is undefined; where the sum of the exponents wraps
around it fails the assertion of `Pow10`. -/
def addInt (i j : Int) : Option Int :=
  if -0x80000000 ≤ i + j ∧ i + j ≤ 0x7FFFFFFF then some (i + j) else none

/-- The number, by the type that was found to fit. -/
def Number.toJsonNumber (minus : Bool) (n : Number) : Option JsonNumber :=
  if n.useDouble then
    (addInt n.exp n.expFrac).bind fun p =>
      (StrtodNormalPrecision n.d p).map fun d => .double (if minus then -d else d).toBits
  else if n.use64bit then
    some (if minus then .int64 (-n.i64) else .uint64 n.i64)
  else some (if minus then .int (-n.i) else .uint n.i)

/-- The number for the handler, where no assertion fails on the way to it. -/
def finishNumber (minus : Bool) (x : Number × NumberStream) :
    Ending ParseError (JsonNumber × NumberStream) :=
  match x.1.toJsonNumber minus with
  | some n => .done (n, x.2)
  | none => .aborted

/-- `ParseNumber` up to the end of the number. -/
def scanLiteral (s : NumberStream) : Ending ParseError (Number × NumberStream) :=
  (parseInt (s.Consume '-'.toUInt8).isSome ((s.Consume '-'.toUInt8).getD s)).bind fun (n, s) =>
    (parseFrac n s).bind fun (n, s) => parseExp n s

/-- `ParseNumber` up to the call of the handler. -/
def scanNumber (s : NumberStream) : Ending ParseError (JsonNumber × NumberStream) :=
  (scanLiteral s).bind (finishNumber (s.Consume '-'.toUInt8).isSome)

/-- `ParseNumber` -/
def ParseNumber (is : Stream) : Script ParseError Stream :=
  (Script.lift (scanNumber ⟨is.Tell, [], is.rest⟩)).bind fun (n, s) =>
    .call (.number n) ⟨.Termination, is.Tell⟩
      { is with passed := is.passed ++ s.taken, rest := s.rest }

-- ---------------------------------------------------------------------------
-- Objects, arrays and values
-- ---------------------------------------------------------------------------

/-- `SkipWhitespaceAndComments` in front of what the reader does next. -/
def skip (flags : ParseFlags) (is : Stream) (next : Stream → Script ParseError Stream) :
    Script ParseError Stream :=
  (Script.lift (SkipWhitespaceAndComments flags is)).bind next

/-- The values of the loops of `ParseObject` and `ParseArray`: the character and the
event that end the list, and the error where neither a comma nor the end comes. -/
structure Bracket where
  start : SaxEvent
  close : UInt8
  finish : Nat → SaxEvent
  missing : ParseErrorCode

def objectBracket : Bracket :=
  { start := .startObject
    close := '}'.toUInt8
    finish := .endObject
    missing := .ObjectMissCommaOrCurlyBracket }

def arrayBracket : Bracket :=
  { start := .startArray
    close := ']'.toUInt8
    finish := .endArray
    missing := .ArrayMissCommaOrSquareBracket }

/-- The loop of `ParseObject` and of `ParseArray`, before a member or an element,
which `item` parses. -/
def items (flags : ParseFlags) (bracket : Bracket) (item : Stream → Script ParseError Stream) :
    Nat → Nat → Stream → Script ParseError Stream
  | 0, _, _ => .outOfFuel
  | fuel + 1, count, is =>
    (item is).bind fun is => skip flags is fun is =>
      let count := count + 1
      if is.Peek = ','.toUInt8 then
        skip flags is.Take fun is =>
          if flags.trailingCommas ∧ is.Peek = bracket.close then
            .call (bracket.finish count) ⟨.Termination, is.Tell⟩ is.Take
          else items flags bracket item fuel count is
      else if is.Peek = bracket.close then
        .call (bracket.finish count) ⟨.Termination, is.Take.Tell⟩ is.Take
      else .fail ⟨bracket.missing, is.Tell⟩

/-- What `ParseObject` and `ParseArray` have in common. -/
def compound (flags : ParseFlags) (bracket : Bracket) (item : Stream → Script ParseError Stream)
    (is : Stream) : Script ParseError Stream :=
  (Script.call bracket.start ⟨.Termination, is.Take.Tell⟩ is.Take).bind fun is =>
    skip flags is fun is =>
      match is.Consume bracket.close with
      | some is => .call (bracket.finish 0) ⟨.Termination, is.Tell⟩ is
      | none => items flags bracket item (is.rest.length + 1) 0 is

/-- A member in `ParseObject`, from its name through its value. -/
def member (flags : ParseFlags) (parseValue : Stream → Script ParseError Stream) (is : Stream) :
    Script ParseError Stream :=
  if is.Peek ≠ '"'.toUInt8 then .fail ⟨.ObjectMissName, is.Tell⟩
  else
    (ParseString flags is true).bind fun is => skip flags is fun is =>
      match is.Consume ':'.toUInt8 with
      | none => .fail ⟨.ObjectMissColon, is.Tell⟩
      | some is => skip flags is parseValue

/-- `ParseObject` -/
def ParseObject (flags : ParseFlags) (parseValue : Stream → Script ParseError Stream) :
    Stream → Script ParseError Stream :=
  compound flags objectBracket (member flags parseValue)

/-- `ParseArray` -/
def ParseArray (flags : ParseFlags) (parseValue : Stream → Script ParseError Stream) :
    Stream → Script ParseError Stream :=
  compound flags arrayBracket parseValue

/-- `ParseValue`. The budget bounds the depth of the recursion. -/
def ParseValue (flags : ParseFlags) : Nat → Stream → Script ParseError Stream
  | 0, _ => .outOfFuel
  | fuel + 1, is =>
    if is.Peek = 'n'.toUInt8 then ParseNull is
    else if is.Peek = 't'.toUInt8 then ParseTrue is
    else if is.Peek = 'f'.toUInt8 then ParseFalse is
    else if is.Peek = '"'.toUInt8 then ParseString flags is false
    else if is.Peek = '{'.toUInt8 then ParseObject flags (ParseValue flags fuel) is
    else if is.Peek = '['.toUInt8 then ParseArray flags (ParseValue flags fuel) is
    else ParseNumber is

/-- The calls and the end of `Parse` on a stream. -/
def parseStream (flags : ParseFlags) (is : Stream) : Script ParseError Stream :=
  skip flags is fun is =>
    if is.Peek = 0 then .fail ⟨.DocumentEmpty, is.Tell⟩
    else
      (ParseValue flags (is.rest.length + 1) is).bind fun is =>
        if flags.stopWhenDone then .pure is
        else
          skip flags is fun is =>
            if is.Peek ≠ 0 then .fail ⟨.DocumentRootNotSingular, is.Tell⟩ else .pure is

/-- `GenericReader::Parse`: the result, and the handler afterwards. -/
def Parse {σ : Type} (flags : ParseFlags) (json : Bytes) (handler : σ → SaxEvent → Bool × σ)
    (s : σ) : Ending ParseError Stream × σ :=
  (parseStream flags (StringStream json)).play handler s

end GenericReader

end RapidJson
