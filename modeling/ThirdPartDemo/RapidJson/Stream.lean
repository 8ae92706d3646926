import Mathlib.Data.Bool.AllAny
import ThirdPartDemo.Library.Script

/-!
# RapidJSON — input streams and parse errors

`StringStream` and `InsituStringStream` of `rapidjson/stream.h`, as one memory: the
bytes that have been passed, as they are now, and the bytes still to come up to the
terminating null character. A `StringStream` is never written to. An
`InsituStringStream` also has a write position, which `PutBegin` sets to the read
position: strings are decoded over the text they were read from.

The errors of `rapidjson/error/error.h` come with the offset they are reported at.
-/

namespace RapidJson

open Library

/-- `ParseFlag`, as far as the reader below tests them. -/
structure ParseFlags where
  insitu : Bool := false               -- kParseInsituFlag
  stopWhenDone : Bool := false         -- kParseStopWhenDoneFlag
  comments : Bool := false             -- kParseCommentsFlag
  trailingCommas : Bool := false       -- kParseTrailingCommasFlag
  deriving DecidableEq, Repr

/-- `ParseErrorCode` -/
inductive ParseErrorCode where
  | DocumentEmpty
  | DocumentRootNotSingular
  | ValueInvalid
  | ObjectMissName
  | ObjectMissColon
  | ObjectMissCommaOrCurlyBracket
  | ArrayMissCommaOrSquareBracket
  | StringUnicodeEscapeInvalidHex
  | StringUnicodeSurrogateInvalid
  | StringEscapeInvalid
  | StringMissQuotationMark
  | NumberTooBig
  | NumberMissFraction
  | NumberMissExponent
  | Termination
  | UnspecificSyntaxError
  deriving DecidableEq, Repr

/-- A `ParseResult` with an error. -/
structure ParseError where
  code : ParseErrorCode
  offset : Nat
  deriving DecidableEq, Repr

/-- A stream over a string in memory, which ends at the string's null character. -/
structure Stream where
  passed : Bytes                       -- the memory from head_ to src_
  rest : Bytes                         -- the memory from src_ on, without the null
  dst : Nat := 0                       -- dst_, as an offset from head_
  strings : List (Nat × Bytes) := []   -- the strings handed over in place, by offset
  deriving DecidableEq, Repr

/-- The stream at the head of a C string. -/
def StringStream (src : Bytes) : Stream := { passed := [], rest := src.takeWhile (· ≠ 0) }

namespace Stream

/-- `Peek`: the null character at the end. -/
def Peek (s : Stream) : UInt8 := s.rest.headD 0

/-- `Take`. The reader takes no more than it has seen not to be the null. -/
def Take (s : Stream) : Stream :=
  match s.rest with
  | [] => s
  | b :: rest => { s with passed := s.passed ++ [b], rest }

/-- `Tell` -/
def Tell (s : Stream) : Nat := s.passed.length

/-- `PutBegin`: where the output begins, and the stream. -/
def PutBegin (s : Stream) : Nat × Stream := (s.Tell, { s with dst := s.Tell })

/-- `Put`: write at `dst_`, wherever that is. -/
def Put (s : Stream) (c : UInt8) : Stream :=
  if s.dst < s.passed.length then { s with passed := s.passed.set s.dst c, dst := s.dst + 1 }
  else { s with rest := s.rest.set (s.dst - s.passed.length) c, dst := s.dst + 1 }

/-- `PutEnd`: how much was put. -/
def PutEnd (s : Stream) (begin : Nat) : Nat := s.dst - begin

/-- The bytes at an offset from `head_`. -/
def memory (s : Stream) (offset length : Nat) : Bytes :=
  ((s.passed ++ s.rest).drop offset).take length

/-- `Consume` -/
def Consume (s : Stream) (expect : UInt8) : Option Stream :=
  if s.Peek = expect then some s.Take else none

-- ---------------------------------------------------------------------------
-- Passing text
-- ---------------------------------------------------------------------------

/-- `s'` is `s` after the text `t` has been passed, and nothing has been put. -/
structure Passes (s : Stream) (t : Bytes) (s' : Stream) : Prop where
  rest : s.rest = t ++ s'.rest
  passed : s'.passed = s.passed ++ t
  dst : s'.dst = s.dst
  strings : s'.strings = s.strings

theorem Passes.refl (s : Stream) : s.Passes [] s := ⟨rfl, by simp, rfl, rfl⟩

theorem Passes.trans {s s' s'' : Stream} {t u : Bytes} (h : s.Passes t s')
    (h' : s'.Passes u s'') : s.Passes (t ++ u) s'' where
  rest := by rw [h.rest, h'.rest, List.append_assoc]
  passed := by rw [h'.passed, h.passed, List.append_assoc]
  dst := h'.dst.trans h.dst
  strings := h'.strings.trans h.strings

theorem Passes.cons {s s' s'' : Stream} {b : UInt8} {u : Bytes} (h : s.Passes [b] s')
    (h' : s'.Passes u s'') : s.Passes (b :: u) s'' := h.trans h'

theorem Passes.rest_eq {s s' : Stream} {t rest : Bytes} (h : s.Passes t s')
    (hs : s.rest = t ++ rest) : s'.rest = rest :=
  List.append_cancel_left (h.rest.symm.trans hs)

theorem Passes.length {s s' : Stream} {t : Bytes} (h : s.Passes t s') :
    s.rest.length = t.length + s'.rest.length := by
  rw [h.rest, List.length_append]

theorem peek_of_rest {s : Stream} {b : UInt8} {rest : Bytes} (h : s.rest = b :: rest) :
    s.Peek = b := by
  rw [Peek, h, List.headD_cons]

theorem rest_of_peek {s : Stream} {b : UInt8} (h : s.Peek = b) (hb : b ≠ 0) :
    ∃ rest, s.rest = b :: rest := by
  unfold Peek at h
  cases hs : s.rest with
  | nil =>
    rw [hs, List.headD_nil] at h
    exact absurd h.symm hb
  | cons c rest =>
    rw [hs, List.headD_cons] at h
    exact ⟨rest, by rw [h]⟩

theorem take_passes {s : Stream} {b : UInt8} {rest : Bytes} (h : s.rest = b :: rest) :
    s.Passes [b] s.Take := by
  unfold Take
  rw [h]
  exact ⟨h, rfl, rfl, rfl⟩

theorem take_rest {s : Stream} {b : UInt8} {rest : Bytes} (h : s.rest = b :: rest) :
    s.Take.rest = rest := (take_passes h).rest_eq h

theorem consume_of_rest {s : Stream} {b : UInt8} {rest : Bytes} (h : s.rest = b :: rest) :
    s.Consume b = some s.Take := if_pos (peek_of_rest h)

theorem consume_some {s s' : Stream} {b : UInt8} (h : s.Consume b = some s') (hb : b ≠ 0) :
    s.Passes [b] s' := by
  unfold Consume at h
  split at h
  case isTrue hpeek =>
    cases h
    obtain ⟨rest, hrest⟩ := rest_of_peek hpeek hb
    exact take_passes hrest
  case isFalse => cases h

theorem consume_none {s : Stream} {b : UInt8} (h : s.Peek ≠ b) : s.Consume b = none := if_neg h

end Stream

end RapidJson
