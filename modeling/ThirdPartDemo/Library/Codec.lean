import Mathlib.Data.List.Chain
import Mathlib.Order.Monotone.Basic
import ThirdPartDemo.Library.FileSystem

/-!
# Library — streaming codecs and their contracts

A streaming codec is a machine that is called again and again with some input, a
flush mode and some room for output. How it splits its work over the calls is
its own business; `After` records what a state has behind it, and the contracts
`Encodes` and `Decodes` say what every single call guarantees about the bytes
fed and made so far. They are the documented behaviour of `deflate`, called with
`Z_NO_FLUSH` and `Z_FINISH`, and of `inflate`, called with `Z_NO_FLUSH` and
`Z_SYNC_FLUSH`, in zlib and in miniz alike. Of other modes they say nothing:
`deflate` with `Z_SYNC_FLUSH` makes output without any input.

What the bytes mean is given by a `Format`: which byte strings are complete
streams, of what data, and which are corrupt.
-/

namespace Library

-- ---------------------------------------------------------------------------
-- Calls
-- ---------------------------------------------------------------------------

/-- The return codes of zlib and miniz. -/
inductive Status where
  | ok
  | streamEnd
  | needDict
  | errno
  | streamError
  | dataError
  | memError
  | bufError
  | versionError
  | paramError
  deriving DecidableEq, Repr

inductive Flush where
  | noFlush
  | syncFlush
  | finish
  deriving DecidableEq, Repr

/-- The modes of an encoder's calls. -/
def Flush.Encoding (flush : Flush) : Prop := flush ≠ .syncFlush

/-- The modes of a decoder's calls. -/
def Flush.Decoding (flush : Flush) : Prop := flush ≠ .finish

/-- What one call does: it uses up the first `used` bytes of its input and
writes `out`. -/
structure Reply (σ : Type) where
  state : σ
  used : Nat
  out : Bytes
  status : Status

structure Coder where
  State : Type
  init : State
  call : State → Flush → Bytes → Nat → Reply State

/-- What a state has behind it. -/
structure History where
  fed : Bytes := []
  made : Bytes := []
  rest : Option Bytes := none     -- the input that the last call with `finish` left
  ended : Bool := false           -- some call returned `streamEnd`
  deriving DecidableEq

def History.next {σ : Type} (h : History) (flush : Flush) (input : Bytes) (r : Reply σ) :
    History where
  fed := h.fed ++ input.take r.used
  made := h.made ++ r.out
  rest := if flush = .finish then some (input.drop r.used) else h.rest
  ended := h.ended || r.status == .streamEnd

/-- A call that the manuals allow: there is room for output, and after a first
call with `finish` only the rest of the same input is offered, with `finish`. -/
structure History.Allows (h : History) (flush : Flush) (input : Bytes) (space : Nat) :
    Prop where
  room : 0 < space
  finishing : ∀ rest, h.rest = some rest → flush = .finish ∧ input = rest

/-- The states that allowed calls with these modes lead to. -/
inductive Coder.After (c : Coder) (modes : Flush → Prop) : c.State → History → Prop where
  | init : c.After modes c.init {}
  | call {s : c.State} {h : History} {flush : Flush} {input : Bytes} {space : Nat}
      (hs : c.After modes s h) (hmode : modes flush) (hallows : h.Allows flush input space) :
      c.After modes (c.call s flush input space).state
        (h.next flush input (c.call s flush input space))

-- ---------------------------------------------------------------------------
-- The protocol
-- ---------------------------------------------------------------------------

/-- A call and its reply, as a trace records them. -/
structure Call where
  flush : Flush
  input : Bytes
  space : Nat
  used : Nat
  out : Bytes
  status : Status
  deriving DecidableEq

namespace Call

/-- The call of a codec in the state `s`. -/
def of {c : Coder} (s : c.State) (flush : Flush) (input : Bytes) (space : Nat) : Call :=
  let r := c.call s flush input space
  { flush, input, space, used := r.used, out := r.out, status := r.status }

def consumed (call : Call) : Bytes := call.input.take call.used

def left (call : Call) : Bytes := call.input.drop call.used

/-- What the manuals ask of the call after this one: the input left over is
still offered, after `finish` nothing else is, and after the end of the stream
there is no further call. -/
structure Precedes (call next : Call) : Prop where
  keeps : call.left <+: next.input
  finishing : call.flush = .finish → next.flush = .finish ∧ next.input = call.left
  goesOn : call.status ≠ .streamEnd

end Call

/-- The history with one more call. -/
def History.record (h : History) (call : Call) : History where
  fed := h.fed ++ call.consumed
  made := h.made ++ call.out
  rest := if call.flush = .finish then some call.left else h.rest
  ended := h.ended || call.status == .streamEnd

/-- A sequence of calls as the manuals allow it. -/
structure ObeysProtocol (calls : List Call) : Prop where
  room : ∀ call ∈ calls, 0 < call.space
  chain : calls.IsChain Call.Precedes

/-- One more call that may follow the last one. -/
theorem ObeysProtocol.concat {calls : List Call} (h : ObeysProtocol calls) {call : Call}
    (hroom : 0 < call.space) (hlast : ∀ last ∈ calls.getLast?, last.Precedes call) :
    ObeysProtocol (calls ++ [call]) where
  room := by
    intro other hother
    rcases List.mem_append.mp hother with hbefore | hnew
    · exact h.room other hbefore
    · rw [List.mem_singleton.mp hnew]
      exact hroom
  chain := by
    refine List.isChain_append.mpr ⟨h.chain, .singleton call, ?_⟩
    intro last hmem next hnext
    rw [List.head?_cons, Option.mem_some_iff] at hnext
    rw [← hnext]
    exact hlast last hmem

-- ---------------------------------------------------------------------------
-- Formats
-- ---------------------------------------------------------------------------

/-- Which byte strings are complete streams, of what data, and which ones are
corrupt. A complete stream is not the beginning of another one, and nothing
corrupt begins or continues it. -/
structure Format where
  Stream : Bytes → Bytes → Prop
  Refused : Bytes → Prop
  stream_unique : ∀ {p q x y : Bytes}, Stream p x → Stream q y → p <+: q → p = q ∧ x = y
  not_refused : ∀ {p q x : Bytes}, Stream p x → Refused q → ¬ q <+: p ∧ ¬ p <+: q

/-- The file begins with a complete stream or is found to be corrupt. -/
def Format.Decided (F : Format) (file : Bytes) : Prop :=
  ∃ p, p <+: file ∧ ((∃ x, F.Stream p x) ∨ F.Refused p)

/-- The file could still become the beginning of a complete stream. -/
def Format.Truncated (F : Format) (file : Bytes) : Prop := ¬ F.Decided file

-- ---------------------------------------------------------------------------
-- Contracts
-- ---------------------------------------------------------------------------

/-- Some calls that the manuals allow feed all of `data` and end with the output `y`. -/
def Coder.Makes (c : Coder) (data y : Bytes) : Prop :=
  ∃ s h, c.After Flush.Encoding s h ∧ h.ended = true ∧ h.fed = data ∧ h.made = y

/-- How much is made by calls with these modes is bounded by how much was fed. -/
def Coder.Bounded (c : Coder) (modes : Flush → Prop) : Prop :=
  ∃ bound : Nat → Nat, Monotone bound ∧
    ∀ {s h}, c.After modes s h → h.made.length ≤ bound h.fed.length

/-- What a call of an encoder guarantees. -/
structure EncoderCall {σ : Type} (F : Format) (h : History) (flush : Flush) (input : Bytes)
    (space : Nat) (r : Reply σ) : Prop where
  used_le : r.used ≤ input.length
  out_le : r.out.length ≤ space
  drains : r.out.length < space → r.used = input.length
  status : r.status = .ok ∨ r.status = .streamEnd ∨
    r.status = .bufError ∧ input = [] ∧ flush ≠ .finish
  progress : input ≠ [] ∨ flush = .finish → 0 < r.used ∨ r.out ≠ [] ∨ r.status = .streamEnd
  ends : flush = .finish → r.out.length < space → r.status = .streamEnd
  complete : r.status = .streamEnd →
    flush = .finish ∧ r.used = input.length ∧ F.Stream (h.made ++ r.out) (h.fed ++ input)
  after_end : h.ended = true → r.out = [] ∧ r.status = .streamEnd

/-- `c` encodes into the format `F`, and its output is bounded by its input. -/
structure Encodes (F : Format) (c : Coder) : Prop where
  call : ∀ {s h flush input space}, c.After Flush.Encoding s h → flush.Encoding →
    h.Allows flush input space → EncoderCall F h flush input space (c.call s flush input space)
  bounded : c.Bounded Flush.Encoding

/-- The statuses after which a decoder can go on. -/
def Status.GoesOn (status : Status) : Prop := status = .ok ∨ status = .bufError

instance : DecidablePred Status.GoesOn := fun status => by
  unfold Status.GoesOn
  infer_instance

/-- What a call of a decoder guarantees. -/
structure DecoderCall {σ : Type} (F : Format) (h : History) (input : Bytes) (space : Nat)
    (r : Reply σ) : Prop where
  used_le : r.used ≤ input.length
  out_le : r.out.length ≤ space
  status : r.status.GoesOn ∨ r.status = .streamEnd ∨ r.status = .needDict ∨
    r.status = .dataError
  drains : r.status.GoesOn → r.out.length < space → r.used = input.length
  progress : r.status = .ok → 0 < r.used ∨ r.out ≠ []
  stuck : r.status = .bufError → input = [] ∧ r.out = []
  complete : r.status = .streamEnd → F.Stream (h.fed ++ input.take r.used) (h.made ++ r.out)
  refuses : r.status = .needDict ∨ r.status = .dataError →
    F.Refused (h.fed ++ input.take r.used)
  reports : r.out.length < space → F.Decided (h.fed ++ input) → ¬ r.status.GoesOn
  after_end : h.ended = true → r.used = 0 ∧ r.out = [] ∧ r.status = .streamEnd

/-- `c` decodes the format `F`, and its output is bounded by its input. -/
structure Decodes (F : Format) (c : Coder) : Prop where
  call : ∀ {s h flush input space}, c.After Flush.Decoding s h → flush.Decoding →
    h.Allows flush input space → DecoderCall F h input space (c.call s flush input space)
  bounded : c.Bounded Flush.Decoding

/-- What a call guarantees of a decoder that may leave input unused and room
empty as long as it makes some progress. -/
structure LazyDecoderCall {σ : Type} (F : Format) (h : History) (input : Bytes) (space : Nat)
    (r : Reply σ) : Prop where
  used_le : r.used ≤ input.length
  out_le : r.out.length ≤ space
  status : r.status.GoesOn ∨ r.status = .streamEnd ∨ r.status = .needDict ∨
    r.status = .dataError
  progress : r.status = .ok → 0 < r.used ∨ r.out ≠ []
  stuck : r.status = .bufError → input = [] ∧ F.Truncated h.fed
  complete : r.status = .streamEnd → F.Stream (h.fed ++ input.take r.used) (h.made ++ r.out)
  refuses : r.status = .needDict ∨ r.status = .dataError →
    F.Refused (h.fed ++ input.take r.used)

/-- The contract of such a decoder. Every decoder keeps it (`Decodes.lazily`). -/
structure DecodesLazily (F : Format) (c : Coder) : Prop where
  call : ∀ {s h flush input space}, c.After Flush.Decoding s h → flush.Decoding →
    h.Allows flush input space → LazyDecoderCall F h input space (c.call s flush input space)
  bounded : c.Bounded Flush.Decoding

-- ---------------------------------------------------------------------------
-- Piece by piece
-- ---------------------------------------------------------------------------

/-- What a codec makes of pieces of input: a piece is offered, with `space` bytes
of room for the output, until a call leaves room. -/
inductive Coder.Pumps (c : Coder) (space : Nat) :
    c.State → List (Flush × Bytes) → Bytes → Prop where
  | nil (s : c.State) : c.Pumps space s [] []
  | full {s : c.State} {flush : Flush} {input y : Bytes} {pieces : List (Flush × Bytes)}
      (hfull : (c.call s flush input space).out.length = space)
      (h : c.Pumps space (c.call s flush input space).state
        ((flush, input.drop (c.call s flush input space).used) :: pieces) y) :
      c.Pumps space s ((flush, input) :: pieces) ((c.call s flush input space).out ++ y)
  | room {s : c.State} {flush : Flush} {input y : Bytes} {pieces : List (Flush × Bytes)}
      (hroom : (c.call s flush input space).out.length ≠ space)
      (h : c.Pumps space (c.call s flush input space).state pieces y) :
      c.Pumps space s ((flush, input) :: pieces) ((c.call s flush input space).out ++ y)

/-- The data in pieces of `n` bytes; the last piece is shorter and goes with `finish`. -/
def pieces (n : Nat) (data : Bytes) : List (Flush × Bytes) :=
  if 0 < n ∧ n ≤ data.length then (.noFlush, data.take n) :: pieces n (data.drop n)
  else [(.finish, data)]
termination_by data.length

/-- `y` is the stream that the codec makes of `data`, with buffers of `n` bytes. -/
def Coder.StreamOf (c : Coder) (n : Nat) (data y : Bytes) : Prop :=
  c.Pumps n c.init (pieces n data) y

-- ---------------------------------------------------------------------------
-- Consequences
-- ---------------------------------------------------------------------------

variable {F : Format} {c : Coder} {modes : Flush → Prop}

/-- What a complete stream begins with is not corrupt, and if it is complete it
is the whole stream. -/
theorem Format.stream_eq (F : Format) {p y x z : Bytes} (hy : F.Stream y x)
    (hpre : p <+: y) (hp : F.Stream p z) : p = y ∧ z = x :=
  F.stream_unique hp hy hpre

/-- A file begins with one stream only. -/
theorem Format.stream_unique_of_le (F : Format) {all p q x z : Bytes} (hp : p <+: all)
    (hq : q <+: all) (hx : F.Stream p x) (hz : F.Stream q z) : p = q ∧ x = z := by
  rcases List.prefix_or_prefix_of_prefix hp hq with h | h
  · exact F.stream_unique hx hz h
  · obtain ⟨rfl, rfl⟩ := F.stream_unique hz hx h
    exact ⟨rfl, rfl⟩

/-- A file that begins with something corrupt does not begin with a stream. -/
theorem Format.not_stream_of_refused (F : Format) {all q : Bytes} (hq : q <+: all)
    (hrefused : F.Refused q) (p x : Bytes) (hp : p <+: all) : ¬ F.Stream p x := by
  intro hstream
  obtain ⟨hqp, hpq⟩ := F.not_refused hstream hrefused
  rcases List.prefix_or_prefix_of_prefix hp hq with h | h
  · exact hpq h
  · exact hqp h

/-- The bytes offered but not used stay in front of the rest of the file. -/
theorem fed_append {fed input rest all : Bytes} (h : fed ++ input ++ rest = all) (used : Nat) :
    fed ++ input.take used ++ input.drop used ++ rest = all := by
  rw [List.append_assoc fed, List.take_append_drop, h]

/-- What was fed after a call is the beginning of the file. -/
theorem fed_take_le {fed input rest all : Bytes} (h : fed ++ input ++ rest = all) (used : Nat) :
    fed ++ input.take used <+: all :=
  ⟨input.drop used ++ rest, by rw [← List.append_assoc, fed_append h used]⟩

/-- A call with something to do that does not end the stream makes progress. -/
theorem EncoderCall.onward {σ : Type} {h : History} {flush : Flush} {input : Bytes} {space : Nat}
    {r : Reply σ} (hcall : EncoderCall F h flush input space r)
    (hoffers : input ≠ [] ∨ flush = .finish) (hend : r.status ≠ .streamEnd) :
    r.status = .ok ∧ (0 < r.used ∨ r.out ≠ []) := by
  constructor
  · rcases hcall.status with hok | hstatus | ⟨-, hnil, hnofinish⟩
    · exact hok
    · exact absurd hstatus hend
    · rcases hoffers with hne | hfinish
      · exact absurd hnil hne
      · exact absurd hfinish hnofinish
  · rcases hcall.progress hoffers with hused | hout | hstatus
    · exact Or.inl hused
    · exact Or.inr hout
    · exact absurd hstatus hend

/-- A bound on the output for everything that can be fed from one file. -/
theorem Coder.Bounded.exists_bound (hc : c.Bounded modes) (all : Bytes) :
    ∃ B, ∀ s h, c.After modes s h → h.fed <+: all → h.made.length ≤ B := by
  obtain ⟨bound, hmono, hbound⟩ := hc
  exact ⟨bound all.length, fun s h hs hfed => (hbound hs).trans (hmono hfed.length_le)⟩

/-- What an encoder makes of some data is a stream of it. -/
theorem Encodes.stream (henc : Encodes F c) {data y : Bytes} (hy : c.Makes data y) :
    F.Stream y data := by
  obtain ⟨s, h, hs, hended, rfl, rfl⟩ := hy
  cases hs with
  | init => cases hended
  | @call s h flush input space hs hmode hallows =>
    have hcall := henc.call hs hmode hallows
    have hstatus : (c.call s flush input space).status = .streamEnd := by
      rcases Bool.or_eq_true_iff.mp hended with hbefore | hend
      · exact (hcall.after_end hbefore).2
      · exact eq_of_beq hend
    obtain ⟨-, hused, hstream⟩ := hcall.complete hstatus
    show F.Stream (h.made ++ _) (h.fed ++ input.take _)
    rw [hused, List.take_length]
    exact hstream

/-- A codec makes one output of the same pieces. -/
theorem Coder.Pumps.unique {space : Nat} {s : c.State} {pieces : List (Flush × Bytes)}
    {y z : Bytes} (hy : c.Pumps space s pieces y) (hz : c.Pumps space s pieces z) : y = z := by
  induction hy generalizing z with
  | nil s =>
    cases hz
    rfl
  | full hfull _ ih =>
    cases hz with
    | full _ h => rw [ih h]
    | room hroom => exact absurd hfull hroom
  | room hroom _ ih =>
    cases hz with
    | full hfull => exact absurd hfull hroom
    | room _ h => rw [ih h]

theorem pieces_full {n : Nat} {data : Bytes} (hn : 0 < n) (h : n ≤ data.length) :
    pieces n data = (.noFlush, data.take n) :: pieces n (data.drop n) := by
  rw [pieces, if_pos ⟨hn, h⟩]

theorem pieces_end {n : Nat} {data : Bytes} (h : data.length < n) :
    pieces n data = [(.finish, data)] := by
  rw [pieces, if_neg (by omega)]

theorem Decodes.lazily (hdec : Decodes F c) : DecodesLazily F c where
  call := by
    intro s h flush input space hs hmode hallows
    have hcall := hdec.call hs hmode hallows
    refine ⟨hcall.used_le, hcall.out_le, hcall.status, hcall.progress, ?_, hcall.complete,
      hcall.refuses⟩
    intro hstuck
    obtain ⟨hinput, hout⟩ := hcall.stuck hstuck
    refine ⟨hinput, ?_⟩
    intro hdecided
    -- with room left, what can be decided would have been decided
    have hroom : (c.call s flush input space).out.length < space := by
      rw [hout]
      exact hallows.room
    rw [← List.append_nil h.fed, ← hinput] at hdecided
    exact hcall.reports hroom hdecided (Or.inr hstuck)
  bounded := hdec.bounded

-- ---------------------------------------------------------------------------
-- Progress
-- ---------------------------------------------------------------------------

/-- What a run has before it: the rest of the file, and the output up to a bound. -/
def History.ahead (all : Bytes) (B : Nat) (h : History) : Nat :=
  (all.length - h.fed.length) + (B - h.made.length)

/-- A call that makes progress has less before it. -/
theorem History.ahead_lt {σ : Type} {all : Bytes} {B : Nat} {h : History} {flush : Flush}
    {input : Bytes} {r : Reply σ} (hused : r.used ≤ input.length)
    (hfed : (h.next flush input r).fed <+: all) (hB : (h.next flush input r).made.length ≤ B)
    (hprogress : 0 < r.used ∨ r.out ≠ []) :
    (h.next flush input r).ahead all B < h.ahead all B := by
  have hlen := hfed.length_le
  simp only [next, List.length_append, List.length_take, ahead] at hlen hB ⊢
  rcases hprogress with hpos | hout
  · omega
  · have := List.length_pos_iff.mpr hout
    omega

end Library
