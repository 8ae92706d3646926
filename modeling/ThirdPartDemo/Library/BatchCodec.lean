import ThirdPartDemo.Library.Codec

/-!
# Library — codecs that work in one batch

The simplest codecs that meet the contracts: an encoder that collects its input
until `finish` and then hands out the encoded bytes, and a decoder that feeds a
byte-by-byte recognizer and hands out the data once a stream is complete. They
show that the contracts can be met, and they run.

* `Recognizer.format` — the format that a recognizer decides;
* `batchDecoder_decodes` — the decoder meets the contract of its format;
* `batchEncoder_encodes` — so does the encoder, for an encoding into streams.
-/

namespace Library

-- ---------------------------------------------------------------------------
-- Recognizers
-- ---------------------------------------------------------------------------

/-- A machine that reads byte by byte until it decides: `some data` for a
complete stream, `none` for corrupt input. -/
structure Recognizer where
  State : Type
  start : State
  step : State → UInt8 → State ⊕ Option Bytes

/-- Where a recognizer is after some bytes: still reading, or decided with some
bytes to spare. -/
inductive Scan (σ : Type) where
  | more (s : σ)
  | decided (verdict : Option Bytes) (rest : Bytes)

namespace Recognizer

variable {m : Recognizer}

def scan (m : Recognizer) : m.State → Bytes → Scan m.State
  | s, [] => .more s
  | s, b :: bytes =>
    match m.step s b with
    | .inl s' => m.scan s' bytes
    | .inr verdict => .decided verdict bytes

theorem scan_inl {s t : m.State} {b : UInt8} (h : m.step s b = .inl t) (bytes : Bytes) :
    m.scan s (b :: bytes) = m.scan t bytes := by
  rw [scan, h]

theorem scan_inr {s : m.State} {b : UInt8} {verdict : Option Bytes}
    (h : m.step s b = .inr verdict) (bytes : Bytes) :
    m.scan s (b :: bytes) = .decided verdict bytes := by
  rw [scan, h]

theorem scan_more_append {s t : m.State} {p : Bytes} (h : m.scan s p = .more t) (q : Bytes) :
    m.scan s (p ++ q) = m.scan t q := by
  induction p generalizing s with
  | nil =>
    cases h
    rfl
  | cons b p ih =>
    rw [List.cons_append]
    cases hb : m.step s b with
    | inl s' =>
      rw [scan_inl hb] at h ⊢
      exact ih h
    | inr verdict =>
      rw [scan_inr hb] at h
      cases h

theorem scan_decided_append {s : m.State} {p rest : Bytes} {verdict : Option Bytes}
    (h : m.scan s p = .decided verdict rest) (q : Bytes) :
    m.scan s (p ++ q) = .decided verdict (rest ++ q) := by
  induction p generalizing s with
  | nil => cases h
  | cons b p ih =>
    rw [List.cons_append]
    cases hb : m.step s b with
    | inl s' =>
      rw [scan_inl hb] at h ⊢
      exact ih h
    | inr verdict' =>
      rw [scan_inr hb] at h ⊢
      cases h
      rfl

/-- A decision is made at the end of what was read for it. -/
theorem scan_decided_split {s : m.State} {p rest : Bytes} {verdict : Option Bytes}
    (h : m.scan s p = .decided verdict rest) :
    ∃ q, p = q ++ rest ∧ m.scan s q = .decided verdict [] := by
  induction p generalizing s with
  | nil => cases h
  | cons b p ih =>
    cases hb : m.step s b with
    | inl s' =>
      rw [scan_inl hb] at h
      obtain ⟨q, rfl, hq⟩ := ih h
      exact ⟨b :: q, rfl, by rw [scan_inl hb, hq]⟩
    | inr verdict' =>
      rw [scan_inr hb] at h
      cases h
      exact ⟨[b], rfl, scan_inr hb []⟩

/-- Two decisions, one on the beginning of the other's input, are the same. -/
theorem scan_decided_unique {s : m.State} {p q : Bytes} {v w : Option Bytes}
    (hp : m.scan s p = .decided v []) (hq : m.scan s q = .decided w []) (h : p <+: q) :
    p = q ∧ v = w := by
  obtain ⟨t, rfl⟩ := h
  rw [scan_decided_append hp, List.nil_append] at hq
  cases hq
  exact ⟨(List.append_nil p).symm, rfl⟩

/-- The format that a recognizer decides. -/
def format (m : Recognizer) : Format where
  Stream y x := m.scan m.start y = .decided (some x) []
  Refused y := m.scan m.start y = .decided none []
  stream_unique hp hq h := by
    obtain ⟨hpq, hv⟩ := scan_decided_unique hp hq h
    exact ⟨hpq, Option.some.inj hv⟩
  not_refused hp hq := by
    constructor
    · intro h
      cases (scan_decided_unique hq hp h).2
    · intro h
      cases (scan_decided_unique hp hq h).2

/-- While the recognizer reads on, nothing is decided. -/
theorem not_decided_of_more {file : Bytes} {t : m.State} (h : m.scan m.start file = .more t) :
    ¬ m.format.Decided file := by
  rintro ⟨p, ⟨q, rfl⟩, ⟨x, hp⟩ | hp⟩
  · rw [scan_decided_append (show m.scan m.start p = _ from hp)] at h
    cases h
  · rw [scan_decided_append (show m.scan m.start p = _ from hp)] at h
    cases h

end Recognizer

-- ---------------------------------------------------------------------------
-- Handing out
-- ---------------------------------------------------------------------------

/-- The call that hands out up to `space` of the pending bytes, having used
`used` bytes of input; `onward` makes the next state of what is left. -/
def handOut {σ : Type} (onward : Bytes → σ) (used : Nat) (pending : Bytes) (space : Nat) :
    Reply σ where
  state := onward (pending.drop space)
  used
  out := pending.take space
  status := if pending.length ≤ space then .streamEnd else .ok

section handOut

variable {σ : Type} {onward : Bytes → σ} {used : Nat} {pending : Bytes} {space : Nat}

theorem handOut_out_le : (handOut onward used pending space).out.length ≤ space :=
  List.length_take_le ..

/-- Room is left only at the end. -/
theorem handOut_room (h : (handOut onward used pending space).out.length < space) :
    (handOut onward used pending space).status = .streamEnd := by
  rw [handOut, List.length_take] at h
  rw [handOut, if_pos (by omega)]

theorem handOut_status (onward : Bytes → σ) (used : Nat) (pending : Bytes) (space : Nat) :
    (handOut onward used pending space).status = .ok ∨
      (handOut onward used pending space).status = .streamEnd := by
  rw [handOut]
  dsimp only
  split_ifs
  · exact Or.inr rfl
  · exact Or.inl rfl

/-- At the end everything was handed out. -/
theorem handOut_end (h : (handOut onward used pending space).status = .streamEnd) :
    (handOut onward used pending space).out = pending ∧ pending.drop space = [] := by
  rw [handOut] at h ⊢
  dsimp only at h ⊢
  split_ifs at h with hle
  exact ⟨List.take_of_length_le hle, List.drop_eq_nil_of_le hle⟩

/-- Once the end was reported, in this call or before it, nothing is pending. -/
theorem handOut_ended {h : History} {flush : Flush} {input : Bytes}
    (hended : h.ended = true → pending = [])
    (hnext : (h.next flush input (handOut onward used pending space)).ended = true) :
    pending.drop space = [] := by
  rw [History.next] at hnext
  simp only [Bool.or_eq_true, beq_iff_eq] at hnext
  rcases hnext with hbefore | hnow
  · rw [hended hbefore, List.drop_nil]
  · exact (handOut_end hnow).2

/-- Before the end something was. -/
theorem handOut_ok (hspace : 0 < space)
    (h : (handOut onward used pending space).status = .ok) :
    (handOut onward used pending space).out ≠ [] := by
  rw [handOut] at h ⊢
  dsimp only at h ⊢
  split_ifs at h with hle
  rw [← List.length_pos_iff, List.length_take]
  omega

theorem handOut_nil : (handOut onward used [] space).out = [] ∧
    (handOut onward used [] space).status = .streamEnd := by
  simp [handOut]

end handOut

-- ---------------------------------------------------------------------------
-- The decoder
-- ---------------------------------------------------------------------------

inductive BatchDecoder (σ : Type) where
  | reading (s : σ)
  | draining (pending : Bytes)
  | refused

/-- The decoder that hands out the data of a stream once it is complete. -/
def batchDecoder (m : Recognizer) : Coder where
  State := BatchDecoder m.State
  init := .reading m.start
  call
    | .reading s, _, input, space =>
      match m.scan s input with
      | .more t =>
        { state := .reading t, used := input.length, out := []
          status := if input = [] then .bufError else .ok }
      | .decided (some data) rest =>
        handOut .draining (input.length - rest.length) data space
      | .decided none rest =>
        { state := .refused, used := input.length - rest.length, out := [], status := .dataError }
    | .draining pending, _, _, space => handOut .draining 0 pending space
    | .refused, _, _, _ => { state := .refused, used := 0, out := [], status := .dataError }

/-- What a state of the decoder knows about its history. -/
def BatchDecoder.Knows (m : Recognizer) (h : History) : BatchDecoder m.State → Prop
  | .reading s => m.scan m.start h.fed = .more s ∧ h.made = [] ∧ h.ended = false
  | .draining pending => m.format.Stream h.fed (h.made ++ pending) ∧ (h.ended = true → pending = [])
  | .refused => m.format.Refused h.fed ∧ h.made = [] ∧ h.ended = false

variable {m : Recognizer}

/-- The input of a call splits where the recognizer decided. -/
theorem take_of_split {q rest : Bytes} :
    (q ++ rest).take ((q ++ rest).length - rest.length) = q := by
  rw [List.length_append, Nat.add_sub_cancel, List.take_left]

/-- Handing out keeps what a draining state knows. -/
theorem knows_handOut {h : History} {input : Bytes} {flush : Flush} {used : Nat} {pending : Bytes}
    {space : Nat} (hstream : m.format.Stream (h.fed ++ input.take used) (h.made ++ pending))
    (hended : h.ended = true → pending = []) :
    BatchDecoder.Knows m (h.next flush input
        (handOut (BatchDecoder.draining (σ := m.State)) used pending space))
      (.draining (pending.drop space)) := by
  refine ⟨?_, handOut_ended hended⟩
  rw [History.next, handOut]
  dsimp only
  rw [List.append_assoc, List.take_append_drop]
  exact hstream

/-- One call keeps what the states know. -/
theorem batchDecoder_knows {s : BatchDecoder m.State} {h : History}
    (hs : BatchDecoder.Knows m h s) (flush : Flush) (input : Bytes) (space : Nat) :
    BatchDecoder.Knows m (h.next flush input ((batchDecoder m).call s flush input space))
      ((batchDecoder m).call s flush input space).state := by
  cases s with
  | reading s =>
    obtain ⟨hscan, hmade, hended⟩ := hs
    have hfed : ∀ q, m.scan m.start (h.fed ++ q) = m.scan s q :=
      Recognizer.scan_more_append hscan
    unfold batchDecoder
    dsimp only
    cases hin : m.scan s input with
    | more t =>
      refine ⟨?_, ?_, ?_⟩
      · simp only [History.next, List.take_length, hfed, hin]
      · simp [History.next, hmade]
      · simp only [History.next, hended, Bool.false_or]
        split_ifs <;> rfl
    | decided verdict rest =>
      obtain ⟨q, rfl, hq⟩ := Recognizer.scan_decided_split hin
      cases verdict with
      | none =>
        refine ⟨?_, ?_, ?_⟩
        · simp only [History.next, take_of_split]
          exact (hfed q).trans hq
        · simp [History.next, hmade]
        · simp [History.next, hended]
      | some data =>
        refine knows_handOut ?_ (by simp [hended])
        rw [take_of_split, hmade]
        exact (hfed q).trans hq
  | draining pending =>
    refine knows_handOut ?_ hs.2
    rw [List.take_zero, List.append_nil]
    exact hs.1
  | refused =>
    obtain ⟨hrefused, hmade, hended⟩ := hs
    refine ⟨?_, ?_, ?_⟩
    · simpa [History.next, batchDecoder] using hrefused
    · simp [History.next, batchDecoder, hmade]
    · simp [History.next, batchDecoder, hended]

theorem batchDecoder_after {s : (batchDecoder m).State} {h : History}
    (hs : (batchDecoder m).After Flush.Decoding s h) : BatchDecoder.Knows m h s := by
  induction hs with
  | init => exact ⟨rfl, rfl, rfl⟩
  | call _ _ _ ih => exact batchDecoder_knows ih ..

/-- What handing out guarantees as a call of a decoder. -/
theorem decoderCall_handOut {h : History} {input : Bytes} {space used : Nat} {pending : Bytes}
    (hspace : 0 < space) (hused : used ≤ input.length)
    (hstream : m.format.Stream (h.fed ++ input.take used) (h.made ++ pending))
    (hended : h.ended = true → used = 0 ∧ pending = []) :
    DecoderCall m.format h input space
      (handOut (σ := BatchDecoder m.State) .draining used pending space) where
  used_le := hused
  out_le := handOut_out_le
  status := by
    rcases handOut_status (σ := BatchDecoder m.State) .draining used pending space with hok | hend
    · exact Or.inl (Or.inl hok)
    · exact Or.inr (Or.inl hend)
  drains hgoes hroom := by
    rw [handOut_room hroom] at hgoes
    rcases hgoes with hgoes | hgoes <;> cases hgoes
  progress hok := Or.inr (handOut_ok hspace hok)
  stuck hbuf := by
    rcases handOut_status (σ := BatchDecoder m.State) .draining used pending space with hok | hend
    · rw [hok] at hbuf
      cases hbuf
    · rw [hend] at hbuf
      cases hbuf
  complete hend := by
    rw [(handOut_end hend).1]
    exact hstream
  refuses herror := by
    rcases handOut_status (σ := BatchDecoder m.State) .draining used pending space with hok | hend
    · rw [hok] at herror
      rcases herror with herror | herror <;> cases herror
    · rw [hend] at herror
      rcases herror with herror | herror <;> cases herror
  reports hroom _ hgoes := by
    rw [handOut_room hroom] at hgoes
    rcases hgoes with hgoes | hgoes <;> cases hgoes
  after_end h' := by
    obtain ⟨rfl, rfl⟩ := hended h'
    exact ⟨rfl, handOut_nil⟩

/-- A call that reads on has used all its input and made nothing. -/
theorem decoderCall_more {h : History} {input : Bytes} {space : Nat} {s t : m.State}
    (hscan : m.scan m.start h.fed = .more s) (hended : h.ended = false)
    (hin : m.scan s input = .more t) :
    DecoderCall m.format h input space
      { state := BatchDecoder.reading t, used := input.length, out := []
        status := if input = [] then .bufError else .ok } where
  used_le := le_refl _
  out_le := Nat.zero_le _
  status := by
    dsimp only
    split_ifs
    · exact Or.inl (Or.inr rfl)
    · exact Or.inl (Or.inl rfl)
  drains _ _ := rfl
  progress hok := by
    dsimp only at hok ⊢
    split_ifs at hok with hnil
    exact Or.inl (List.length_pos_iff.mpr hnil)
  stuck hbuf := by
    dsimp only at hbuf ⊢
    split_ifs at hbuf with hnil
    exact ⟨hnil, rfl⟩
  complete hend := by
    dsimp only at hend
    split_ifs at hend
  refuses herror := by
    dsimp only at herror
    split_ifs at herror <;> simp at herror
  reports _ hdecided := by
    refine absurd hdecided (Recognizer.not_decided_of_more (t := t) ?_)
    rw [Recognizer.scan_more_append hscan, hin]
  after_end h' := by
    rw [hended] at h'
    cases h'

/-- A call that finds corrupt input. -/
theorem decoderCall_refused {σ : Type} {h : History} {input : Bytes} {space used : Nat} {s : σ}
    (hused : used ≤ input.length) (hended : h.ended = false)
    (hrefused : m.format.Refused (h.fed ++ input.take used)) :
    DecoderCall m.format h input space
      { state := s, used, out := [], status := .dataError } where
  used_le := hused
  out_le := Nat.zero_le _
  status := Or.inr (Or.inr (Or.inr rfl))
  drains hgoes _ := by rcases hgoes with hgoes | hgoes <;> cases hgoes
  progress hok := by cases hok
  stuck hbuf := by cases hbuf
  complete hend := by cases hend
  refuses _ := hrefused
  reports _ _ hgoes := by rcases hgoes with hgoes | hgoes <;> cases hgoes
  after_end h' := by
    rw [hended] at h'
    cases h'

/-- **The batch decoder** meets the contract of the format that its recognizer
decides, if the data of a stream is never longer than the stream. -/
theorem batchDecoder_decodes
    (hshort : ∀ y x, m.format.Stream y x → x.length ≤ y.length) :
    Decodes m.format (batchDecoder m) where
  call := by
    intro s h flush input space hs _ hallows
    have hknows := batchDecoder_after hs
    cases s with
    | reading s =>
      obtain ⟨hscan, hmade, hended⟩ := hknows
      have hfed : ∀ q, m.scan m.start (h.fed ++ q) = m.scan s q :=
        Recognizer.scan_more_append hscan
      unfold batchDecoder
      dsimp only
      cases hin : m.scan s input with
      | more t => exact decoderCall_more hscan hended hin
      | decided verdict rest =>
        obtain ⟨q, rfl, hq⟩ := Recognizer.scan_decided_split hin
        have hused : (q ++ rest).length - rest.length ≤ (q ++ rest).length := Nat.sub_le ..
        have hdecided : m.scan m.start (h.fed ++ q) = .decided verdict [] := (hfed q).trans hq
        cases verdict with
        | none =>
          refine decoderCall_refused hused hended ?_
          rw [take_of_split]
          exact hdecided
        | some data =>
          refine decoderCall_handOut hallows.room hused ?_ (by simp [hended])
          rw [take_of_split, hmade]
          exact hdecided
    | draining pending =>
      refine decoderCall_handOut hallows.room (Nat.zero_le _) ?_ fun h' => ⟨rfl, hknows.2 h'⟩
      rw [List.take_zero, List.append_nil]
      exact hknows.1
    | refused =>
      refine decoderCall_refused (Nat.zero_le _) hknows.2.2 ?_
      rw [List.take_zero, List.append_nil]
      exact hknows.1
  bounded := by
    refine ⟨id, monotone_id, ?_⟩
    intro s h hs
    have hknows := batchDecoder_after hs
    cases s with
    | reading s => simp [hknows.2.1]
    | draining pending =>
      have hlen := hshort _ _ hknows.1
      rw [List.length_append] at hlen
      rw [id]
      omega
    | refused => simp [hknows.2.1]

-- ---------------------------------------------------------------------------
-- The encoder
-- ---------------------------------------------------------------------------

inductive BatchEncoder where
  | collecting (input : Bytes)
  | draining (pending : Bytes)

/-- The encoder that collects its input until `finish`. -/
def batchEncoder (encode : Bytes → Bytes) : Coder where
  State := BatchEncoder
  init := .collecting []
  call
    | .collecting fed, flush, input, space =>
      if flush = .finish then handOut .draining input.length (encode (fed ++ input)) space
      else
        { state := .collecting (fed ++ input), used := input.length, out := []
          status := if input = [] then .bufError else .ok }
    | .draining pending, _, input, space => handOut .draining input.length pending space

def BatchEncoder.Knows (encode : Bytes → Bytes) (h : History) : BatchEncoder → Prop
  | .collecting fed => h = { fed }
  | .draining pending => encode h.fed = h.made ++ pending ∧ h.rest = some [] ∧
      (h.ended = true → pending = [])

variable {encode : Bytes → Bytes}

theorem knows_finish {h : History} {input pending : Bytes} {space : Nat}
    (hmade : encode (h.fed ++ input) = h.made ++ pending)
    (hended : h.ended = true → pending = []) :
    BatchEncoder.Knows encode
      (h.next .finish input (handOut BatchEncoder.draining input.length pending space))
      (.draining (pending.drop space)) := by
  refine ⟨?_, ?_, handOut_ended hended⟩
  · simp only [History.next, handOut, List.take_length, List.append_assoc,
      List.take_append_drop, hmade]
  · simp [History.next, handOut]

theorem batchEncoder_after {s : (batchEncoder encode).State} {h : History}
    (hs : (batchEncoder encode).After Flush.Encoding s h) : BatchEncoder.Knows encode h s := by
  induction hs with
  | init => rfl
  | @call s h flush input space hs _ hallows ih =>
    cases s with
    | collecting fed =>
      obtain rfl : h = { fed } := ih
      unfold batchEncoder
      dsimp only
      by_cases hflush : flush = .finish
      · rw [if_pos hflush, hflush]
        exact knows_finish rfl (by simp)
      · rw [if_neg hflush]
        have hstatus : ((if input = [] then Status.bufError else .ok) == .streamEnd) = false := by
          split_ifs <;> rfl
        simp [BatchEncoder.Knows, History.next, hflush, hstatus]
    | draining pending =>
      obtain ⟨hmade, hrest, hended⟩ := ih
      obtain ⟨rfl, rfl⟩ := hallows.finishing _ hrest
      exact knows_finish (by rw [List.append_nil, hmade]) hended

/-- However the calls are split, the encoder makes the encoding. -/
theorem batchEncoder_makes {data y : Bytes} (h : (batchEncoder encode).Makes data y) :
    y = encode data := by
  obtain ⟨s, h, hs, hended, rfl, rfl⟩ := h
  have hknows := batchEncoder_after hs
  cases s with
  | collecting fed =>
    obtain rfl : h = { fed } := hknows
    cases hended
  | draining pending =>
    obtain ⟨hmade, -, hpending⟩ := hknows
    rw [hmade, hpending hended, List.append_nil]

/-- What handing out guarantees as a call of an encoder. -/
theorem encoderCall_handOut {F : Format} (hencode : ∀ x, F.Stream (encode x) x) {h : History}
    {input pending : Bytes} {space : Nat} (hspace : 0 < space)
    (hmade : encode (h.fed ++ input) = h.made ++ pending)
    (hended : h.ended = true → pending = []) :
    EncoderCall F h .finish input space
      (handOut BatchEncoder.draining input.length pending space) where
  used_le := le_refl _
  out_le := handOut_out_le
  drains _ := rfl
  status := by
    rcases handOut_status BatchEncoder.draining input.length pending space with hok | hend
    · exact Or.inl hok
    · exact Or.inr (Or.inl hend)
  progress _ := by
    rcases handOut_status BatchEncoder.draining input.length pending space with hok | hend
    · exact Or.inr (Or.inl (handOut_ok hspace hok))
    · exact Or.inr (Or.inr hend)
  ends _ hroom := handOut_room hroom
  complete hend := by
    rw [(handOut_end hend).1, ← hmade]
    exact ⟨rfl, rfl, hencode _⟩
  after_end h' := by
    rw [hended h']
    exact handOut_nil

/-- **The batch encoder** meets the contract of a format that its encoding is
into, if the length of the encoded bytes is bounded by the length of the data. -/
theorem batchEncoder_encodes {F : Format} (hencode : ∀ x, F.Stream (encode x) x)
    (bound : Nat → Nat) (hmono : Monotone bound)
    (hbound : ∀ x, (encode x).length ≤ bound x.length) :
    Encodes F (batchEncoder encode) where
  call := by
    intro s h flush input space hs _ hallows
    have hknows := batchEncoder_after hs
    cases s with
    | collecting fed =>
      obtain rfl : h = { fed } := hknows
      unfold batchEncoder
      dsimp only
      by_cases hflush : flush = .finish
      · rw [if_pos hflush, hflush]
        exact encoderCall_handOut hencode hallows.room rfl (by simp)
      · rw [if_neg hflush]
        refine ⟨le_refl _, Nat.zero_le _, fun _ => rfl, ?_, ?_, fun h' => absurd h' hflush, ?_,
          fun h' => by cases h'⟩
        · dsimp only
          split_ifs with hnil
          · exact Or.inr (Or.inr ⟨rfl, hnil, hflush⟩)
          · exact Or.inl rfl
        · rintro (hne | h')
          · exact Or.inl (List.length_pos_iff.mpr hne)
          · exact absurd h' hflush
        · intro hend
          dsimp only at hend
          split_ifs at hend
    | draining pending =>
      obtain ⟨hmade, hrest, hended⟩ := hknows
      obtain ⟨rfl, rfl⟩ := hallows.finishing _ hrest
      exact encoderCall_handOut hencode hallows.room (by rw [List.append_nil, hmade]) hended
  bounded := by
    refine ⟨bound, hmono, ?_⟩
    intro s h hs
    have hknows := batchEncoder_after hs
    cases s with
    | collecting fed =>
      obtain rfl : h = { fed } := hknows
      exact Nat.zero_le _
    | draining pending =>
      have hlen := hbound h.fed
      rw [hknows.1, List.length_append] at hlen
      omega

end Library
