import Mathlib.Data.List.DropRight
import ThirdPartDemo.Curl.Upload
import ThirdPartDemo.Library.Transition

/-!
# curlDemo — the header lines of the upload

libcurl hands every header line to `getContentLengthFunc`, which is to pick the size
of the remote file out of them. It asks `sscanf` for one number and stores what came
of it whenever the result is not 0. But the result is `EOF` for a line that ends
before a number could begin, and then the initial 0 of `len` is stored.

* `sscanf_hasNumber`, `sscanf_endsEarly`, `sscanf_other` — the three outcomes, and the
  lines that have them;
* `foldsHeaders_iff` — the value follows the last line with a number exactly when no
  line that ends early, and no number beyond `long`, comes when it would matter.
-/

namespace Curl

open Library

/-- The line is `Content-Length:`, optional white space and the number `n`, with
anything behind it. -/
def HasNumber (line : CString) (n : Int) : Prop :=
  ∃ blank number rest, line = contentLengthKey ++ (blank ++ (number ++ rest)) ∧
    (∀ c ∈ blank, isspace c = true) ∧ Numeral number n ∧ NumberEnds rest

/-- The line gives a number that a `long` holds. -/
def HasForm (LONG_MAX : Nat) (line : CString) (n : Int) : Prop :=
  HasNumber line n ∧ Representable LONG_MAX n

/-- The line ends before a number could begin: it is the beginning of the keyword, or
the keyword and white space. -/
def EndsEarly (line : CString) : Prop :=
  line <+: contentLengthKey ∨
    ∃ blank, line = contentLengthKey ++ blank ∧ ∀ c ∈ blank, isspace c = true

/-- One call of `getContentLengthFunc`. -/
structure HeaderCall where
  ptr : CString
  size : Nat
  nmemb : Nat

/-- `*stream` after one more call. -/
def HeaderCall.store (LONG_MAX : Nat) (call : HeaderCall) (stream : Int) : Int :=
  (getContentLengthFunc LONG_MAX call.ptr call.size call.nmemb stream).2

/-- `*stream` after the calls, one after the other. -/
def foldHeaders (LONG_MAX : Nat) (calls : List HeaderCall) (initial : Int) : Int :=
  calls.foldl (fun stream call => call.store LONG_MAX stream) initial

/-- The number in the last line of the form, `initial` if no line has it. -/
inductive LastNumber (LONG_MAX : Nat) (initial : Int) : List HeaderCall → Int → Prop where
  | none {calls : List HeaderCall} (h : ∀ call ∈ calls, ∀ n, ¬ HasForm LONG_MAX call.ptr n) :
      LastNumber LONG_MAX initial calls initial
  | last {pre post : List HeaderCall} {call : HeaderCall} {n : Int}
      (h : HasForm LONG_MAX call.ptr n)
      (hpost : ∀ later ∈ post, ∀ n, ¬ HasForm LONG_MAX later.ptr n) :
      LastNumber LONG_MAX initial (pre ++ call :: post) n

/-- A line that is not of the form leaves what the lines before it came to. -/
def LeftAlone (LONG_MAX : Nat) (initial : Int) (before : List HeaderCall) (call : HeaderCall) :
    Prop :=
  (∀ n, ¬ HasForm LONG_MAX call.ptr n) →
    foldHeaders LONG_MAX (before ++ [call]) initial = foldHeaders LONG_MAX before initial

/-- The header lines are folded as they should be: every call returns the size of its
line, lines that are not of the form change nothing, and the final value is the number
in the last line of the form. -/
structure FoldsHeaders (LONG_MAX : Nat) (initial : Int) (calls : List HeaderCall) : Prop where
  returns : ∀ call ∈ calls, ∀ stream,
    (getContentLengthFunc LONG_MAX call.ptr call.size call.nmemb stream).1 =
      call.size * call.nmemb
  unchanged : EachAfter (LeftAlone LONG_MAX initial) calls
  final : LastNumber LONG_MAX initial calls (foldHeaders LONG_MAX calls initial)

/-- The line does no harm: if it ends early, the last number before it is 0 anyway, and
if its number is beyond `long`, the last number before it is the nearest one anyway. -/
def Harmless (LONG_MAX : Nat) (initial : Int) (before : List HeaderCall) (call : HeaderCall) :
    Prop :=
  (EndsEarly call.ptr → LastNumber LONG_MAX initial before 0) ∧
    ∀ n, HasNumber call.ptr n → ¬ Representable LONG_MAX n →
      LastNumber LONG_MAX initial before (nearestLong LONG_MAX n)

variable {LONG_MAX : Nat} {line : CString} {n : Int} {initial : Int}
  {calls : List HeaderCall} {call : HeaderCall}

-- ---------------------------------------------------------------------------
-- The three outcomes of sscanf
-- ---------------------------------------------------------------------------

/-- After the keyword `sscanf` is at the number, if there is one. -/
theorem sscanf_after_key (rest : CString) :
    sscanf LONG_MAX contentLengthFormat (contentLengthKey ++ rest) [] =
      sscanf LONG_MAX [.long, .white] (rest.dropWhile isspace) [] := by
  rw [contentLengthFormat, sscanf_literal, sscanf]

variable (LONG_MAX) in
/-- A number is read, and cut to the nearest `long`. -/
theorem sscanf_hasNumber (h : HasNumber line n) :
    sscanf LONG_MAX contentLengthFormat line [] = some [nearestLong LONG_MAX n] := by
  obtain ⟨blank, number, rest, rfl, hblank, hnumber, hends⟩ := h
  obtain ⟨c, cs, hspace, htext⟩ := hnumber.dropWhile_isspace rest
  rw [sscanf_after_key, List.dropWhile_append_of_pos hblank, hspace, ← htext,
    sscanf_long_numeral hnumber _ hends]
  rfl

variable (LONG_MAX) in
/-- A line that ends early gives `EOF`. -/
theorem sscanf_endsEarly (h : EndsEarly line) :
    sscanf LONG_MAX contentLengthFormat line [] = none := by
  have hblank : ∀ blank : CString, (∀ c ∈ blank, isspace c = true) →
      sscanf LONG_MAX contentLengthFormat (contentLengthKey ++ blank) [] = none := by
    intro blank hspace
    have hdrop : (blank ++ []).dropWhile isspace = [] := List.dropWhile_append_of_pos hspace
    rw [List.append_nil] at hdrop
    rw [sscanf_after_key, hdrop]
    rfl
  rcases h with hfront | ⟨blank, rfl, hspace⟩
  · by_cases hkey : line = contentLengthKey
    · have hnone := hblank [] fun _ hc => absurd hc List.not_mem_nil
      rwa [List.append_nil, ← hkey] at hnone
    · exact sscanf_literal_short _ hfront hkey
  · exact hblank blank hspace

/-- Every other line gives no number and is no `EOF`. -/
theorem sscanf_other (hnumber : ∀ n, ¬ HasNumber line n) (hearly : ¬ EndsEarly line) :
    sscanf LONG_MAX contentLengthFormat line [] = some [] := by
  by_cases hkey : contentLengthKey <+: line
  · obtain ⟨rest, rfl⟩ := hkey
    have hspace : ∀ c ∈ rest.takeWhile isspace, isspace c = true :=
      List.all_eq_true.mp List.all_takeWhile
    have hsplit : rest = rest.takeWhile isspace ++ rest.dropWhile isspace :=
      List.takeWhile_append_dropWhile.symm
    rw [sscanf_after_key]
    rcases sscanf_long_cases [.white] (List.dropWhile_idempotent isspace rest) with
      hnil | ⟨number, n, after, hafter, hn, hends⟩ | hnone
    · rw [hnil, List.append_nil] at hsplit
      exact absurd (Or.inr ⟨_, by rw [← hsplit], hspace⟩) hearly
    · refine absurd ⟨_, number, after, ?_, hspace, hn, hends⟩ (hnumber n)
      rw [← hafter, ← hsplit]
    · exact hnone
  · exact sscanf_literal_mismatch _ (fun h => hearly (Or.inl h)) hkey []

theorem not_hasNumber_of_endsEarly (h : EndsEarly line) : ¬ HasNumber line n := by
  intro hn
  have hnone := sscanf_endsEarly 0 h
  rw [sscanf_hasNumber 0 hn] at hnone
  cases hnone

/-- A line has one number at most. -/
theorem HasNumber.unique {m : Int} (hn : HasNumber line n) (hm : HasNumber line m) : n = m := by
  -- a `long` that holds both
  have hsome := sscanf_hasNumber (n.natAbs + m.natAbs) hn
  rw [sscanf_hasNumber _ hm] at hsome
  injection hsome with hlist
  injection hlist with hnearest
  rwa [nearestLong_of_representable ⟨by omega, by omega⟩,
    nearestLong_of_representable ⟨by omega, by omega⟩, eq_comm] at hnearest

-- ---------------------------------------------------------------------------
-- One call
-- ---------------------------------------------------------------------------

theorem store_hasNumber (h : HasNumber call.ptr n) (stream : Int) :
    call.store LONG_MAX stream = nearestLong LONG_MAX n := by
  rw [HeaderCall.store, getContentLengthFunc, sscanf_hasNumber LONG_MAX h]
  rfl

theorem store_endsEarly (h : EndsEarly call.ptr) (stream : Int) :
    call.store LONG_MAX stream = 0 := by
  rw [HeaderCall.store, getContentLengthFunc, sscanf_endsEarly LONG_MAX h]
  rfl

theorem store_other (hnumber : ∀ n, ¬ HasNumber call.ptr n) (hearly : ¬ EndsEarly call.ptr)
    (stream : Int) : call.store LONG_MAX stream = stream := by
  rw [HeaderCall.store, getContentLengthFunc, sscanf_other hnumber hearly]
  rfl

/-- The size line that libcurl makes gives the size. -/
theorem contentLengthLine_hasNumber (size : Nat) : HasNumber (contentLengthLine size) size := by
  refine ⟨[' '], Nat.toDigits 10 size, ['\r', '\n'], rfl, ?_, numeral_toDigits size, ?_⟩
  · intro c hc
    rw [List.mem_singleton.mp hc]
    rfl
  · rintro c ⟨⟩
    rfl

/-- The size line sets `*stream` to the size, as far as a `long` holds it. -/
theorem getContentLengthFunc_line (size n nmemb : Nat) (stream : Int) :
    (getContentLengthFunc LONG_MAX (contentLengthLine size) n nmemb stream).2 =
      (min size LONG_MAX : Nat) := by
  have hstore : HeaderCall.store LONG_MAX ⟨contentLengthLine size, n, nmemb⟩ stream =
      nearestLong LONG_MAX size := store_hasNumber (contentLengthLine_hasNumber size) stream
  rwa [← toLong_false] at hstore

-- ---------------------------------------------------------------------------
-- All calls
-- ---------------------------------------------------------------------------

theorem foldHeaders_concat (calls : List HeaderCall) (call : HeaderCall) (initial : Int) :
    foldHeaders LONG_MAX (calls ++ [call]) initial =
      call.store LONG_MAX (foldHeaders LONG_MAX calls initial) := by
  rw [foldHeaders, List.foldl_append]
  rfl

theorem HasForm.unique {m : Int} (hn : HasForm LONG_MAX line n) (hm : HasForm LONG_MAX line m) :
    n = m :=
  hn.1.unique hm.1

/-- What the last number is with one more line: the number of that line, or what it
was if the line is not of the form. -/
theorem LastNumber.concat_cases {v : Int}
    (h : LastNumber LONG_MAX initial (calls ++ [call]) v) :
    HasForm LONG_MAX call.ptr v ∨
      (∀ n, ¬ HasForm LONG_MAX call.ptr n) ∧ LastNumber LONG_MAX initial calls v := by
  generalize hall : calls ++ [call] = all at h
  cases h with
  | none h =>
    subst hall
    refine Or.inr ⟨h call (by simp), .none fun before hbefore => ?_⟩
    exact h before (List.mem_append_left _ hbefore)
  | last h hpost =>
    rcases append_cons_eq_concat hall.symm with ⟨-, rfl, -⟩ | ⟨post, rfl, rfl⟩
    · exact Or.inl h
    · refine Or.inr ⟨hpost call (by simp), .last h fun before hbefore => ?_⟩
      exact hpost before (List.mem_append_left _ hbefore)

theorem LastNumber.concat_form (h : HasForm LONG_MAX call.ptr n) :
    LastNumber LONG_MAX initial (calls ++ [call]) n :=
  .last h fun _ hlater => absurd hlater List.not_mem_nil

theorem LastNumber.concat_other {v : Int} (h : LastNumber LONG_MAX initial calls v)
    (hcall : ∀ n, ¬ HasForm LONG_MAX call.ptr n) :
    LastNumber LONG_MAX initial (calls ++ [call]) v := by
  cases h with
  | none h =>
    refine .none fun later hlater => ?_
    rcases List.mem_append.mp hlater with hbefore | hlast
    · exact h later hbefore
    · rw [List.mem_singleton.mp hlast]
      exact hcall
  | last h hpost =>
    rw [List.append_assoc, List.cons_append]
    refine .last h fun later hlater => ?_
    rcases List.mem_append.mp hlater with hbefore | hlast
    · exact hpost later hbefore
    · rw [List.mem_singleton.mp hlast]
      exact hcall

theorem LastNumber.unique {v w : Int} (hv : LastNumber LONG_MAX initial calls v)
    (hw : LastNumber LONG_MAX initial calls w) : v = w := by
  induction calls using List.reverseRecOn generalizing v w with
  | nil =>
    have hnil : ∀ {u : Int}, LastNumber LONG_MAX initial [] u → u = initial := by
      intro u hu
      generalize hall : ([] : List HeaderCall) = all at hu
      cases hu with
      | none => rfl
      | last => simp at hall
    rw [hnil hv, hnil hw]
  | append_singleton calls call ih =>
    rcases hv.concat_cases with hformv | ⟨hno, hv⟩
    · rcases hw.concat_cases with hformw | ⟨hno, -⟩
      · exact hformv.unique hformw
      · exact absurd hformv (hno v)
    · rcases hw.concat_cases with hformw | ⟨-, hw⟩
      · exact absurd hformw (hno w)
      · exact ih hv hw

/-- If the lines that are not of the form were left alone, the value is the last
number. -/
theorem lastNumber_foldHeaders (h : EachAfter (LeftAlone LONG_MAX initial) calls) :
    LastNumber LONG_MAX initial calls (foldHeaders LONG_MAX calls initial) := by
  induction calls using List.reverseRecOn with
  | nil => exact .none fun _ hcall => absurd hcall List.not_mem_nil
  | append_singleton calls call ih =>
    obtain ⟨hbefore, hcall⟩ := (eachAfter_concat calls call).mp h
    by_cases hform : ∃ n, HasForm LONG_MAX call.ptr n
    · obtain ⟨n, hn⟩ := hform
      rw [foldHeaders_concat, store_hasNumber hn.1, nearestLong_of_representable hn.2]
      exact .concat_form hn
    · have hno : ∀ n, ¬ HasForm LONG_MAX call.ptr n := fun n hn => hform ⟨n, hn⟩
      rw [hcall hno]
      exact (ih hbefore).concat_other hno

/-- After a value that is the last number, a line is left alone exactly when it is
harmless. -/
theorem leftAlone_iff_harmless
    (hlast : LastNumber LONG_MAX initial calls (foldHeaders LONG_MAX calls initial)) :
    LeftAlone LONG_MAX initial calls call ↔ Harmless LONG_MAX initial calls call := by
  have hvalue : ∀ v, LastNumber LONG_MAX initial calls v ↔
      v = foldHeaders LONG_MAX calls initial := by
    intro v
    constructor
    · intro hv
      exact hv.unique hlast
    · rintro rfl
      exact hlast
  unfold LeftAlone Harmless
  simp only [hvalue, foldHeaders_concat]
  constructor
  · intro hleft
    refine ⟨fun hearly => ?_, fun n hn hbeyond => ?_⟩
    · have hstore := hleft fun n hform => not_hasNumber_of_endsEarly hearly hform.1
      rwa [store_endsEarly hearly] at hstore
    · have hstore := hleft fun m hform => hbeyond (hn.unique hform.1 ▸ hform.2)
      rwa [store_hasNumber hn] at hstore
  · rintro ⟨hearly, hbeyond⟩ hno
    by_cases hnumber : ∃ n, HasNumber call.ptr n
    · obtain ⟨n, hn⟩ := hnumber
      rw [store_hasNumber hn]
      exact hbeyond n hn fun hrep => hno n ⟨hn, hrep⟩
    · by_cases hend : EndsEarly call.ptr
      · rw [store_endsEarly hend]
        exact hearly hend
      · exact store_other (fun n hn => hnumber ⟨n, hn⟩) hend _

/-- **When the header lines are folded as they should be.** For every sequence of
header lines and every initial value: exactly when no line that ends early and no
number beyond `long` comes after a last number other than the one it makes the
callback store. -/
theorem foldsHeaders_iff (initial : Int) (calls : List HeaderCall) :
    FoldsHeaders LONG_MAX initial calls ↔ EachAfter (Harmless LONG_MAX initial) calls := by
  have hiff : EachAfter (LeftAlone LONG_MAX initial) calls ↔
      EachAfter (Harmless LONG_MAX initial) calls := by
    induction calls using List.reverseRecOn with
    | nil => exact ⟨fun _ => eachAfter_nil, fun _ => eachAfter_nil⟩
    | append_singleton calls call ih =>
      rw [eachAfter_concat, eachAfter_concat, ← ih]
      refine and_congr_right fun hbefore => ?_
      exact leftAlone_iff_harmless (lastNumber_foldHeaders hbefore)
  constructor
  · intro hfolds
    exact hiff.mp hfolds.unchanged
  · intro hharmless
    have hleft := hiff.mpr hharmless
    exact ⟨fun _ _ _ => rfl, hleft, lastNumber_foldHeaders hleft⟩

/-- A size line without a number: the size known before it is lost. -/
theorem foldHeaders_loses_size :
    ¬ FoldsHeaders 9223372036854775807 5
      [{ ptr := "Content-Length: \r\n".toList, size := 1, nmemb := 18 }] := by
  intro hfolds
  have hearly : EndsEarly "Content-Length: \r\n".toList :=
    Or.inr ⟨[' ', '\r', '\n'], rfl, List.all_eq_true.mp rfl⟩
  have hleft := hfolds.unchanged [] _ [] rfl fun n hform =>
    not_hasNumber_of_endsEarly hearly hform.1
  rw [foldHeaders_concat, store_endsEarly hearly] at hleft
  cases hleft

end Curl
