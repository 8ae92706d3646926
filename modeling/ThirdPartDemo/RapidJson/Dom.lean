import ThirdPartDemo.RapidJson.Document

/-!
# RapidJSON — documents hold what they are told

A number keeps its value in the 64 bits of a `GenericValue`, and `Accept` reports it by
the first of `Int`, `Uint`, `Int64` and `Uint64` that holds it, whichever it came by. The
rest of a value comes back as it went in.

* `Number.toJson_ofJson` — numbers;
* `GenericValue.accept_eq` — `Accept` calls its handler with the events of the value;
* `GenericDocument.handle_events` — the events of a value put it on the stack.
-/

namespace RapidJson

open Library

-- ---------------------------------------------------------------------------
-- Numbers
-- ---------------------------------------------------------------------------

/-- The number is in the range of its type. -/
def Fits : JsonNumber → Prop
  | .int i => -0x80000000 ≤ i ∧ i ≤ 0x7FFFFFFF
  | .uint u => u ≤ 0xFFFFFFFF
  | .int64 i64 => -0x8000000000000000 ≤ i64 ∧ i64 ≤ 0x7FFFFFFFFFFFFFFF
  | .uint64 u64 => u64 ≤ 0xFFFFFFFFFFFFFFFF
  | .double _ => True

/-- An integer in the first of the types that holds it. -/
def narrowest (i : Int) : JsonNumber :=
  if -0x80000000 ≤ i ∧ i ≤ 0x7FFFFFFF then .int i
  else if 0 ≤ i ∧ i ≤ 0xFFFFFFFF then .uint i.toNat
  else if -0x8000000000000000 ≤ i ∧ i ≤ 0x7FFFFFFFFFFFFFFF then .int64 i
  else .uint64 i.toNat

/-- The integer that a number is, if it is none of the doubles. -/
def integerOf : JsonNumber → Option Int
  | .int i | .int64 i => some i
  | .uint n | .uint64 n => some n
  | .double _ => none

/-- A number in the first of the types that holds it. -/
def narrow (n : JsonNumber) : JsonNumber :=
  match integerOf n with
  | some i => narrowest i
  | none => n

/-- A mask of the bits from `k` on finds the numbers that need them. -/
theorem and_mask_eq_zero {w k : Nat} {mask : BitVec w}
    (hmask : ∀ i < w, mask.getLsbD i = decide (k ≤ i)) (x : BitVec w) :
    (x &&& mask == 0#w) = decide (x.toNat < 1 <<< k) := by
  rw [Nat.shiftLeft_eq, Nat.one_mul, beq_eq_decide]
  refine decide_eq_decide.mpr ⟨fun h => ?_, fun hlt => ?_⟩
  · by_contra hge
    obtain ⟨i, hi, hbit⟩ := Nat.exists_ge_and_testBit_of_ge_two_pow (Nat.le_of_not_lt hge)
    have hlt : i < w := BitVec.lt_of_getLsbD hbit
    have hand : (x &&& mask).getLsbD i = true := by
      rw [BitVec.getLsbD_and, hmask i hlt]
      exact Bool.and_eq_true_iff.mpr ⟨hbit, decide_eq_true hi⟩
    rw [h, BitVec.getLsbD_zero] at hand
    cases hand
  · refine BitVec.eq_of_getLsbD_eq fun i hi => ?_
    rw [BitVec.getLsbD_and, hmask i hi, BitVec.getLsbD_zero]
    by_cases hk : k ≤ i
    · have hbit : x.getLsbD i = false :=
        Nat.testBit_lt_two_pow (Nat.lt_of_lt_of_le hlt (Nat.pow_le_pow_right (by decide) hk))
      rw [hbit, Bool.false_and]
    · rw [decide_eq_false hk, Bool.and_false]

namespace Number

theorem high32_eq_zero (x : BitVec 64) :
    (x &&& 0xFFFFFFFF00000000#64 == 0) = decide (x.toNat ≤ 0xFFFFFFFF) :=
  (and_mask_eq_zero (k := 32) (by decide) x).trans (decide_eq_decide.mpr Nat.lt_succ_iff)

theorem high33_eq_zero (x : BitVec 64) :
    (x &&& 0xFFFFFFFF80000000#64 == 0) = decide (x.toNat ≤ 0x7FFFFFFF) :=
  (and_mask_eq_zero (k := 31) (by decide) x).trans (decide_eq_decide.mpr Nat.lt_succ_iff)

theorem high1_eq_zero (x : BitVec 64) :
    (x &&& 0x8000000000000000#64 == 0) = decide (x.toNat ≤ 0x7FFFFFFFFFFFFFFF) :=
  (and_mask_eq_zero (k := 63) (by decide) x).trans (decide_eq_decide.mpr Nat.lt_succ_iff)

theorem top_eq_zero (x : BitVec 32) :
    (x &&& 0x80000000#32 == 0) = decide (x.toNat ≤ 0x7FFFFFFF) :=
  (and_mask_eq_zero (k := 31) (by decide) x).trans (decide_eq_decide.mpr Nat.lt_succ_iff)

/-- What is read back of 64 bits, by the accessors of the four types. -/
theorem int_ofInt {i : Int} (h : -0x80000000 ≤ i ∧ i ≤ 0x7FFFFFFF) :
    ((BitVec.ofInt 64 i).truncate 32).toInt = i := by
  simp only [BitVec.truncate_eq_setWidth, BitVec.toInt_setWidth, BitVec.toNat_ofInt]
  rw [Int.bmod_def]
  split <;> omega

theorem uint_ofInt {i : Int} (h : 0 ≤ i ∧ i ≤ 0xFFFFFFFF) :
    ((BitVec.ofInt 64 i).truncate 32).toNat = i.toNat := by
  simp only [BitVec.truncate_eq_setWidth, BitVec.toNat_setWidth, BitVec.toNat_ofInt]
  omega

theorem int64_ofInt {i : Int} (h : -0x8000000000000000 ≤ i ∧ i ≤ 0x7FFFFFFFFFFFFFFF) :
    (BitVec.ofInt 64 i).toInt = i := by
  rw [BitVec.toInt_ofInt, Int.bmod_def]
  split <;> omega

theorem uint64_ofInt {i : Int} (h : 0 ≤ i ∧ i ≤ 0xFFFFFFFFFFFFFFFF) :
    (BitVec.ofInt 64 i).toNat = i.toNat := by
  rw [BitVec.toNat_ofInt]
  omega

/-- The number of an integer: the flags are those of the types that hold it. -/
def ofInteger (i : Int) : Number where
  data := BitVec.ofInt 64 i
  kIntFlag := decide (-0x80000000 ≤ i ∧ i ≤ 0x7FFFFFFF)
  kUintFlag := decide (0 ≤ i ∧ i ≤ 0xFFFFFFFF)
  kInt64Flag := decide (-0x8000000000000000 ≤ i ∧ i ≤ 0x7FFFFFFFFFFFFFFF)
  kUint64Flag := decide (0 ≤ i)

/-- `Accept` takes the first of the types that holds the integer. -/
theorem toJson_ofInteger {i : Int} (hi : -0x8000000000000000 ≤ i ∧ i ≤ 0xFFFFFFFFFFFFFFFF) :
    (ofInteger i).toJson = narrowest i := by
  rw [toJson, narrowest, ofInteger]
  dsimp only
  rw [if_neg Bool.false_ne_true]
  by_cases hint : -0x80000000 ≤ i ∧ i ≤ 0x7FFFFFFF
  · rw [if_pos (decide_eq_true hint), if_pos hint, int_ofInt hint]
  rw [if_neg (by simpa using hint), if_neg hint]
  by_cases huint : 0 ≤ i ∧ i ≤ 0xFFFFFFFF
  · rw [if_pos (decide_eq_true huint), if_pos huint, uint_ofInt huint]
  rw [if_neg (by simpa using huint), if_neg huint]
  by_cases hint64 : -0x8000000000000000 ≤ i ∧ i ≤ 0x7FFFFFFFFFFFFFFF
  · rw [if_pos (decide_eq_true hint64), if_pos hint64, int64_ofInt hint64]
  · rw [if_neg (by simpa using hint64), if_neg hint64, uint64_ofInt (by omega)]

theorem ofInt_eq {i : Int} (h : -0x80000000 ≤ i ∧ i ≤ 0x7FFFFFFF) : ofInt i = ofInteger i := by
  rw [ofInt, ofInteger]
  congr 1
  · exact (decide_eq_true h).symm
  · exact decide_eq_decide.mpr (by omega)
  · exact (decide_eq_true (by omega)).symm

theorem ofUint_eq {u : Nat} (h : u ≤ 0xFFFFFFFF) : ofUint u = ofInteger u := by
  have hint : (BitVec.ofNat 32 u &&& 0x80000000#32 == 0) =
      decide (-0x80000000 ≤ (u : Int) ∧ (u : Int) ≤ 0x7FFFFFFF) := by
    refine (top_eq_zero _).trans (decide_eq_decide.mpr ?_)
    rw [BitVec.toNat_ofNat]
    omega
  rw [ofUint, ofInteger, hint]
  congr 1
  · exact (decide_eq_true (by omega)).symm
  · exact (decide_eq_true (by omega)).symm

theorem ofUint64_eq {u64 : Nat} (h : u64 ≤ 0xFFFFFFFFFFFFFFFF) :
    ofUint64 u64 = ofInteger u64 := by
  rw [ofUint64, ofInteger]
  rw [high1_eq_zero, high32_eq_zero, high33_eq_zero, BitVec.toNat_ofNat]
  congr 1
  · exact decide_eq_decide.mpr (by omega)
  · exact decide_eq_decide.mpr (by omega)
  · exact decide_eq_decide.mpr (by omega)

theorem ofInt64_eq {i64 : Int}
    (h : -0x8000000000000000 ≤ i64 ∧ i64 ≤ 0x7FFFFFFFFFFFFFFF) :
    ofInt64 i64 = ofInteger i64 := by
  rw [ofInt64, ofInteger]
  by_cases hpos : 0 ≤ i64
  · have hdata := uint64_ofInt (i := i64) ⟨hpos, by omega⟩
    rw [if_pos hpos, high32_eq_zero, high33_eq_zero, hdata]
    congr 1
    · exact decide_eq_decide.mpr (by omega)
    · exact decide_eq_decide.mpr (by omega)
    · exact (decide_eq_true h).symm
    · exact (decide_eq_true hpos).symm
  · rw [if_neg hpos]
    congr 1
    · exact decide_eq_decide.mpr (by omega)
    · exact (decide_eq_false (by omega)).symm
    · exact (decide_eq_true h).symm
    · exact (decide_eq_false hpos).symm

/-- Whichever of the types an integer comes by, it is the same number. -/
theorem ofJson_integer {n : JsonNumber} (hn : Fits n) {i : Int} (hi : integerOf n = some i) :
    ofJson n = ofInteger i := by
  cases n with
  | int j =>
    cases hi
    exact ofInt_eq hn
  | uint u =>
    cases hi
    exact ofUint_eq hn
  | int64 j =>
    cases hi
    exact ofInt64_eq hn
  | uint64 u =>
    cases hi
    exact ofUint64_eq hn
  | double bits => cases hi

/-- The integers of the types are in the range of the widest ones. -/
theorem integerOf_range {n : JsonNumber} (hn : Fits n) {i : Int} (hi : integerOf n = some i) :
    -0x8000000000000000 ≤ i ∧ i ≤ 0xFFFFFFFFFFFFFFFF := by
  cases n
  all_goals cases hi
  all_goals unfold Fits at hn
  all_goals omega

/-- **A number** is reported by the first of the types that holds it. -/
theorem toJson_ofJson {n : JsonNumber} (hn : Fits n) : (ofJson n).toJson = narrow n := by
  cases hi : integerOf n with
  | none =>
    cases n
    case double => rfl
    all_goals cases hi
  | some i =>
    rw [ofJson_integer hn hi, toJson_ofInteger (integerOf_range hn hi), narrow, hi]

end Number

-- ---------------------------------------------------------------------------
-- Values
-- ---------------------------------------------------------------------------

namespace GenericValue

mutual

/-- The document that a value holds, its numbers by the type that `Accept` calls. -/
def toJson : GenericValue → Json
  | .null => .null
  | .bool b => .bool b
  | .number n => .number n.toJson
  | .string s => .string s
  | .array elements => .array (toElements elements)
  | .object members => .object (toMembers members)

def toElements : List GenericValue → List Json
  | [] => []
  | v :: elements => v.toJson :: toElements elements

def toMembers : List (Bytes × GenericValue) → List (Bytes × Json)
  | [] => []
  | (name, v) :: members => (name, v.toJson) :: toMembers members

end

mutual

/-- The value of a document. -/
def ofJson : Json → GenericValue
  | .null => .null
  | .bool b => .bool b
  | .number n => .number (.ofJson n)
  | .string s => .string s
  | .array vs => .array (ofElements vs)
  | .object ms => .object (ofMembers ms)

def ofElements : List Json → List GenericValue
  | [] => []
  | v :: vs => ofJson v :: ofElements vs

def ofMembers : List (Bytes × Json) → List (Bytes × GenericValue)
  | [] => []
  | (name, v) :: ms => (name, ofJson v) :: ofMembers ms

end

theorem length_toElements (elements : List GenericValue) :
    (toElements elements).length = elements.length := by
  induction elements with
  | nil => rfl
  | cons v elements ih => rw [toElements, List.length_cons, List.length_cons, ih]

theorem length_toMembers (members : List (Bytes × GenericValue)) :
    (toMembers members).length = members.length := by
  induction members with
  | nil => rfl
  | cons m members ih => rw [toMembers, List.length_cons, List.length_cons, ih]

theorem length_ofElements (vs : List Json) : (ofElements vs).length = vs.length := by
  induction vs with
  | nil => rfl
  | cons v vs ih => rw [ofElements, List.length_cons, List.length_cons, ih]

variable {σ : Type} (handler : σ → SaxEvent → Bool × σ)

mutual

/-- **`Accept`** calls its handler with the events of the value, up to the first that
it refuses. -/
theorem accept_eq (v : GenericValue) (s : σ) :
    v.Accept handler s = fire handler s v.toJson.events := by
  match v with
  | .null => exact (fire_singleton handler s _).symm
  | .bool b => exact (fire_singleton handler s _).symm
  | .number n => exact (fire_singleton handler s _).symm
  | .string str => exact (fire_singleton handler s _).symm
  | .array elements =>
    rw [Accept, toJson, Json.events, fire]
    rcases handler s .startArray with ⟨_ | _, s₁⟩
    · rfl
    · dsimp only
      rw [acceptElements_eq elements, fire_append_eq, length_toElements]
      rcases fire handler s₁ (elementEvents (toElements elements)) with ⟨_ | _, s₂⟩
      · rfl
      · exact (fire_singleton handler s₂ _).symm
  | .object members =>
    rw [Accept, toJson, Json.events, fire]
    rcases handler s .startObject with ⟨_ | _, s₁⟩
    · rfl
    · dsimp only
      rw [acceptMembers_eq members, fire_append_eq, length_toMembers]
      rcases fire handler s₁ (memberEvents (toMembers members)) with ⟨_ | _, s₂⟩
      · rfl
      · exact (fire_singleton handler s₂ _).symm

theorem acceptElements_eq (elements : List GenericValue) (s : σ) :
    acceptElements handler elements s =
      fire handler s (elementEvents (toElements elements)) := by
  match elements with
  | [] => rfl
  | v :: elements =>
    rw [acceptElements, toElements, elementEvents, fire_append_eq, accept_eq v]
    rcases fire handler s v.toJson.events with ⟨_ | _, s₁⟩
    · rfl
    · exact acceptElements_eq elements s₁

theorem acceptMembers_eq (members : List (Bytes × GenericValue)) (s : σ) :
    acceptMembers handler members s = fire handler s (memberEvents (toMembers members)) := by
  match members with
  | [] => rfl
  | (name, v) :: members =>
    rw [acceptMembers, toMembers, memberEvents, fire]
    rcases handler s (.key name) with ⟨_ | _, s₁⟩
    · rfl
    · dsimp only
      rw [accept_eq v, fire_append_eq]
      rcases fire handler s₁ v.toJson.events with ⟨_ | _, s₂⟩
      · rfl
      · exact acceptMembers_eq members s₂

end

end GenericValue

-- ---------------------------------------------------------------------------
-- Documents
-- ---------------------------------------------------------------------------

namespace GenericDocument

open GenericValue

/-- Members, as they lie on the stack. -/
def memberValues (ms : List (Bytes × Json)) : List GenericValue :=
  ms.flatMap fun (name, v) => [.string name, ofJson v]

theorem memberValues_cons (name : Bytes) (v : Json) (ms : List (Bytes × Json)) :
    memberValues ((name, v) :: ms) = .string name :: ofJson v :: memberValues ms := rfl

theorem length_memberValues (ms : List (Bytes × Json)) :
    (memberValues ms).length = 2 * ms.length := by
  induction ms with
  | nil => rfl
  | cons m ms ih =>
    obtain ⟨name, v⟩ := m
    rw [memberValues_cons, List.length_cons, List.length_cons, List.length_cons, ih]
    omega

theorem membersOf_memberValues (ms : List (Bytes × Json)) :
    membersOf (memberValues ms) = some (ofMembers ms) := by
  induction ms with
  | nil => rfl
  | cons m ms ih =>
    obtain ⟨name, v⟩ := m
    rw [memberValues_cons, membersOf, ih]
    rfl

theorem handle_endObject (ms : List (Bytes × Json)) (v : GenericValue)
    (stack : List GenericValue) :
    handle ((memberValues ms).reverse ++ v :: stack) (.endObject ms.length) =
      some (true, ofJson (.object ms) :: stack) := by
  have hlength : (memberValues ms).reverse.length = 2 * ms.length := by
    rw [List.length_reverse, length_memberValues]
  rw [handle, if_neg (by rw [List.length_append, hlength]; omega), ← hlength, List.take_left,
    List.drop_left, List.reverse_reverse, membersOf_memberValues]
  rfl

theorem handle_endArray (vs : List Json) (v : GenericValue) (stack : List GenericValue) :
    handle ((ofElements vs).reverse ++ v :: stack) (.endArray vs.length) =
      some (true, ofJson (.array vs) :: stack) := by
  have hlength : (ofElements vs).reverse.length = vs.length := by
    rw [List.length_reverse, length_ofElements]
  rw [handle, if_neg (by rw [List.length_append, hlength]; omega), ← hlength, List.take_left,
    List.drop_left, List.reverse_reverse]
  rfl

/-- The handler calls of `GenericDocument`, where its assertions hold. -/
abbrev call : Option (List GenericValue) → SaxEvent → Bool × Option (List GenericValue) :=
  asserting handle

mutual

/-- **The events of a value** put the value on the stack. -/
theorem handle_events (v : Json) (stack : List GenericValue) :
    fire call (some stack) v.events = (true, some (ofJson v :: stack)) := by
  match v with
  | .null => rfl
  | .bool b => rfl
  | .number n => rfl
  | .string s => rfl
  | .array vs =>
    have hend := asserting_some (handle_endArray vs (.array []) stack)
    rw [Json.events, fire_cons rfl, fire_append (handle_elementEvents vs _), fire_singleton]
    exact hend
  | .object ms =>
    have hend := asserting_some (handle_endObject ms (.object []) stack)
    rw [Json.events, fire_cons rfl, fire_append (handle_memberEvents ms _), fire_singleton]
    exact hend

theorem handle_elementEvents (vs : List Json) (stack : List GenericValue) :
    fire call (some stack) (elementEvents vs) =
      (true, some ((ofElements vs).reverse ++ stack)) := by
  match vs with
  | [] => rfl
  | v :: vs =>
    rw [elementEvents, fire_append (handle_events v stack), handle_elementEvents vs, ofElements,
      List.reverse_cons, List.append_assoc]
    rfl

theorem handle_memberEvents (ms : List (Bytes × Json)) (stack : List GenericValue) :
    fire call (some stack) (memberEvents ms) =
      (true, some ((memberValues ms).reverse ++ stack)) := by
  match ms with
  | [] => rfl
  | (name, v) :: ms =>
    rw [memberEvents, fire_cons rfl, fire_append (handle_events v _), handle_memberEvents ms,
      memberValues_cons, List.reverse_cons, List.reverse_cons, List.append_assoc,
      List.append_assoc]
    rfl

end

end GenericDocument

end RapidJson
