import ThirdPartDemo.RapidJson.MessageHandler

/-!
# RapidJsonDemo — `ParseMessages` accepts flat string objects, atomically

The purpose of `ParseMessages`, in its own terms: a *flat object* is an object
all of whose member values are strings. A text that denotes one leaves in the
map exactly the object's names, each with the value of its first occurrence;
every other text leaves the map alone.

The proof follows the automaton: `fire_member` plays one member with a string
value, `fire_members` a whole list of them, and `rejects_members` shows that
the first value that is not a string is rejected by its first event, whatever
it contains.
-/

namespace RapidJson

open Library

/-- The object with these names and string values, in this order. -/
def flatObject (members : List (Bytes × Bytes)) : Json :=
  .object (members.map fun m => (m.1, .string m.2))

/-- Insert the members into a map in source order. -/
def MessageMap.insertAll (m : MessageMap) (members : List (Bytes × Bytes)) : MessageMap :=
  members.foldl (fun m kv => m.insert kv.1 kv.2) m

/-! ## Inserting without overwriting -/

theorem MessageMap.lookup_insert (m : MessageMap) (k v k' : Bytes) :
    (m.insert k v).lookup k' =
      (m.lookup k').or (if k' = k then some v else none) := by
  unfold MessageMap.insert
  by_cases hk : k ∈ m
  · rw [if_pos hk]
    by_cases hkk : k' = k
    · subst hkk
      obtain ⟨w, hw⟩ := Option.isSome_iff_exists.mp (Finmap.lookup_isSome.mpr hk)
      simp [hw]
    · simp [hkk]
  · rw [if_neg hk]
    by_cases hkk : k' = k
    · subst hkk
      simp [Finmap.lookup_eq_none.mpr hk]
    · simp [hkk, Finmap.lookup_insert_of_ne]

/-- Inserting in order keeps, for each name, what was there before and
otherwise the first occurrence. -/
theorem MessageMap.lookup_insertAll (members : List (Bytes × Bytes)) (m : MessageMap)
    (k : Bytes) : (m.insertAll members).lookup k = (m.lookup k).or (members.lookup k) := by
  induction members generalizing m with
  | nil => simp [insertAll]
  | cons kv rest ih =>
    obtain ⟨k₀, v₀⟩ := kv
    have hrest := ih (m.insert k₀ v₀)
    rw [MessageMap.insertAll, List.foldl_cons]
    rw [MessageMap.insertAll] at hrest
    rw [hrest, MessageMap.lookup_insert, Option.or_assoc, List.lookup_cons]
    by_cases hk : k = k₀
    · simp [hk]
    · rw [if_neg hk, Option.none_or, beq_eq_false_iff_ne.mpr hk]

/-! ## The automaton on the members of the root object -/

/-- One member with a string value, read where a name or the end is expected. -/
theorem fire_member (h : MessageHandler) (hstate : h.state_ = .kExpectNameOrObjectEnd)
    (k v : Bytes) :
    fire MessageHandler.handle h [.key k, .string v] =
      (true, { h with messages_ := h.messages_.insert k v, name_ := k }) := by
  obtain ⟨messages, state, name⟩ := h
  cases hstate
  rfl

/-- A list of members with string values goes into the map in order. -/
theorem fire_members (members : List (Bytes × Bytes)) (h : MessageHandler)
    (hstate : h.state_ = .kExpectNameOrObjectEnd) :
    ∃ h', fire MessageHandler.handle h
        (memberEvents (members.map fun m => (m.1, .string m.2))) = (true, h') ∧
      h'.state_ = .kExpectNameOrObjectEnd ∧
      h'.messages_ = h.messages_.insertAll members := by
  induction members generalizing h with
  | nil => exact ⟨h, rfl, hstate, rfl⟩
  | cons kv rest ih =>
    obtain ⟨k, v⟩ := kv
    obtain ⟨h', hfire, hstate', hmap⟩ :=
      ih { h with messages_ := h.messages_.insert k v, name_ := k } hstate
    refine ⟨h', ?_, hstate', hmap⟩
    rw [← hfire]
    exact fire_append (fire_member h hstate k v) _

/-- Where a value is expected, a value that is not a string is rejected by its
first event, however large it is. -/
theorem rejects_value (v : Json) (hv : ∀ s, v ≠ .string s) (h : MessageHandler)
    (hstate : h.state_ = .kExpectValue) (rest : List SaxEvent) :
    (fire MessageHandler.handle h (v.events ++ rest)).1 = false := by
  obtain ⟨messages, state, name⟩ := h
  cases hstate
  cases v with
  | string s => exact absurd rfl (hv s)
  | _ =>
    rw [Json.events]
    exact fire_rejects rfl _

/-- Members that are not all strings are rejected at the first that is not. -/
theorem rejects_members (members : List (Bytes × Json))
    (hmem : ∃ m ∈ members, ∀ s, m.2 ≠ .string s) (h : MessageHandler)
    (hstate : h.state_ = .kExpectNameOrObjectEnd) (rest : List SaxEvent) :
    (fire MessageHandler.handle h (memberEvents members ++ rest)).1 = false := by
  induction members generalizing h with
  | nil =>
    obtain ⟨m, hm, -⟩ := hmem
    cases hm
  | cons kv members ih =>
    obtain ⟨k, v⟩ := kv
    have hkey : h.handle (.key k) = (true, { h with name_ := k, state_ := .kExpectValue }) := by
      rw [MessageHandler.handle, MessageHandler.String, hstate]
    rw [memberEvents, List.cons_append, fire_cons hkey, List.append_assoc]
    by_cases hv : ∃ s, v = .string s
    · -- a string value: the offending member comes later
      obtain ⟨s, rfl⟩ := hv
      obtain ⟨m, hm, hms⟩ := hmem
      have hm' : m ∈ members := by
        rcases List.mem_cons.mp hm with rfl | hm
        · exact absurd rfl (hms s)
        · exact hm
      exact ih ⟨m, hm', hms⟩ _ rfl
    · exact rejects_value v (fun s hs => hv ⟨s, hs⟩) _ rfl _

/-! ## The automaton on a whole document -/

/-- A flat object is accepted and leaves its first occurrences in the map. -/
theorem fire_flatObject (members : List (Bytes × Bytes)) :
    ∃ h, fire MessageHandler.handle {} (flatObject members).events = (true, h) ∧
      h.messages_ = MessageMap.insertAll ∅ members := by
  obtain ⟨h, hfire, hstate, hmap⟩ :=
    fire_members members { state_ := .kExpectNameOrObjectEnd } rfl
  refine ⟨h, ?_, hmap⟩
  rw [flatObject, Json.events, fire_cons rfl, fire_append hfire]
  refine fire_cons ?_ []
  rw [MessageHandler.handle, MessageHandler.EndObject, hstate]
  rfl

/-- Members that are all strings are the members of a flat object. -/
theorem exists_map_string {members : List (Bytes × Json)}
    (h : ∀ m ∈ members, ∃ s, m.2 = .string s) :
    ∃ ms : List (Bytes × Bytes), members = ms.map fun m => (m.1, .string m.2) := by
  induction members with
  | nil => exact ⟨[], rfl⟩
  | cons m members ih =>
    obtain ⟨ms, rfl⟩ := ih fun m' hm' => h m' (List.mem_cons_of_mem _ hm')
    obtain ⟨s, hs⟩ := h m (List.mem_cons_self ..)
    refine ⟨(m.1, s) :: ms, ?_⟩
    rw [List.map_cons, ← hs]

/-- Every document that is not a flat object is rejected. -/
theorem fire_rejects_root (root : Json) (hroot : ∀ ms, root ≠ flatObject ms) :
    (fire MessageHandler.handle {} root.events).1 = false := by
  cases root with
  | object members =>
    have hmem : ∃ m ∈ members, ∀ s, m.2 ≠ .string s := by
      by_contra hall
      push Not at hall
      obtain ⟨ms, rfl⟩ := exists_map_string hall
      exact hroot ms rfl
    rw [Json.events, fire_cons rfl]
    exact rejects_members members hmem _ rfl _
  | _ =>
    rw [Json.events]
    exact fire_rejects rfl _

/-- **`ParseMessages` accepts exactly the flat string objects and is atomic.**
A text that denotes a flat object leaves exactly its names in the map, each with
the value of its first occurrence; any other text, valid or not, leaves the map
as it was. -/
theorem ParseMessages_flat_or_unchanged (reader : Reader) (json : Bytes)
    (messages : MessageMap) :
    (∀ members, reader.read json = .valid (flatObject members) →
      ∀ k, (ParseMessages reader json messages).lookup k = members.lookup k) ∧
    ((∀ members, reader.read json ≠ .valid (flatObject members)) →
      ParseMessages reader json messages = messages) := by
  constructor
  · intro members hread k
    obtain ⟨h, hfire, hmap⟩ := fire_flatObject members
    rw [ParseMessages, Reader.Parse, hread]
    simp only [hfire]
    rw [hmap, MessageMap.lookup_insertAll, Finmap.lookup_empty, Option.none_or]
  · intro hother
    rw [ParseMessages, Reader.Parse]
    cases hread : reader.read json with
    | valid root =>
      have hrej := fire_rejects_root root fun ms hms => hother ms (by rw [hread, hms])
      match hf : fire MessageHandler.handle {} root.events with
      | (true, h) =>
        rw [hf] at hrej
        cases hrej
      | (false, h) => simp only [hf]
    | invalid fired => rfl

end RapidJson
