import Mathlib.Data.List.Basic
import Mathlib.Data.List.Induction
import ThirdPartDemo.Library.FileSystem

/-!
# Library — where a path leads, by its text alone

Lexical normalisation of Windows paths: both separators count, repeated
separators and `.` are dropped, and `..` cancels the component before it. What
is left of a list of components is a pair `Steps`: climb some levels, then go
down through some names. `Place.follow` takes those steps from a place, which is
either below the root or some levels above the current directory.

* `steps_append` and `follow_andThen` — steps compose, so the place of
  `folder/name` is the place of `folder` followed by the steps of `name`;
* `follow_strictlyBelow_iff` — the steps that lead strictly below a place.
-/

namespace Library

-- ---------------------------------------------------------------------------
-- Components
-- ---------------------------------------------------------------------------

def separator (c : Char) : Bool := c == '/' || c == '\\'

def dotdot : CString := ['.', '.']

/-- The components between separators that say something. -/
def components (path : CString) : List CString :=
  (path.splitOnP separator).filter fun c => c ≠ [] ∧ c ≠ ['.']

theorem components_append {sep : Char} (hsep : separator sep = true) (p q : CString) :
    components (p ++ sep :: q) = components p ++ components q := by
  rw [components, List.splitOnP_append_cons p q hsep, List.filter_append]
  rfl

-- ---------------------------------------------------------------------------
-- Steps
-- ---------------------------------------------------------------------------

/-- Climb `ups` levels, then go down through `names`. -/
structure Steps where
  ups : Nat := 0
  names : List CString := []
  deriving DecidableEq, Repr

def Steps.enter (s : Steps) (c : CString) : Steps :=
  if c = dotdot then
    if s.names = [] then { s with ups := s.ups + 1 } else { s with names := s.names.dropLast }
  else { s with names := s.names ++ [c] }

/-- The normal form of a list of components. -/
def steps (cs : List CString) : Steps := cs.foldl Steps.enter {}

/-- First the steps `s`, then the steps `t`, which may climb out of `s` again. -/
def Steps.andThen (s t : Steps) : Steps :=
  { ups := s.ups + (t.ups - s.names.length)
    names := s.names.take (s.names.length - t.ups) ++ t.names }

theorem andThen_nil (s : Steps) : s.andThen {} = s := by
  simp [Steps.andThen]

/-- Entering one more component after `t` is entering it after `s` and `t`. -/
theorem andThen_enter (s t : Steps) (c : CString) :
    s.andThen (t.enter c) = (s.andThen t).enter c := by
  unfold Steps.enter
  by_cases hc : c = dotdot
  · rw [if_pos hc, if_pos hc]
    by_cases ht : t.names = []
    · rw [if_pos ht]
      by_cases hlen : t.ups < s.names.length
      · -- the climb takes one more of the names of `s`
        have hne : (s.andThen t).names ≠ [] := by
          rw [← List.length_pos_iff, Steps.andThen, List.length_append, List.length_take]
          omega
        rw [if_neg hne]
        simp only [Steps.andThen, ht, List.append_nil]
        rw [List.dropLast_eq_take, List.take_take, List.length_take]
        congr 2 <;> omega
      · -- `t` has used up the names of `s` already
        have hnil : (s.andThen t).names = [] := by
          simp [Steps.andThen, ht, Nat.sub_eq_zero_of_le (Nat.le_of_not_lt hlen)]
        rw [if_pos hnil]
        simp only [Steps.andThen, ht]
        congr 1
        · omega
        · simp [Nat.sub_eq_zero_of_le (Nat.le_of_not_lt hlen),
            Nat.sub_eq_zero_of_le (Nat.le_succ_of_le (Nat.le_of_not_lt hlen))]
    · have hne : (s.andThen t).names ≠ [] := by simp [Steps.andThen, ht]
      rw [if_neg ht, if_neg hne]
      simp only [Steps.andThen]
      rw [List.dropLast_append_of_ne_nil ht]
  · rw [if_neg hc, if_neg hc]
    simp only [Steps.andThen, List.append_assoc]

/-- **Steps compose.** -/
theorem steps_append (cs ds : List CString) :
    steps (cs ++ ds) = (steps cs).andThen (steps ds) := by
  induction ds using List.reverseRecOn with
  | nil => rw [List.append_nil, show steps [] = {} from rfl, andThen_nil]
  | append_singleton ds d ih =>
    have hlast : ∀ es, steps (es ++ [d]) = (steps es).enter d := by
      intro es
      rw [steps, List.foldl_append]
      rfl
    rw [← List.append_assoc, hlast, hlast, ih, andThen_enter]

-- ---------------------------------------------------------------------------
-- Places
-- ---------------------------------------------------------------------------

/-- What a place is reached from: the root, or the directory some levels above
the current one. -/
inductive Origin where
  | root
  | above (ups : Nat)
  deriving DecidableEq, Repr

/-- The root has nothing above it. -/
def Origin.climb : Origin → Nat → Origin
  | .root, _ => .root
  | .above n, k => .above (n + k)

structure Place where
  origin : Origin
  names : List CString := []
  deriving DecidableEq, Repr

/-- The place that the steps `s` lead to from `p`. -/
def Place.follow (p : Place) (s : Steps) : Place :=
  { origin := p.origin.climb (s.ups - p.names.length)
    names := p.names.take (p.names.length - s.ups) ++ s.names }

/-- A path that starts with a separator starts at the root. -/
def origin (path : CString) : Origin :=
  if path.head?.any separator then .root else .above 0

/-- The place that a path names. -/
def lexical (path : CString) : Place :=
  Place.follow { origin := origin path } (steps (components path))

theorem climb_climb (o : Origin) (k l : Nat) : (o.climb k).climb l = o.climb (k + l) := by
  cases o with
  | root => rfl
  | above n => simp only [Origin.climb, Nat.add_assoc]

/-- **Following composed steps.** -/
theorem follow_andThen (p : Place) (s t : Steps) :
    p.follow (s.andThen t) = (p.follow s).follow t := by
  unfold Place.follow Steps.andThen
  simp only [climb_climb, List.length_append, List.length_take, Place.mk.injEq]
  refine ⟨?_, ?_⟩
  · congr 1
    omega
  · rw [List.take_append, List.take_take, List.length_take, List.append_assoc]
    -- how much of `p` survives both climbs
    congr 2
    · omega
    · congr 1
      omega

/-- The place of `folder/name`, whatever the text after the separator is. -/
theorem lexical_append {sep : Char} (hsep : separator sep = true) {folder : CString}
    (hne : folder ≠ []) (name : CString) :
    lexical (folder ++ sep :: name) = (lexical folder).follow (steps (components name)) := by
  have horigin : origin (folder ++ sep :: name) = origin folder := by
    cases folder with
    | nil => exact absurd rfl hne
    | cons c cs => rfl
  rw [lexical, horigin, components_append hsep, steps_append, follow_andThen]
  rfl

-- ---------------------------------------------------------------------------
-- Strictly below
-- ---------------------------------------------------------------------------

/-- `p` is reached from `d` by going down at least one level. -/
def Place.StrictlyBelow (p d : Place) : Prop :=
  p.origin = d.origin ∧ ∃ n ns, p.names = d.names ++ n :: ns

/-- Steps that stay below `d`: they do not climb past what `d` is reached from,
and go down again through the names they climbed out of and at least one more. -/
def StaysBelow (d : Place) (s : Steps) : Prop :=
  (d.origin = .root ∨ s.ups ≤ d.names.length) ∧
    ∃ n ns, s.names = d.names.drop (d.names.length - s.ups) ++ n :: ns

theorem climb_eq_self_iff (o : Origin) (k : Nat) : o.climb k = o ↔ o = .root ∨ k = 0 := by
  cases o with
  | root => simp [Origin.climb]
  | above n => simp [Origin.climb]

/-- **Staying below.** -/
theorem follow_strictlyBelow_iff (d : Place) (s : Steps) :
    (d.follow s).StrictlyBelow d ↔ StaysBelow d s := by
  have hsplit := List.take_append_drop (d.names.length - s.ups) d.names
  refine and_congr ?_ ?_
  · rw [Place.follow, climb_eq_self_iff]
    exact or_congr Iff.rfl (by omega)
  · refine exists_congr fun n => exists_congr fun ns => ?_
    rw [Place.follow]
    -- cancel the part of `d` that both sides begin with
    conv_lhs => rhs; rw [← hsplit]
    rw [List.append_assoc, List.append_right_inj]

end Library
