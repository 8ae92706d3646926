import ThirdPartDemo.RapidJson.PartialText

/-!
# RapidJSON — what the writers write

A writer follows the outline of the document that its calls describe: as long as a call
has its place the writer has written the text of the outline so far, and a call out of
place fails an assertion. One misuse is not found: an object that is closed after a name.

* `Writer.handle_step`, `Writer.handle_none` — one call;
* `Writer.accepts` — every sequence of calls;
* `Writer.writes` — the calls for a document leave a complete writer and a text of it.
-/

namespace RapidJson

open Library

variable {D : Dialect} {Grisu2 : BitVec 64 → Bytes × Int} {maxDecimalPlaces : Int}

-- ---------------------------------------------------------------------------
-- The two layouts
-- ---------------------------------------------------------------------------

theorem blank_cons {b : UInt8} {gap : Bytes} (hb : isJsonSpace b = true) (h : Blank gap) :
    Blank (b :: gap) := List.forall_mem_cons.mpr ⟨hb, h⟩

theorem Writer.layout_spaces : Writer.layout.Spaces where
  before depth level := by
    refine ⟨[], [], blank_nil, blank_nil, ?_⟩
    rw [List.append_nil, List.nil_append, Writer.layout, separator]
    dsimp only
    by_cases hzero : level.valueCount = 0
    · rw [if_pos hzero, if_neg (by omega)]
    rw [if_neg hzero, if_pos (by omega)]
    by_cases harray : level.inArray = true
    · rw [if_pos harray, if_pos (.inl harray)]
    · rw [if_neg harray]
      exact ite_congr (propext (or_iff_right harray)).symm (fun _ => rfl) fun _ => rfl
  beforeEnd _ _ := blank_nil

namespace PrettyWriter

variable (settings : PrettyWriter)

theorem blank_indent (depth : Nat) : Blank (settings.WriteIndent depth) := by
  intro _ hb
  rw [List.eq_of_mem_replicate hb]
  exact settings.isSpace

/-- A new line. -/
theorem blank_line (depth : Nat) : Blank ('\n'.toUInt8 :: settings.WriteIndent depth) :=
  blank_cons rfl (settings.blank_indent depth)

theorem layout_spaces : settings.layout.Spaces where
  before depth level := by
    obtain ⟨count, _ | _⟩ := level
    · -- in an object
      by_cases hzero : count = 0
      · subst hzero
        exact ⟨[], _, blank_nil, settings.blank_line depth, rfl⟩
      by_cases heven : count % 2 = 0
      · refine ⟨[], _, blank_nil, settings.blank_line depth, ?_⟩
        simp [layout, separator, hzero, heven, Nat.pos_of_ne_zero hzero]
      · refine ⟨[], [' '.toUInt8], blank_nil, blank_cons rfl blank_nil, ?_⟩
        simp [layout, separator, hzero, heven, Nat.pos_of_ne_zero hzero]
    · -- in an array
      refine ⟨[],
        (if 0 < count ∧ settings.kFormatSingleLineArray then [' '.toUInt8] else []) ++
        (if settings.kFormatSingleLineArray then [] else '\n'.toUInt8 :: settings.WriteIndent depth),
        blank_nil, blank_append ?_ ?_, ?_⟩
      · split
        · exact blank_cons rfl blank_nil
        · exact blank_nil
      · split
        · exact blank_nil
        · exact settings.blank_line depth
      · by_cases hzero : count = 0
        · simp [layout, separator, hzero]
        · by_cases hsingle : settings.kFormatSingleLineArray = true
          · simp [layout, separator, hzero, hsingle, Nat.pos_of_ne_zero hzero]
          · simp [layout, separator, hzero, hsingle, Nat.pos_of_ne_zero hzero]
  beforeEnd depth inArray := by
    unfold layout
    dsimp only
    split
    · exact blank_nil
    · exact settings.blank_line depth

end PrettyWriter

/-- The layout of a `PrettyWriter` with its settings, or of a `Writer`. -/
def layoutOf : Option PrettyWriter → Layout
  | some settings => settings.layout
  | none => Writer.layout

theorem layoutOf_spaces (pretty : Option PrettyWriter) : (layoutOf pretty).Spaces := by
  cases pretty with
  | none => exact Writer.layout_spaces
  | some settings => exact settings.layout_spaces

-- ---------------------------------------------------------------------------
-- The writer follows an outline
-- ---------------------------------------------------------------------------

/-- A level with another value. -/
def Level.next (level : Level) : Level := { level with valueCount := level.valueCount + 1 }

/-- The levels of open frames: on all but the innermost the next value has been counted. -/
def levelsOf : List Frame → List Level
  | [] => []
  | frame :: frames => levelOf frame :: frames.map fun frame => (levelOf frame).next

/-- The frames that are open. -/
def framesOf : Outline → List Frame
  | .building frames => frames
  | .complete _ => []

/-- Something has been written. -/
def hasRoot : Outline → Bool
  | .building frames => !frames.isEmpty
  | .complete _ => true

/-- The writer has followed the outline. -/
structure Wrote (D : Dialect) (maxDecimalPlaces : Int) (w : Writer) (o : Outline) :
    Prop where
  levels : w.level_stack_ = levelsOf (framesOf o)
  hasRoot : w.hasRoot_ = hasRoot o
  places : w.maxDecimalPlaces_ = maxDecimalPlaces
  text : Describes D w.os_ o

theorem put_levels {frames : List Frame} {v : Json} {o : Outline}
    (h : (Outline.building frames).put v = some o) :
    levelsOf (framesOf o) = frames.map (fun frame => (levelOf frame).next) ∧
      hasRoot o = true := by
  rcases frames with _ | ⟨_ | ⟨ms, _ | name⟩, frames⟩
  all_goals cases h
  · exact ⟨rfl, rfl⟩
  · refine ⟨?_, rfl⟩
    rw [framesOf, levelsOf, levelOf, List.length_append]
    rfl
  · refine ⟨?_, rfl⟩
    rw [framesOf, levelsOf, levelOf, List.length_append]
    rfl

/-- The object that is closed has a name without a value. -/
def EndsName (o : Outline) (e : SaxEvent) : Prop :=
  ∃ ms name frames count, o = .building (.object ms (some name) :: frames) ∧ e = .endObject count

/-- No object is closed after a name. -/
def KeepsNames : Outline → List SaxEvent → Prop
  | _, [] => True
  | o, e :: es => ¬ EndsName o e ∧ ∀ o', o.step e = some o' → KeepsNames o' es

theorem keepsNames_of_run {o o' : Outline} {es : List SaxEvent} (h : o.run es = some o') :
    KeepsNames o es := by
  induction es generalizing o with
  | nil => trivial
  | cons e es ih =>
    rw [Outline.run, Option.bind_eq_some_iff] at h
    obtain ⟨o₁, hstep, hrun⟩ := h
    refine ⟨?_, fun o₂ hstep' => ?_⟩
    · rintro ⟨ms, name, frames, count, rfl, rfl⟩
      cases hstep
    · cases hstep.symm.trans hstep'
      exact ih hrun

theorem endsName_of_mapNumbers {f : JsonNumber → JsonNumber} {o : Outline} {e : SaxEvent}
    (h : EndsName (o.mapNumbers f) e) : EndsName o e := by
  obtain ⟨ms, name, frames, count, ho, rfl⟩ := h
  rcases o with (_ | ⟨vs | ⟨ms', name'⟩, frames'⟩) | document
  all_goals cases ho
  exact ⟨ms', name, frames', count, rfl, rfl⟩

/-- What is written for a call is read as that call, or as the call for a number with
another one. -/
inductive Rewrites (D : Dialect) (Grisu2 : BitVec 64 → Bytes × Int) (maxDecimalPlaces : Int) :
    SaxEvent → SaxEvent → Prop where
  | number {n n' : JsonNumber} (h : Rereads D Grisu2 maxDecimalPlaces n n') :
      Rewrites D Grisu2 maxDecimalPlaces (.number n) (.number n')
  | other {e : SaxEvent} (h : ∀ n, e ≠ .number n) : Rewrites D Grisu2 maxDecimalPlaces e e

section Calls

variable {layout : Layout} (hlayout : layout.Spaces)
include hlayout

/-- What `Prefix` does where a value can come, or a name. -/
theorem prefix_spec {w : Writer} {frames : List Frame} {isString : Bool}
    (hw : Wrote D maxDecimalPlaces w (.building frames))
    (h : (Outline.building frames).expectsValue = true ∨ isString = true) :
    ∃ sep, Separates frames sep ∧ w.Prefix layout isString =
      some { w with
        os_ := w.os_ ++ sep
        level_stack_ := frames.map fun frame => (levelOf frame).next
        hasRoot_ := true } := by
  obtain ⟨out, levels, places, root⟩ := w
  have hlevels : levels = levelsOf frames := hw.levels
  have hroot : root = !frames.isEmpty := hw.hasRoot
  cases frames with
  | nil =>
    cases hlevels
    cases hroot
    refine ⟨[], rfl, ?_⟩
    dsimp only
    rw [List.append_nil]
    rfl
  | cons frame frames =>
    obtain ⟨gap, gap', hgap, hgap', hbefore⟩ :=
      hlayout.before (frames.length + 1) (levelOf frame)
    cases hlevels
    cases hroot
    have hallowed : ¬((!(levelOf frame).inArray) = true ∧ (levelOf frame).valueCount % 2 = 0 ∧
        (!isString) = true) := by
      rintro ⟨hobject, heven, hstring⟩
      obtain hexpects | rfl := h
      · rcases frame with vs | ⟨ms, _ | name⟩
        · cases hobject
        · cases hexpects
        · rw [levelOf] at heven
          dsimp only at heven
          omega
      · cases hstring
    refine ⟨_, ⟨gap, gap', hgap, hgap', rfl⟩, ?_⟩
    rw [Writer.Prefix, levelsOf]
    dsimp only
    rw [if_neg hallowed, List.length_map, hbefore]
    rfl

omit hlayout in
/-- `Prefix` asserts that a value can come, or a name. -/
theorem prefix_none {w : Writer} {o : Outline} {isString : Bool}
    (hw : Wrote D maxDecimalPlaces w o) (h : o.expectsValue = false)
    (hname : isString = true → hasRoot o = true ∧ framesOf o = []) :
    w.Prefix layout isString = none := by
  obtain ⟨out, levels, places, root⟩ := w
  have hlevels : levels = levelsOf (framesOf o) := hw.levels
  have hroot : root = RapidJson.hasRoot o := hw.hasRoot
  cases hlevels
  cases hroot
  rcases o with (_ | ⟨vs | ⟨ms, _ | name⟩, frames⟩) | document
  · cases h
  · cases h
  · have hstring : isString = false := by
      refine Bool.eq_false_iff.mpr fun hstring => ?_
      cases (hname hstring).2
    have heven : 2 * ms.length % 2 = 0 := by omega
    rw [Writer.Prefix, framesOf, levelsOf]
    dsimp only
    rw [if_pos ⟨rfl, heven, by rw [hstring]; rfl⟩]
  · cases h
  · rfl

omit hlayout in
theorem prefix_places {w w' : Writer} {isString : Bool}
    (h : w.Prefix layout isString = some w') : w'.maxDecimalPlaces_ = w.maxDecimalPlaces_ := by
  unfold Writer.Prefix at h
  split at h
  · split at h
    · cases h
    · cases h
      rfl
  · split at h
    · cases h
    · cases h
      rfl

theorem put_step {w : Writer} {o o' : Outline} {v : Json} {text : Bytes} (isString : Bool)
    (hw : Wrote D maxDecimalPlaces w o) (hv : Derives D text (.value v))
    (ho : o.put v = some o') :
    ∃ w', (w.Prefix layout isString).map (fun w => (true, w.put text)) = some (true, w') ∧
      Wrote D maxDecimalPlaces w' o' := by
  have hexpects := (Outline.expectsValue_iff v).mpr ⟨o', ho⟩
  cases o with
  | complete _ => cases hexpects
  | building frames =>
    obtain ⟨sep, hsep, hfront⟩ := prefix_spec hlayout hw (.inl hexpects)
    obtain ⟨hlevels, hroot⟩ := put_levels ho
    rw [hfront]
    refine ⟨_, rfl, hlevels.symm, hroot.symm, hw.places, ?_⟩
    have := hw.text.put hsep hv ho
    rwa [← List.append_assoc] at this

/-- A name, where one is expected. -/
theorem name_step {w : Writer} {frames : List Frame} {ms : List (Bytes × Json)} {raw name : Bytes}
    (hw : Wrote D maxDecimalPlaces w (.building (.object ms none :: frames)))
    (hname : Chars raw name) :
    ∃ w', (w.Prefix layout true).map (fun w => (true, w.put (quoted raw))) = some (true, w') ∧
      Wrote D maxDecimalPlaces w' (.building (.object ms (some name) :: frames)) := by
  obtain ⟨sep, hsep, hfront⟩ := prefix_spec hlayout hw (.inr rfl)
  rw [hfront]
  refine ⟨_, rfl, rfl, rfl, hw.places, ?_⟩
  have := Partial.putName hw.text hsep hname
  rwa [← List.append_assoc] at this

theorem start_step {w : Writer} {frames : List Frame} {frame : Frame} {bracket : UInt8}
    {inArray : Bool} (hw : Wrote D maxDecimalPlaces w (.building frames))
    (hexpects : (Outline.building frames).expectsValue = true)
    (hlevel : levelOf frame = ⟨0, inArray⟩)
    (hopen : ∀ sep, Separates frames sep →
      Partial D (frame :: frames) (w.os_ ++ (sep ++ [bracket]))) :
    ∃ w', w.start layout inArray bracket = some (true, w') ∧
      Wrote D maxDecimalPlaces w' (.building (frame :: frames)) := by
  obtain ⟨sep, hsep, hfront⟩ := prefix_spec hlayout hw (.inl hexpects)
  rw [Writer.start, hfront]
  refine ⟨_, rfl, ?_, rfl, hw.places, ?_⟩
  · rw [framesOf, levelsOf, hlevel]
  · have := hopen sep hsep
    rwa [← List.append_assoc] at this

theorem finish_step {w : Writer} {frames : List Frame} {frame : Frame} {bracket : UInt8}
    {v : Json} {o : Outline} (hw : Wrote D maxDecimalPlaces w (.building (frame :: frames)))
    (ho : (Outline.building frames).put v = some o)
    (hclose : ∀ gap, Blank gap → ∃ out sep text, Partial D frames out ∧ Separates frames sep ∧
      Derives D text (.value v) ∧ w.os_ ++ (gap ++ [bracket]) = out ++ (sep ++ text)) :
    ∃ w', w.finish layout (levelOf frame).inArray bracket = some (true, w') ∧
      Wrote D maxDecimalPlaces w' o := by
  obtain ⟨hlevels, hroot⟩ := put_levels ho
  have hblank : Blank (if (levelOf frame).valueCount = 0 then []
      else layout.beforeEnd (frames.map fun frame => (levelOf frame).next).length
        (levelOf frame).inArray) := by
    split
    · exact blank_nil
    · exact hlayout.beforeEnd _ _
  obtain ⟨out, sep, text, hpartial, hsep, hv, heq⟩ := hclose _ hblank
  rw [Writer.finish, show w.level_stack_ = _ from hw.levels, framesOf, levelsOf]
  dsimp only
  rw [if_neg (not_not.mpr rfl)]
  refine ⟨_, rfl, hlevels.symm, hw.hasRoot.trans hroot.symm, hw.places, ?_⟩
  show Describes D (w.os_ ++ (_ ++ [bracket])) o
  rw [heq]
  exact hpartial.put hsep hv ho

namespace Writer

/-- **One call that has its place** succeeds, and the writer has followed it. -/
theorem handle_step {w : Writer} {o o' : Outline} {e e' : SaxEvent}
    (hw : Wrote D maxDecimalPlaces w o) (he : Rewrites D Grisu2 maxDecimalPlaces e e')
    (ho : o.step e' = some o') :
    ∃ w', w.handle Grisu2 layout e = some (true, w') ∧ Wrote D maxDecimalPlaces w' o' := by
  have hstring : ∀ s : Bytes, o.putString s = some o' → ∃ w',
      (w.Prefix layout true).map (fun w => (true, w.put (WriteString s))) = some (true, w') ∧
        Wrote D maxDecimalPlaces w' o' := by
    intro s hput
    rcases o with (_ | ⟨_ | ⟨ms, _ | name⟩, frames⟩) | document
    case building.cons.object.none =>
      cases hput
      exact name_step hlayout hw (chars_flatMap s)
    all_goals exact put_step hlayout true hw (.string (chars_flatMap s)) hput
  cases he with
  | @number n n' h =>
    obtain ⟨haccepted, l, hl, hwrite, hn⟩ := h
    obtain ⟨w', hw', hwrote⟩ := put_step hlayout false hw (.number hl hn) ho
    refine ⟨w', ?_, hwrote⟩
    rw [handle, ← hw']
    cases hfront : w.Prefix layout false with
    | none => rfl
    | some w₁ =>
      have hplaces := (prefix_places hfront).trans hw.places
      rw [Option.bind_some, haccepted, if_neg Bool.false_ne_true, hplaces, hwrite]
      rfl
  | other hother =>
    cases e with
    | null => exact put_step hlayout false hw .null ho
    | bool b =>
      cases b with
      | false => exact put_step hlayout false hw .false ho
      | true => exact put_step hlayout false hw .true ho
    | number n => exact absurd rfl (hother n)
    | rawNumber s => exact put_step hlayout false hw (.string (chars_flatMap s)) ho
    | string s => exact hstring s ho
    | key s => exact hstring s ho
    | startObject =>
      cases o with
      | complete root => cases ho
      | building frames =>
        obtain ⟨hexpects, rfl⟩ := Outline.of_enter ho
        exact start_step hlayout hw hexpects rfl fun sep hsep => .object hw.text hsep .nil
    | startArray =>
      cases o with
      | complete root => cases ho
      | building frames =>
        obtain ⟨hexpects, rfl⟩ := Outline.of_enter ho
        exact start_step hlayout hw hexpects rfl fun sep hsep => .array hw.text hsep .nil
    | endObject count =>
      rcases o with (_ | ⟨_ | ⟨ms, _ | name⟩, frames⟩) | document
      case building.cons.object.none =>
        exact finish_step hlayout hw ho fun gap hgap => Partial.closeObject hw.text hgap
      all_goals cases ho
    | endArray count =>
      rcases o with (_ | ⟨vs | ⟨ms, name⟩, frames⟩) | document
      case building.cons.array =>
        exact finish_step hlayout hw ho fun gap hgap => Partial.closeArray hw.text hgap
      all_goals cases ho

omit hlayout in
/-- **One call that is out of place** fails an assertion, unless it closes an object
after a name. -/
theorem handle_none {w : Writer} {o : Outline} {e e' : SaxEvent}
    (hw : Wrote D maxDecimalPlaces w o) (he : Rewrites D Grisu2 maxDecimalPlaces e e')
    (hnested : o.Nested) (hname : ¬ EndsName o e) (ho : o.step e' = none) :
    w.handle Grisu2 layout e = none := by
  have hexpected : ∀ {o : Outline}, o.expectsValue = true → ∀ v, o.put v ≠ none := by
    intro o hexpects v hv
    obtain ⟨o', ho'⟩ := (Outline.expectsValue_iff v).mp hexpects
    rw [hv] at ho'
    cases ho'
  have hput : ∀ v : Json, o.put v = none → w.Prefix layout false = none := by
    intro v hv
    exact prefix_none hw (Bool.eq_false_iff.mpr fun hexpects => hexpected hexpects v hv)
      (fun h => nomatch h)
  have hstring : ∀ s : Bytes, o.putString s = none → w.Prefix layout true = none := by
    intro s hs
    rcases o with (_ | ⟨_ | ⟨ms, _ | name⟩, frames⟩) | document
    case complete => exact prefix_none hw rfl fun _ => ⟨rfl, rfl⟩
    all_goals cases hs
  have henter : ∀ frame, o.enter frame = none → w.Prefix layout false = none := by
    intro frame h
    refine prefix_none hw (Bool.eq_false_iff.mpr fun hexpects => ?_) (fun h => nomatch h)
    cases o with
    | complete root => cases hexpects
    | building frames =>
      rw [Outline.enter_of_expectsValue hexpects] at h
      cases h
  have hlevels := hw.levels
  cases he with
  | number h => rw [handle, hput _ ho, Option.bind_none]
  | other hother =>
    cases e with
    | null => rw [handle, hput _ ho, Option.map_none]
    | bool b => rw [handle, hput _ ho, Option.map_none]
    | number n => exact absurd rfl (hother n)
    | rawNumber s => rw [handle, hput _ ho, Option.map_none]
    | string s => rw [handle, hstring _ ho, Option.map_none]
    | key s => rw [handle, hstring _ ho, Option.map_none]
    | startObject => rw [handle, start, henter _ ho, Option.map_none]
    | startArray => rw [handle, start, henter _ ho, Option.map_none]
    | endObject count =>
      rcases o with (_ | ⟨vs | ⟨ms, _ | name⟩, frames⟩) | document
      · rw [handle, finish, hlevels]
        rfl
      · rw [handle, finish, hlevels]
        rfl
      · exact absurd ho (hexpected hnested.expectsValue _)
      · exact absurd ⟨ms, name, frames, count, rfl, rfl⟩ hname
      · rw [handle, finish, hlevels]
        rfl
    | endArray count =>
      rcases o with (_ | ⟨vs | ⟨ms, _ | name⟩, frames⟩) | document
      · rw [handle, finish, hlevels]
        rfl
      · exact absurd ho (hexpected hnested.expectsValue _)
      · rw [handle, finish, hlevels]
        rfl
      · rw [handle, finish, hlevels]
        rfl
      · rw [handle, finish, hlevels]
        rfl

/-- **Calls** succeed as far as they have their place, and the writer has followed them. -/
theorem run_calls (f : JsonNumber → JsonNumber) {w : Writer} {o : Outline}
    {calls : List SaxEvent} (hw : Wrote D maxDecimalPlaces w (o.mapNumbers f))
    (hnested : (o.mapNumbers f).Nested)
    (hf : ∀ n, .number n ∈ calls → Rereads D Grisu2 maxDecimalPlaces n (f n))
    (hnames : KeepsNames o calls) :
    match o.run calls with
    | some o' => ∃ w', fire (asserting (handle Grisu2 layout)) (some w) calls = (true, some w') ∧
        Wrote D maxDecimalPlaces w' (o'.mapNumbers f)
    | none => fire (asserting (handle Grisu2 layout)) (some w) calls = (false, none) := by
  induction calls generalizing w o with
  | nil => exact ⟨w, rfl, hw⟩
  | cons e calls ih =>
    have hrewrites : Rewrites D Grisu2 maxDecimalPlaces e (e.mapNumber f) := by
      cases e
      case number n => exact .number (hf n List.mem_cons_self)
      all_goals exact .other fun n h => nomatch h
    have hmap := Outline.step_mapNumbers f o e
    rw [Outline.run]
    cases hstep : o.step e with
    | none =>
      rw [hstep] at hmap
      have hhandle : w.handle Grisu2 layout e = none :=
        handle_none hw hrewrites hnested (fun h => hnames.1 (endsName_of_mapNumbers h)) hmap
      show fire _ _ _ = _
      rw [fire, asserting, hhandle]
    | some o₁ =>
      rw [hstep] at hmap
      obtain ⟨w₁, hhandle, hwrote⟩ := handle_step hlayout hw hrewrites hmap
      rw [fire_cons (asserting_some hhandle)]
      exact ih hwrote (hnested.step hmap) (fun n hn => hf n (.tail _ hn)) (hnames.2 o₁ hstep)

end Writer

end Calls

-- ---------------------------------------------------------------------------
-- Whole runs
-- ---------------------------------------------------------------------------

namespace Writer

theorem wrote_start (D : Dialect) (maxDecimalPlaces_ : Int) :
    Wrote D maxDecimalPlaces_ { maxDecimalPlaces_ } (.building []) := ⟨rfl, rfl, rfl, .start⟩

/-- A writer that has followed an outline is complete exactly when the outline is. -/
theorem isComplete_of_wrote {w : Writer} {o : Outline} (hw : Wrote D maxDecimalPlaces w o) :
    w.IsComplete = true ↔ ∃ root, o = .complete root := by
  rw [IsComplete, hw.hasRoot, hw.levels]
  rcases o with (_ | ⟨frame, frames⟩) | root
  · exact ⟨fun h => (nomatch h), fun ⟨_, h⟩ => (nomatch h)⟩
  · exact ⟨fun h => (nomatch h), fun ⟨_, h⟩ => (nomatch h)⟩
  · exact ⟨fun _ => ⟨root, rfl⟩, fun _ => rfl⟩

/-- **A writer finds every misuse** but an object that is closed after a name: its
assertions hold for exactly the calls that have their place in a document, it is complete
exactly when the document is, and then it has written a text of the document, in which
every double has the meaning of the literal that `dtoa` writes, whatever that is. -/
theorem accepts (hGrisu2 : FindsDigits Grisu2) (pretty : Option PrettyWriter)
    {maxDecimalPlaces_ : Int} (hplaces : maxDecimalPlaces_ ≥ 1) {calls : List SaxEvent}
    (hnumbers : ∀ n, .number n ∈ calls → Writable n)
    (hnames : KeepsNames (.building []) calls) :
    match (Outline.building []).run calls with
    | none => fire (asserting (handle Grisu2 (layoutOf pretty))) (some { maxDecimalPlaces_ })
        calls = (false, none)
    | some o => ∃ w, fire (asserting (handle Grisu2 (layoutOf pretty)))
        (some { maxDecimalPlaces_ }) calls = (true, some w) ∧
        (w.IsComplete = true ↔ ∃ root, o = .complete root) ∧
        ∀ root, o = .complete root → ∀ meaning, JsonText (dialectOf meaning) w.os_
          (root.mapNumbers (written Grisu2 maxDecimalPlaces_ meaning)) := by
  have hrun := fun meaning => run_calls (o := .building []) (layoutOf_spaces pretty)
    (written Grisu2 maxDecimalPlaces_ meaning) (wrote_start (dialectOf meaning) maxDecimalPlaces_)
    trivial (fun n hn => rereads_written hGrisu2 hplaces meaning (hnumbers n hn)) hnames
  cases ho : (Outline.building []).run calls with
  | none =>
    have := hrun fun _ => 0
    rwa [ho] at this
  | some o =>
    rw [ho] at hrun
    obtain ⟨w, hfire, hwrote⟩ := hrun fun _ => 0
    refine ⟨w, hfire, (isComplete_of_wrote hwrote).trans ?_, ?_⟩
    · cases o with
      | building frames => exact ⟨fun ⟨_, h⟩ => (nomatch h), fun ⟨_, h⟩ => (nomatch h)⟩
      | complete root => exact ⟨fun _ => ⟨root, rfl⟩, fun _ => ⟨_, rfl⟩⟩
    · rintro root rfl meaning
      obtain ⟨w', hfire', hwrote'⟩ := hrun meaning
      cases hfire.symm.trans hfire'
      exact hwrote'.text

theorem accepts_member :
    ∃ w, fire (asserting (handle digitsOfOne (layoutOf none))) (some {})
      [.startObject, .key [], .number (.double 0x3FF0000000000000), .endObject 1] =
        (true, some w) ∧ w.IsComplete = true := by
  let root : Json := .object [([], .number (.double 0x3FF0000000000000))]
  have hnumbers : ∀ n, .number n ∈ root.events → Writable n := by
    intro n hn
    obtain rfl : n = .double 0x3FF0000000000000 := by
      simpa [root, Json.events, memberEvents] using hn
    refine ⟨trivial, fun bits hbits => ?_⟩
    cases hbits
    rfl
  have hrun : (Outline.building []).run root.events = some (.complete root) := rfl
  obtain ⟨w, hfire, hcomplete, -⟩ :=
    accepts findsDigits_one none (show (324 : Int) ≥ 1 by decide) hnumbers (keepsNames_of_run hrun)
  exact ⟨w, hfire, hcomplete.mpr ⟨_, rfl⟩⟩

/-- **The calls for a document** leave a complete writer that has written a text of it. -/
theorem writes (pretty : Option PrettyWriter) (maxDecimalPlaces_ : Int) (root : Json)
    (f : JsonNumber → JsonNumber)
    (hf : ∀ n, .number n ∈ root.events → Rereads D Grisu2 maxDecimalPlaces_ n (f n)) :
    ∃ w, fire (asserting (handle Grisu2 (layoutOf pretty))) (some { maxDecimalPlaces_ })
        root.events = (true, some w) ∧ w.IsComplete = true ∧
      JsonText D w.os_ (root.mapNumbers f) := by
  have ho : (Outline.building []).run root.events = some (.complete root) := by
    have := Outline.run_events root (o := .building []) rfl []
    rwa [List.append_nil] at this
  have hrun := run_calls (o := .building []) (layoutOf_spaces pretty) f
    (wrote_start D maxDecimalPlaces_) trivial hf (keepsNames_of_run ho)
  rw [ho] at hrun
  obtain ⟨w, hfire, hwrote⟩ := hrun
  exact ⟨w, hfire, (isComplete_of_wrote hwrote).mpr ⟨_, rfl⟩, hwrote.text⟩

end Writer

end RapidJson
