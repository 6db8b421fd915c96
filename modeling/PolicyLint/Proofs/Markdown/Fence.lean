/-
Fence lines, said as properties of a line.

The program works out an info string and looks at its beginning.  Here a line has
an info string, declares a format, opens a region or is exempt, and each of these
is what the program finds.
-/
import PolicyLint.Markdown.Fence
import PolicyLint.Policy

namespace PolicyLint
namespace Markdown

/-- The line is a fence with the info string `i`. -/
def HasInfo (line i : Text) : Prop :=
  ∃ rest, Text.trim line = fence ++ rest ∧ i = Text.lower (Text.trim rest)

/-- The line opens a region that declares `f`. -/
def Declares (line : Text) (f : Format) : Prop :=
  ∃ i, HasInfo line i ∧ f.name <+: i

/-- The line opens a region. -/
def Opens (line : Text) : Prop :=
  ∃ f, Declares line f

/-- The line is a fence whose info string takes its region out of the check. -/
def IsExempt (line : Text) : Prop :=
  ∃ i, HasInfo line i ∧ ∃ w ∈ exemptions, w <:+: i

theorem info_eq_some_iff {line i : Text} : info line = some i ↔ HasInfo line i := by
  unfold info HasInfo
  by_cases h : fence.isPrefixOf (Text.trim line) = true
  · rw [if_pos h, Option.some.injEq]
    obtain ⟨rest, hr⟩ := List.isPrefixOf_iff_prefix.mp h
    rw [← hr, List.drop_left]
    constructor
    · intro hi
      exact ⟨rest, rfl, hi.symm⟩
    · rintro ⟨rest', hr', hi⟩
      rw [hi, List.append_cancel_left hr']
  · rw [if_neg h]
    constructor
    · intro hi
      exact absurd hi (by simp)
    · rintro ⟨rest, hr, -⟩
      exact absurd (List.isPrefixOf_iff_prefix.mpr ⟨rest, hr.symm⟩) h

-- The names of the formats begin with different letters, so the order of the tests
-- does not matter.
theorem Format.ofInfo_eq_some_iff {i : Text} {f : Format} :
    Format.ofInfo i = some f ↔ f.name <+: i := by
  unfold Format.ofInfo
  by_cases hy : Format.yaml.name.isPrefixOf i = true
  · obtain ⟨rest, rfl⟩ := List.isPrefixOf_iff_prefix.mp hy
    cases f <;> simp [Format.name]
  · by_cases hj : Format.json.name.isPrefixOf i = true
    · rw [if_neg hy, if_pos hj, Option.some.injEq]
      obtain ⟨rest, rfl⟩ := List.isPrefixOf_iff_prefix.mp hj
      cases f <;> simp [Format.name]
    · rw [if_neg hy, if_neg hj]
      rw [List.isPrefixOf_iff_prefix] at hy hj
      cases f <;> simp [hy, hj]

theorem opening_eq_some_iff {line : Text} {o : Opening} :
    opening line = some o ↔ Declares line o.format ∧ (o.exempt = true ↔ IsExempt line) := by
  cases hi : info line with
  | none =>
    have hno : ∀ i, ¬HasInfo line i := by
      intro i h
      rw [← info_eq_some_iff, hi] at h
      exact absurd h (by simp)
    simp [opening, Declares, hi, hno]
  | some i =>
    have hinfo : ∀ i', HasInfo line i' ↔ i' = i := by
      intro i'
      rw [← info_eq_some_iff, hi, Option.some.injEq, eq_comm]
    have hex : IsExempt line ↔ (exemptions.any fun w => Text.mentions w i) = true := by
      simp [IsExempt, hinfo, List.any_eq_true, Text.mentions_iff]
    have hdecl : Declares line o.format ↔ Format.ofInfo i = some o.format := by
      simp [Declares, hinfo, Format.ofInfo_eq_some_iff]
    rw [hex, hdecl]
    obtain ⟨f, e⟩ := o
    cases hf : Format.ofInfo i with
    | none => simp [opening, hi, hf]
    | some f' =>
      simp only [opening, hi, hf, Option.bind_eq_bind, Option.bind_some, Option.some.injEq,
        Opening.mk.injEq]
      rw [Bool.eq_iff_iff, @iff_comm (e = true)]

theorem opening_eq_none_iff {line : Text} : opening line = none ↔ ¬Opens line := by
  constructor
  · rintro h ⟨f, hf⟩
    have hno : ∀ e : Bool, ¬(e = true ↔ IsExempt line) := by
      intro e he
      have ho : opening line = some ⟨f, e⟩ := opening_eq_some_iff.mpr ⟨hf, he⟩
      rw [h] at ho
      exact absurd ho (by simp)
    by_cases he : IsExempt line
    · exact hno true (by simp [he])
    · exact hno false (by simp [he])
  · intro h
    cases ho : opening line with
    | none => rfl
    | some o => exact absurd ⟨o.format, (opening_eq_some_iff.mp ho).1⟩ h

theorem closes_iff {line : Text} : closes line = true ↔ Text.trim line = fence := by
  simp [closes]

theorem closes_eq_false_iff {line : Text} : closes line = false ↔ Text.trim line ≠ fence := by
  rw [Bool.eq_false_iff, ne_eq, closes_iff]

/-! White space around a line does not matter. -/

theorem opening_of_trim_eq {line line' : Text} (h : Text.trim line' = Text.trim line) :
    opening line' = opening line := by
  unfold opening info
  rw [h]

theorem closes_of_trim_eq {line line' : Text} (h : Text.trim line' = Text.trim line) :
    closes line' = closes line := by
  unfold closes
  rw [h]

/-- A bare fence opens nothing. -/
theorem not_opens_of_closes {line : Text} (h : Text.trim line = fence) : ¬Opens line := by
  have htrim : Text.trim line = Text.trim fence := by
    rw [h]
    decide
  rw [← opening_eq_none_iff, opening_of_trim_eq htrim]
  decide

theorem mentioned_iff {t : Text} : Policy.mentioned t = true ↔ ∃ k ∈ Policy.keys, k <:+: t := by
  simp [Policy.mentioned, List.any_eq_true, Text.mentions_iff]

theorem HasInfo.unique {line i j : Text} (hi : HasInfo line i) (hj : HasInfo line j) : i = j := by
  rw [← info_eq_some_iff] at hi hj
  exact Option.some.inj (hi.symm.trans hj)

theorem Declares.unique {line : Text} {f g : Format} (hf : Declares line f)
    (hg : Declares line g) : f = g := by
  obtain ⟨i, hi, hfi⟩ := hf
  obtain ⟨j, hj, hgj⟩ := hg
  rw [hj.unique hi] at hgj
  rw [← Format.ofInfo_eq_some_iff] at hfi hgj
  exact Option.some.inj (hfi.symm.trans hgj)

end Markdown
end PolicyLint
