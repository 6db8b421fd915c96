/-
Blocks that are reported as empty documents.

A block without anything on its lines is not read.  What YAML would make of it depends on what
YAML takes for lines and for white space: its lines end at carriage returns too, and it has no
white space but spaces and tabs.  Where that makes no difference such a block holds no value;
where it does, a whole policy can be passed over.
-/
import PolicyLint.Proofs.Policy.Hollow
import PolicyLint.Proofs.Yaml.Document

namespace PolicyLint
namespace Policy

/-- The white space of the text is YAML's own.  A carriage return on a line is not: one that ends
the line together with a line feed is no part of it. -/
def OwnSpacing (t : Text) : Prop :=
  ∀ line ∈ Text.lines t, ∀ c ∈ line, Text.isBlank c = true → Yaml.isBlank c = true

/-- No line of the text, as YAML divides it, holds anything. -/
def OwnLinesHollow (t : Text) : Prop :=
  ∀ line ∈ Yaml.lines t, Yaml.isHollowLine line = true

/-! ## The two divisions into lines -/

theorem isBlank_of_yaml {c : Char} (h : Yaml.isBlank c = true) : Text.isBlank c = true := by
  simp only [Yaml.isBlank, Bool.or_eq_true, decide_eq_true_eq] at h
  rcases h with rfl | rfl <;> decide

section Line

variable {line : Text}

theorem dropWhile_isBlank (h : ∀ c ∈ line, Text.isBlank c = true → Yaml.isBlank c = true) :
    line.dropWhile Yaml.isBlank = line.dropWhile Text.isBlank := by
  induction line with
  | nil => rfl
  | cons c line ih =>
    rw [List.forall_mem_cons] at h
    cases hc : Yaml.isBlank c with
    | true =>
      rw [List.dropWhile_cons_of_pos hc, List.dropWhile_cons_of_pos (isBlank_of_yaml hc), ih h.2]
    | false =>
      have hc' : ¬Text.isBlank c = true := fun hblank => by
        rw [h.1 hblank] at hc
        exact Bool.noConfusion hc
      rw [List.dropWhile_cons_of_neg (by simp [hc]), List.dropWhile_cons_of_neg hc']

theorem trimBlanks_eq_trim (h : ∀ c ∈ line, Text.isBlank c = true → Yaml.isBlank c = true) :
    Yaml.trimBlanks line = Text.trim line := by
  rw [Yaml.trimBlanks, dropWhile_isBlank h, List.rdropWhile, dropWhile_isBlank, Text.trim,
    Text.trimEnd, Text.trimStart]
  intro c hc
  exact h c ((List.dropWhile_suffix _).subset (List.mem_reverse.mp hc))

/-- A line that holds nothing holds nothing for YAML either. -/
theorem HoldsNothing.hollowLine (hline : HoldsNothing line)
    (h : ∀ c ∈ line, Text.isBlank c = true → Yaml.isBlank c = true) : Yaml.HollowLine line := by
  rw [← isHollowLine_iff, isHollowLine, ← trimBlanks_eq_trim h] at hline
  exact Yaml.isHollowLine_iff.mp hline

theorem no_break (hfeed : '\n' ∉ line)
    (h : ∀ c ∈ line, Text.isBlank c = true → Yaml.isBlank c = true) :
    ∀ c ∈ line, Yaml.isBreak c = false := by
  intro c hc
  rw [Bool.eq_false_iff]
  intro hbreak
  simp only [Yaml.isBreak, Bool.or_eq_true, decide_eq_true_eq] at hbreak
  rcases hbreak with rfl | rfl
  · exact hfeed hc
  · exact absurd (h _ hc (by decide)) (by decide)

end Line

/-- Where white space is YAML's own, YAML finds the same lines, with an empty line between a
carriage return and its line feed. -/
theorem ownLinesHollow_of_ownSpacing {t : Text} (h : isHollow t = true) (hown : OwnSpacing t) :
    OwnLinesHollow t := by
  rw [isHollow, List.all_eq_true] at h
  rw [OwnSpacing] at hown
  induction t using Text.induction_on_lines with
  | last line hfeed =>
    have hline : Yaml.HollowLine line ∧ ∀ c ∈ line, Yaml.isBreak c = false := by
      cases line with
      | nil => exact ⟨.blanks fun c hc => absurd hc List.not_mem_nil,
          fun c hc => absurd hc List.not_mem_nil⟩
      | cons c line =>
        rw [Text.lines_last hfeed, List.isEmpty_cons, if_neg Bool.false_ne_true,
          List.forall_mem_singleton] at h hown
        exact ⟨(isHollowLine_iff.mp h).hollowLine hown, no_break hfeed hown⟩
    intro piece hpiece
    rw [Yaml.lines_of_no_break hline.2, List.mem_singleton] at hpiece
    rw [hpiece]
    exact hline.1.cut.isHollowLine
  | cons line rest hfeed ih =>
    rw [Text.lines_cons hfeed, List.forall_mem_cons] at h hown
    have hrest := ih h.2 hown.2
    have hended : '\n' ∉ Text.ended line :=
      fun hmem => hfeed ((Text.ended_isPrefix line).subset hmem)
    have hbreak := no_break hended hown.1
    have hcut := ((isHollowLine_iff.mp h.1).hollowLine hown.1).cut.isHollowLine
    intro piece hpiece
    rcases Text.eq_ended_or line with hline | hline
    · rw [hline] at hpiece
      rcases Yaml.mem_lines_append hbreak rfl hpiece with rfl | hpiece
      · exact hcut
      · exact hrest piece hpiece
    · rw [hline, List.append_assoc] at hpiece
      rcases Yaml.mem_lines_append hbreak rfl hpiece with rfl | hpiece
      · exact hcut
      · have hfeed : piece ∈ Yaml.lines ([] ++ '\n' :: rest) := hpiece
        rcases Yaml.mem_lines_append (fun c hc => absurd hc List.not_mem_nil) rfl hfeed
          with rfl | hpiece
        · rfl
        · exact hrest piece hpiece

/-! ## The verdict -/

/-- Of all values only null is reported as an empty document. -/
theorem eq_null_of_accept {v : Data} (h : accept v = .error .emptyDocument) : v = .null := by
  cases v with
  | null => rfl
  | mapping bindings =>
    rw [accept] at h
    split at h
    · exact absurd h (by simp)
    · exact absurd h (by simp)
  | bool | number | string | list => exact absurd h (by simp [accept])

/-- A block that is passed over, or that YAML reads and that is then reported as empty, holds no
value, as long as the lines that were looked at are YAML's lines. -/
theorem no_value_of_emptyDocument {t : Text}
    (h : isHollow t = true → OwnSpacing t ∨ OwnLinesHollow t) :
    (isHollow t = true → Yaml.HoldsNoValue t) ∧
      ∀ declared, resolve t declared = .yaml → validate t declared = .error .emptyDocument →
        ∀ v, Yaml.document t = .ok v → v = .null := by
  have hpassed : isHollow t = true → Yaml.HoldsNoValue t := fun hhollow =>
    Yaml.holdsNoValue_of_lines ((h hhollow).elim (ownLinesHollow_of_ownSpacing hhollow) id)
  refine ⟨hpassed, fun declared hyaml hempty v hv => ?_⟩
  cases hhollow : isHollow t with
  | true => exact (hpassed hhollow).eq_null hv
  | false =>
    have hread : read t .yaml = .ok v := by
      rw [read, hhollow, if_neg Bool.false_ne_true, Yaml.parse, hv]
      rfl
    rw [validate, hyaml, hread] at hempty
    exact eq_null_of_accept hempty

/-- A comment and markers, with a no-break space in the comment and a carriage return on the
line of the first marker. -/
def markersOnly : Text :=
  "\t# on_tcp_connect:\u00a01\r\n---\r \t\r\n...\n".toList

theorem markersOnly_empty :
    (isHollow markersOnly = true → OwnSpacing markersOnly ∨ OwnLinesHollow markersOnly) ∧
      isHollow markersOnly = true ∧ resolve markersOnly .yaml = .yaml ∧
      validate markersOnly .yaml = .error .emptyDocument ∧
      Yaml.HoldsNoValue markersOnly ∧ ∀ v, Yaml.document markersOnly = .ok v → v = .null := by
  have h : isHollow markersOnly = true → OwnSpacing markersOnly ∨ OwnLinesHollow markersOnly :=
    fun _ => .inr (List.all_eq_true.mp (by decide +kernel))
  have hhollow : isHollow markersOnly = true := by decide
  have hyaml : resolve markersOnly .yaml = .yaml := by decide
  have hempty : validate markersOnly .yaml = .error .emptyDocument := by decide
  exact ⟨h, hhollow, hyaml, hempty, (no_value_of_emptyDocument h).1 hhollow,
    (no_value_of_emptyDocument h).2 .yaml hyaml hempty⟩

/-- A comment that ends at a carriage return for YAML, with a policy behind it. -/
def returnedPolicy : Text :=
  "# note\ron_tcp_connect: []".toList

/- YAML reads a policy, and the block is reported as an empty document. -/
theorem returnedPolicy_passed_over :
    isHollow returnedPolicy = true ∧
      (∃ policy, Yaml.document returnedPolicy = .ok policy ∧ accept policy = .ok ()) ∧
      resolve returnedPolicy .yaml = .yaml ∧
      validate returnedPolicy .yaml = .error .emptyDocument := by
  have hpolicy : (Yaml.document returnedPolicy).map accept = .ok (.ok ()) := by decide +kernel
  exact ⟨by decide, map_eq_ok_iff.mp hpolicy, by decide, by decide⟩

end Policy
end PolicyLint
