/-
Which format a block is read in.

The format is found on the trimmed text, line by line.  Said of the text as it stands, only
its first character that is not white space can be a brace, and a policy key counts where it
comes first of all or directly behind a line feed.  So neither white space at the end nor
carriage returns in front of line feeds make a difference.
-/
import PolicyLint.Proofs.Policy.DeclaredFormat
import PolicyLint.Proofs.Text.Returns

namespace PolicyLint
namespace Policy

/-- A policy key is the first thing in the text that is not white space, or stands at the
beginning of the text or directly behind a line feed. -/
def HasLeadingKey (t : Text) : Prop :=
  ∃ k ∈ keys, k <+: Text.trimStart t ∨ Text.BeginsLine k t

instance (t : Text) : Decidable (HasLeadingKey t) :=
  inferInstanceAs (Decidable (∃ k ∈ keys, k <+: Text.trimStart t ∨ k <+: t ∨ '\n' :: k <:+: t))

theorem ne_nil_of_mem_keys {k : Text} (hk : k ∈ keys) : k ≠ [] := by
  have hall : (keys.all fun k => decide (k ≠ [])) = true := by decide
  exact of_decide_eq_true (List.all_eq_true.mp hall k hk)

theorem isBlank_of_mem_keys {k : Text} (hk : k ∈ keys) : ∀ c ∈ k, Text.isBlank c = false := by
  have hall : (keys.all fun k => k.all fun c => !Text.isBlank c) = true := by decide
  intro c hc
  exact Bool.not_eq_true' _ |>.mp (List.all_eq_true.mp (List.all_eq_true.mp hall k hk) c hc)

theorem not_mem_of_mem_keys {k : Text} (hk : k ∈ keys) {c : Char} (hc : Text.isBlank c = true) :
    c ∉ k := by
  intro hmem
  rw [isBlank_of_mem_keys hk c hmem] at hc
  exact Bool.noConfusion hc

/-- The lines of the trimmed text begin with the same keys as the text and its lines. -/
theorem hasLeadingKey_iff {t : Text} :
    (Text.lines (Text.trim t)).any startsWithKey = true ↔ HasLeadingKey t := by
  have hkey : ∀ k ∈ keys, (∃ line ∈ Text.lines (Text.trim t), k <+: line) ↔
      k <+: Text.trimStart t ∨ Text.BeginsLine k t := by
    intro k hk
    rw [Text.exists_line_iff_beginsLine (ne_nil_of_mem_keys hk)
        (not_mem_of_mem_keys hk (by decide)) (not_mem_of_mem_keys hk (by decide)),
      Text.beginsLine_trim (ne_nil_of_mem_keys hk) (isBlank_of_mem_keys hk)]
  rw [hasKeyLine_iff]
  constructor
  · rintro ⟨line, hline, k, hk, hprefix⟩
    exact ⟨k, hk, (hkey k hk).mp ⟨line, hline, hprefix⟩⟩
  · rintro ⟨k, hk, hleads⟩
    obtain ⟨line, hline, hprefix⟩ := (hkey k hk).mpr hleads
    exact ⟨line, hline, k, hk, hprefix⟩

/-- The format said of the text as it stands. -/
theorem resolve_eq_ite (t : Text) (declared : Format) :
    resolve t declared =
      if (Text.trimStart t).head? = some '\x7b' then .json
      else if HasLeadingKey t then .yaml
      else declared := by
  rw [resolve, Text.head?_trim_eq_trimStart]
  simp only [hasLeadingKey_iff]

theorem hasLeadingKey_withReturns {t u : Text} (h : Text.WithReturns t u) :
    HasLeadingKey u ↔ HasLeadingKey t := by
  refine exists_congr fun k => and_congr_right fun hk => ?_
  have hfeed : '\n' ∉ k := not_mem_of_mem_keys hk (by decide)
  have hreturn : '\r' ∉ k := not_mem_of_mem_keys hk (by decide)
  rw [h.trimStart.prefix_iff hfeed hreturn, h.beginsLine_iff hfeed hreturn]

/-- A key that has something other than white space before it, and no line feed directly before
it, is not at one of the places that count. -/
theorem not_hasLeadingKey {t : Text}
    (h : ∀ k ∈ keys, ∀ front back, t = front ++ k ++ back →
      (∃ c ∈ front, Text.isBlank c = false) ∧ front.getLast? ≠ some '\n') :
    ¬HasLeadingKey t := by
  rintro ⟨k, hk, ⟨back, hback⟩ | ⟨back, hback⟩ | ⟨front, back, hback⟩⟩
  · have hsplit : t = t.takeWhile Text.isBlank ++ k ++ back := by
      rw [List.append_assoc, hback, Text.trimStart, List.takeWhile_append_dropWhile]
    obtain ⟨⟨c, hc, hblank⟩, -⟩ := h k hk _ back hsplit
    rw [List.all_eq_true.mp List.all_takeWhile c hc] at hblank
    exact Bool.noConfusion hblank
  · obtain ⟨⟨c, hc, -⟩, -⟩ := h k hk [] back hback.symm
    exact absurd hc List.not_mem_nil
  · have hsplit : t = front ++ ['\n'] ++ k ++ back := by
      rw [← hback]
      simp only [List.append_assoc, List.cons_append, List.nil_append]
    obtain ⟨-, hlast⟩ := h k hk _ back hsplit
    exact hlast List.getLast?_concat

/-- The format of a block by the places of braces and keys in its text.  A brace at the first
character that is not white space means JSON, a key there, at the very beginning or behind a
line feed YAML.  Keys at other places never count, and nothing changes when white space is added
at the end or carriage returns are put in front of line feeds. -/
theorem resolve_by_position (t : Text) (declared : Format) :
    resolve t declared =
        (if (Text.trimStart t).head? = some '\x7b' then .json
        else if HasLeadingKey t then .yaml
        else declared) ∧
      ((Text.trimStart t).head? ≠ some '\x7b' →
        (∀ k ∈ keys, ∀ front back, t = front ++ k ++ back →
          (∃ c ∈ front, Text.isBlank c = false) ∧ front.getLast? ≠ some '\n') →
        resolve t declared = declared) ∧
      (∀ w : Text, (∀ c ∈ w, Text.isBlank c = true) →
        resolve (t ++ w) declared = resolve t declared) ∧
      (∀ u, Text.WithReturns t u → resolve u declared = resolve t declared) := by
  refine ⟨resolve_eq_ite t declared, fun hbrace hkeys => ?_, fun w hw => ?_, fun u hu => ?_⟩
  · rw [resolve_eq_ite, if_neg hbrace, if_neg (not_hasLeadingKey hkeys)]
  · rw [resolve, resolve, Text.trim_append_trailing hw]
  · rw [resolve_eq_ite, resolve_eq_ite, hu.head?_trimStart]
    simp only [hasLeadingKey_withReturns hu]

end Policy
end PolicyLint
