/-
What the declared format of a block can change.

A text that begins with a brace, or has a line that begins with a policy key, settles
its format by itself.  Any other text is read as declared.  Read as JSON it is then no
object, because an object begins with a brace and what JSON counts as white space is
white space; so declaring such a block JSON never gets it accepted.
-/
import PolicyLint.Policy
import PolicyLint.Proofs.Json.Reading
import PolicyLint.Proofs.Text.Blank

namespace PolicyLint
namespace Policy

/-- White space around it aside, the text begins with a brace or has a line that begins
with a policy key. -/
def SettlesFormat (t : Text) : Prop :=
  (Text.trim t).head? = some '\x7b' ∨
    ∃ line ∈ Text.lines (Text.trim t), ∃ k ∈ keys, k <+: line

theorem startsWithKey_iff {t : Text} : startsWithKey t = true ↔ ∃ k ∈ keys, k <+: t := by
  simp only [startsWithKey, List.any_eq_true, List.isPrefixOf_iff_prefix]

theorem hasKeyLine_iff {t : Text} :
    (Text.lines t).any startsWithKey = true ↔ ∃ line ∈ Text.lines t, ∃ k ∈ keys, k <+: line := by
  simp only [List.any_eq_true, startsWithKey_iff]

theorem resolve_of_settlesFormat {t : Text} (h : SettlesFormat t) (f g : Format) :
    resolve t f = resolve t g := by
  rw [resolve, resolve]
  by_cases hbrace : (Text.trim t).head? = some '\x7b'
  · rw [if_pos hbrace, if_pos hbrace]
  · have hline : (Text.lines (Text.trim t)).any startsWithKey = true := by
      rw [hasKeyLine_iff]
      exact h.resolve_left hbrace
    rw [if_neg hbrace, if_pos hline, if_neg hbrace, if_pos hline]

theorem resolve_of_not_settlesFormat {t : Text} (h : ¬SettlesFormat t) (f : Format) :
    resolve t f = f := by
  have hbrace : (Text.trim t).head? ≠ some '\x7b' := fun hbrace => h (.inl hbrace)
  have hline : ¬(Text.lines (Text.trim t)).any startsWithKey = true := by
    rw [hasKeyLine_iff]
    exact fun hline => h (.inr hline)
  rw [resolve, if_neg hbrace, if_neg hline]

/-! ## Objects -/

theorem isBlank_of_isSpace {c : Char} (h : Json.isSpace c = true) : Text.isBlank c = true := by
  simp only [Json.isSpace, Bool.or_eq_true, decide_eq_true_eq] at h
  rcases h with ((h | h) | h) | h <;> subst h <;> decide

/-- The text of an object begins with a brace, also where more than the white space of
JSON is trimmed away. -/
theorem head?_trim_of_mapping {t : Text} {bindings : List (Text × Data)}
    (h : Json.document t = .ok (.mapping bindings)) : (Text.trim t).head? = some '\x7b' := by
  obtain ⟨rest, hvalue, -⟩ := Json.document_ok h
  obtain ⟨more, hskip⟩ := Json.value_mapping hvalue
  have htrim : Text.trim (Json.skipSpace t) = Text.trim t :=
    Text.trim_dropWhile (fun c hc => isBlank_of_isSpace hc) t
  rw [← htrim, hskip]
  exact Text.head?_trim (by decide) more

/-! ## Verdicts -/

/-- A document that is no mapping is rejected for what it is. -/
theorem accept_of_not_mapping {d : Data} (h : ∀ bindings, d ≠ .mapping bindings) :
    accept d = .error .emptyDocument ∨ accept d = .error .rootNotObject := by
  cases d with
  | null => exact .inl rfl
  | mapping bindings => exact absurd rfl (h bindings)
  | bool b => exact .inr rfl
  | number n => exact .inr rfl
  | string s => exact .inr rfl
  | list items => exact .inr rfl

/-- Declaring a block JSON never accepts what declaring it YAML rejects.  If the text
settles its format, both declarations give the same verdict for the same reason; if
not, the block declared JSON cannot be read, is empty, or has a root that is no
object. -/
theorem validate_declared (t : Text) :
    (validate t .json = .ok () → validate t .yaml = .ok ()) ∧
      (SettlesFormat t → validate t .json = validate t .yaml) ∧
      (¬SettlesFormat t →
        (∃ message, validate t .json = .error (.unreadable message)) ∨
          validate t .json = .error .emptyDocument ∨
          validate t .json = .error .rootNotObject) := by
  have hsame : SettlesFormat t → validate t .json = validate t .yaml := by
    intro h
    rw [validate, resolve_of_settlesFormat h .json .yaml, validate]
  have hrejected : ¬SettlesFormat t →
      (∃ message, validate t .json = .error (.unreadable message)) ∨
        validate t .json = .error .emptyDocument ∨ validate t .json = .error .rootNotObject := by
    intro h
    rw [validate, resolve_of_not_settlesFormat h, read, Json.parse]
    cases hdoc : Json.document t with
    | error failure => exact .inl ⟨failure.message t, rfl⟩
    | ok d =>
      have hmapping : ∀ bindings, d ≠ .mapping bindings := by
        intro bindings hd
        rw [hd] at hdoc
        exact h (.inl (head?_trim_of_mapping hdoc))
      exact .inr (accept_of_not_mapping hmapping)
  refine ⟨fun hok => ?_, hsame, hrejected⟩
  by_cases h : SettlesFormat t
  · rw [← hsame h]
    exact hok
  · rcases hrejected h with ⟨message, he⟩ | he | he <;> rw [he] at hok <;> exact absurd hok (by simp)

end Policy
end PolicyLint
