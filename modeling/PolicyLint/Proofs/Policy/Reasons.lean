/-
Reasons that fit on a line.

Why a block is rejected is told in one line.  Most causes are told in fixed words; the others add
a character that is not a line feed, or numerals, of which the place behind them is made as well.
-/
import PolicyLint.Policy
import PolicyLint.Proofs.Except
import PolicyLint.Proofs.Json.Numeral
import PolicyLint.Proofs.Text.Line

namespace PolicyLint

/-! ## Texts on one line -/

namespace Text

/-- The text takes one line, and is not empty. -/
structure OneLine (t : Text) : Prop where
  ne_nil : t ≠ []
  no_feed : '\n' ∉ t

instance (t : Text) : Decidable (OneLine t) :=
  decidable_of_iff (t ≠ [] ∧ '\n' ∉ t) ⟨fun h => ⟨h.1, h.2⟩, fun h => ⟨h.1, h.2⟩⟩

theorem OneLine.append {s t : Text} (h : OneLine s) (ht : '\n' ∉ t) : OneLine (s ++ t) where
  ne_nil := List.append_ne_nil_of_left_ne_nil h.ne_nil t
  no_feed := by
    rw [List.mem_append, not_or]
    exact ⟨h.no_feed, ht⟩

/- The characters of a literal are taken as they stand, instead of being read from its bytes. -/
theorem OneLine.ofList {t : Text} (h : OneLine t) : OneLine (String.ofList t).toList := by
  rw [String.toList_ofList]
  exact h

theorem OneLine.append_string {s t : String} (h : OneLine s.toList) (ht : '\n' ∉ t.toList) :
    OneLine (s ++ t).toList := by
  rw [String.toList_append]
  exact h.append ht

theorem not_mem_numeral (n : Nat) : '\n' ∉ numeral n := by
  intro h
  exact absurd (Json.Number.isDigit_of_mem_numeral h) (by decide)

theorem not_mem_ofList_numeral (n : Nat) : '\n' ∉ (String.ofList (numeral n)).toList := by
  rw [String.toList_ofList]
  exact not_mem_numeral n

/-- A text stays on its line when a place is told behind it. -/
theorem OneLine.placed {s between : Text} (h : OneLine s) (hbetween : '\n' ∉ between)
    (line column : Nat) :
    OneLine (s ++ " at line ".toList ++ numeral line ++ between ++ numeral column) :=
  (((h.append (by decide)).append (not_mem_numeral line)).append hbetween).append
    (not_mem_numeral column)

end Text

/-! ## The readers' messages -/

theorem Json.Cause.oneLine (c : Json.Cause) : Text.OneLine c.message.toList := by
  cases c <;> exact .ofList (by decide)

theorem Json.Failure.oneLine (t : Text) (f : Json.Failure) : Text.OneLine (f.message t) := by
  unfold Json.Failure.message
  exact f.cause.oneLine.placed (by decide) _ _

/- Only three causes are not told in fixed words: one names a character and two tell numbers. -/
theorem Yaml.Cause.oneLine (c : Yaml.Cause) : Text.OneLine c.message.toList := by
  cases c with
  | unexpectedCharacter r =>
    have hname : '\n' ∉ r.text.toList := by cases r <;> decide
    exact .append_string (.append_string (.ofList (by decide)) hname) (by decide)
  | openAnchor id => exact .append_string (.ofList (by decide)) (Text.not_mem_ofList_numeral id)
  | aliasesPerAnchor aliases anchors =>
    have haliases := Text.not_mem_ofList_numeral aliases
    have hanchors := Text.not_mem_ofList_numeral anchors
    refine .append_string (.append_string (.append_string (.append_string (.ofList ?_) haliases)
      ?_) hanchors) ?_
    · decide
    · decide
    · decide
  | _ => exact .ofList (by decide)

theorem Yaml.Fault.oneLine (f : Yaml.Fault) : Text.OneLine f.message := by
  unfold Yaml.Fault.message
  exact f.cause.oneLine.placed (by decide) _ _

/-! ## Rejections -/

namespace Policy

/-- The YAML reader says why it stops in one line, so nothing of it is cut. -/
theorem read_yaml (t : Text) :
    read t .yaml = if isHollow t then .ok .null else (Yaml.parse t).mapError .unreadable := by
  rw [read, Yaml.parse]
  cases Yaml.document t with
  | ok v => rfl
  | error f =>
    have hwhole : Text.firstLine f.message = f.message :=
      Text.firstLine_of_no_feed f.oneLine.no_feed
    simp only [Except.mapError, hwhole]

theorem oneLine_of_read_error {t : Text} {format : Format} {why : Rejection}
    (h : read t format = .error why) : Text.OneLine why.message := by
  cases format with
  | json =>
    obtain ⟨m, hparse, rfl⟩ := mapError_eq_error_iff.mp h
    obtain ⟨f, -, rfl⟩ := mapError_eq_error_iff.mp hparse
    exact f.oneLine t
  | yaml =>
    rw [read_yaml] at h
    split at h
    · exact nomatch h
    · obtain ⟨m, hparse, rfl⟩ := mapError_eq_error_iff.mp h
      obtain ⟨f, -, rfl⟩ := mapError_eq_error_iff.mp hparse
      exact f.oneLine

theorem accept_error_cases {d : Data} {why : Rejection} (h : accept d = .error why) :
    why = .missingPolicyKey ∨ why = .emptyDocument ∨ why = .rootNotObject := by
  rw [accept.eq_def] at h
  split at h
  · split at h
    · exact nomatch h
    · exact .inl (Except.error.inj h).symm
  · exact .inr (.inl (Except.error.inj h).symm)
  · exact .inr (.inr (Except.error.inj h).symm)

/-- Whatever text is checked, why it is rejected is told in one line. -/
theorem oneLine_of_validate_error {t : Text} {declared : Format} {why : Rejection}
    (h : validate t declared = .error why) : Text.OneLine why.message := by
  rw [validate] at h
  cases hread : read t (resolve t declared) with
  | error why' =>
    rw [hread] at h
    obtain rfl : why' = why := Except.error.inj h
    exact oneLine_of_read_error hread
  | ok d =>
    rw [hread] at h
    rcases accept_error_cases h with rfl | rfl | rfl <;> decide

end Policy
end PolicyLint
