/-
Words at the beginnings of lines.

A word begins a line when it stands at the beginning of the text or behind a line feed.
White space around the text does not hide such a word, but can make one more word begin a
line: the first word of a text that begins with blanks.
-/
import Mathlib.Data.List.Induction
import PolicyLint.Proofs.Text.Line
import PolicyLint.Proofs.Text.Pieces

namespace PolicyLint
namespace Text

/-- The word stands at the beginning of the text or directly behind a line feed. -/
def BeginsLine (word t : Text) : Prop :=
  word <+: t ∨ '\n' :: word <:+: t

/-- Behind a line that is ended, the lines of the rest begin. -/
theorem feed_infix_line {line : Text} (h : '\n' ∉ line) (word rest : Text) :
    '\n' :: word <:+: line ++ '\n' :: rest ↔ BeginsLine word rest := by
  induction line with
  | nil => rw [List.nil_append, List.infix_cons_iff, List.cons_prefix_cons, BeginsLine, eq_self,
      true_and]
  | cons c line ih =>
    rw [List.mem_cons, not_or] at h
    have hc : ¬('\n' :: word <+: c :: (line ++ '\n' :: rest)) :=
      fun hprefix => h.1 (List.cons_prefix_cons.mp hprefix).1
    rw [List.cons_append, List.infix_cons_iff, or_iff_right hc, ih h.2]

theorem not_infix_of_no_feed {line : Text} (h : '\n' ∉ line) (word : Text) :
    ¬('\n' :: word <:+: line) :=
  fun hword => h (hword.subset List.mem_cons_self)

/-- A carriage return at the end of a line is no part of a word that begins the line. -/
theorem prefix_ended {word : Text} (h : '\r' ∉ word) (line : Text) :
    word <+: ended line ↔ word <+: line := by
  refine ⟨fun hprefix => hprefix.trans (ended_isPrefix line), fun hprefix => ?_⟩
  rcases List.eq_nil_or_concat line with hnil | ⟨front, c, hline⟩
  · rw [hnil] at hprefix ⊢
    exact hprefix
  · rw [List.concat_eq_append] at hline
    by_cases hc : c = '\r'
    · rw [hline, hc, ended_return]
      rw [hline, hc] at hprefix
      exact prefix_of_prefix_append_sep h hprefix
    · rw [hline, ended_of_ne_return hc, ← hline]
      exact hprefix

/-- Beginnings of lines are the places that lines are read from. -/
theorem exists_line_iff_beginsLine {word : Text} (hne : word ≠ []) (hfeed : '\n' ∉ word)
    (hreturn : '\r' ∉ word) (t : Text) :
    (∃ line ∈ lines t, word <+: line) ↔ BeginsLine word t := by
  induction t using induction_on_lines with
  | last line h =>
    rw [lines_last h, BeginsLine, or_iff_left (not_infix_of_no_feed h word)]
    cases line with
    | nil => simp [hne]
    | cons c line => simp
  | cons line rest h ih =>
    have hprefix : word <+: line ↔ word <+: line ++ '\n' :: rest :=
      ⟨fun hw => hw.trans (List.prefix_append _ _), prefix_of_prefix_append_sep hfeed⟩
    rw [lines_cons h, BeginsLine, feed_infix_line h, ← ih, ← hprefix, ← prefix_ended hreturn line]
    simp only [List.mem_cons, exists_eq_or_imp]

/-! ## White space around the text -/

section Trimmed

variable {word : Text} {last : Char}

/-- A word that does not end in white space stands in front of white space at the end. -/
theorem prefix_append_blank (hlast : isBlank last = false) {gap : Text}
    (hgap : ∀ c ∈ gap, isBlank c = true) (s : Text) :
    word ++ [last] <+: s ++ gap ↔ word ++ [last] <+: s := by
  induction gap using List.reverseRecOn with
  | nil => rw [List.append_nil]
  | append_singleton gap c ih =>
    have hne : word ++ [last] ≠ s ++ gap ++ [c] := by
      intro h
      have hc := hgap c (List.mem_append_right _ List.mem_cons_self)
      rw [← List.singleton_inj.mp (List.append_inj' h rfl).2, hlast] at hc
      exact Bool.noConfusion hc
    rw [← List.append_assoc, List.prefix_concat_iff, or_iff_right hne,
      ih fun d hd => hgap d (List.mem_append_left _ hd)]

theorem infix_append_blank (hlast : isBlank last = false) {gap : Text}
    (hgap : ∀ c ∈ gap, isBlank c = true) (s : Text) :
    word ++ [last] <:+: s ++ gap ↔ word ++ [last] <:+: s := by
  induction gap using List.reverseRecOn with
  | nil => rw [List.append_nil]
  | append_singleton gap c ih =>
    have hsuffix : ¬word ++ [last] <:+ s ++ gap ++ [c] := by
      rintro ⟨front, h⟩
      have hc := hgap c (List.mem_append_right _ List.mem_cons_self)
      rw [← List.append_assoc] at h
      rw [← List.singleton_inj.mp (List.append_inj' h rfl).2, hlast] at hc
      exact Bool.noConfusion hc
    rw [← List.append_assoc, List.infix_concat_iff, or_iff_right hsuffix,
      ih fun d hd => hgap d (List.mem_append_left _ hd)]

end Trimmed

theorem prefix_trimStart {first : Char} {word t : Text} (hfirst : isBlank first = false)
    (h : first :: word <+: t) : first :: word <+: trimStart t := by
  cases t with
  | nil => exact absurd (List.prefix_nil.mp h) (List.cons_ne_nil _ _)
  | cons c t =>
    rw [(List.cons_prefix_cons.mp h).1] at hfirst
    rw [trimStart, List.dropWhile_cons_of_neg (by simp [hfirst])]
    exact h

/- A line feed in the white space that is taken away has the first word of all behind it, or
another place in that white space. -/
theorem beginsLine_trimStart {first : Char} {word : Text} (hfirst : isBlank first = false)
    (t : Text) :
    BeginsLine (first :: word) (trimStart t) ↔
      first :: word <+: trimStart t ∨ BeginsLine (first :: word) t := by
  induction t with
  | nil => simp [trimStart, BeginsLine]
  | cons c t ih =>
    cases hc : isBlank c with
    | false => rw [trimStart, List.dropWhile_cons_of_neg (by simp [hc]), BeginsLine, or_self_left]
    | true =>
      rw [trimStart, List.dropWhile_cons_of_pos hc, ← trimStart, ih]
      constructor
      · rintro (h | h | h)
        · exact .inl h
        · exact .inl (prefix_trimStart hfirst h)
        · exact .inr (.inr (List.infix_cons_iff.mpr (.inr h)))
      · rintro (h | h | h)
        · exact .inl h
        · rw [(List.cons_prefix_cons.mp h).1, hc] at hfirst
          exact Bool.noConfusion hfirst
        · rcases List.infix_cons_iff.mp h with h | h
          · exact .inl (prefix_trimStart hfirst (List.cons_prefix_cons.mp h).2)
          · exact .inr (.inr h)

/-- The words that begin a line of the trimmed text: one that comes first behind the white space
at the beginning, and those that begin a line of the text itself. -/
theorem beginsLine_trim {word : Text} (hne : word ≠ []) (hword : ∀ c ∈ word, isBlank c = false)
    (t : Text) : BeginsLine word (trim t) ↔ word <+: trimStart t ∨ BeginsLine word t := by
  obtain ⟨gap, hgap, hstart⟩ := exists_trimStart_eq t
  obtain ⟨front, last, hlast⟩ := (List.eq_nil_or_concat word).resolve_left hne
  rw [List.concat_eq_append] at hlast
  have hblank : isBlank last = false := hword last (by simp [hlast])
  have hend : BeginsLine word (trim t) ↔ BeginsLine word (trimStart t) := by
    rw [hstart, BeginsLine, BeginsLine, hlast, prefix_append_blank hblank hgap, ← List.cons_append,
      infix_append_blank hblank hgap]
  cases word with
  | nil => exact absurd rfl hne
  | cons first word => rw [hend, beginsLine_trimStart (hword first List.mem_cons_self)]

end Text
end PolicyLint
