/-
The lines of texts that are put together.

A text is a last line, or a line, a line feed and a text.  So what is true of a last
line, and is kept when a line is put in front, is true of every text; the lines of a
text are found along the same way.
-/
import PolicyLint.Proofs.Text.Blank
import PolicyLint.Text.Line

namespace PolicyLint
namespace Text

/-- What is read of a line that a line feed ends: a carriage return at its end belongs
to the line end. -/
def ended (line : Text) : Text :=
  closeLine line.reverse

theorem ended_return (line : Text) : ended (line ++ ['\r']) = line := by
  rw [ended, List.reverse_concat, closeLine, List.reverse_reverse]

theorem ended_of_ne_return {c : Char} (h : c ≠ '\r') (line : Text) :
    ended (line ++ [c]) = line ++ [c] := by
  rw [ended, List.reverse_concat, closeLine, ← List.reverse_concat, List.reverse_reverse]
  intro rest hrest
  exact h (List.cons.inj hrest).1

theorem ended_isPrefix (line : Text) : ended line <+: line := by
  rcases List.eq_nil_or_concat line with h | ⟨front, c, h⟩
  · rw [h]
    exact List.prefix_refl []
  · rw [h, List.concat_eq_append]
    by_cases hc : c = '\r'
    · rw [hc, ended_return]
      exact List.prefix_append front ['\r']
    · have hended : ended (front ++ [c]) = front ++ [c] := ended_of_ne_return hc front
      exact ⟨[], by rw [hended, List.append_nil]⟩

theorem eq_ended_or (line : Text) : line = ended line ∨ line = ended line ++ ['\r'] := by
  rcases List.eq_nil_or_concat line with h | ⟨front, c, h⟩
  · rw [h]
    exact .inl rfl
  · rw [h, List.concat_eq_append]
    by_cases hc : c = '\r'
    · rw [hc, ended_return]
      exact .inr rfl
    · rw [ended_of_ne_return hc]
      exact .inl rfl

theorem trim_ended (line : Text) : trim (ended line) = trim line := by
  rcases List.eq_nil_or_concat line with h | ⟨front, c, h⟩
  · rw [h]
    rfl
  · rw [h, List.concat_eq_append]
    by_cases hc : c = '\r'
    · rw [hc, ended_return, trim_concat (by decide)]
    · rw [ended_of_ne_return hc]

/-! ## One line -/

theorem collect_line {line : Text} (h : '\n' ∉ line) (rest : Text) : ∀ front : Text,
    lines.collect [] front (line ++ '\n' :: rest) =
      closeLine (line.reverse ++ front) :: lines rest := by
  induction line with
  | nil =>
    intro front
    rw [List.nil_append, lines.collect, if_pos rfl, lines.collect_eq]
    rfl
  | cons c line ih =>
    intro front
    rw [List.mem_cons, not_or] at h
    rw [List.cons_append, lines.collect, if_neg (Ne.symm h.1), ih h.2, List.reverse_cons,
      List.append_assoc, List.singleton_append]

theorem collect_last {line : Text} (h : '\n' ∉ line) : ∀ front : Text,
    lines.collect [] front line =
      if (line.reverse ++ front).isEmpty then [] else [(line.reverse ++ front).reverse] := by
  induction line with
  | nil =>
    intro front
    cases front <;> rfl
  | cons c line ih =>
    intro front
    rw [List.mem_cons, not_or] at h
    rw [lines.collect, if_neg (Ne.symm h.1), ih h.2, List.reverse_cons, List.append_assoc,
      List.singleton_append]

theorem lines_cons {line : Text} (h : '\n' ∉ line) (rest : Text) :
    lines (line ++ '\n' :: rest) = ended line :: lines rest := by
  rw [lines, collect_line h, List.append_nil]
  rfl

theorem lines_last {line : Text} (h : '\n' ∉ line) :
    lines line = if line.isEmpty then [] else [line] := by
  rw [lines, collect_last h, List.append_nil, List.isEmpty_reverse, List.reverse_reverse]

theorem firstLine_of_no_feed {line : Text} (h : '\n' ∉ line) : firstLine line = line := by
  rw [firstLine, lines_last h]
  cases line <;> rfl

/-- Induction on a text by its lines. -/
theorem induction_on_lines {P : Text → Prop} (last : ∀ line : Text, '\n' ∉ line → P line)
    (cons : ∀ line rest : Text, '\n' ∉ line → P rest → P (line ++ '\n' :: rest)) (t : Text) :
    P t := by
  by_cases h : '\n' ∈ t
  · obtain ⟨line, rest, ht, hline⟩ := List.eq_append_cons_of_mem h
    have hrest : P rest := induction_on_lines last cons rest
    rw [ht]
    exact cons line rest hline hrest
  · exact last t h
termination_by t.length
decreasing_by
  rw [ht, List.length_append, List.length_cons]
  omega

/-! ## Several lines -/

theorem lines_append (s t : Text) : lines (s ++ '\n' :: t) = lines (s ++ ['\n']) ++ lines t := by
  induction s using induction_on_lines with
  | last line h =>
    rw [lines_cons h, lines_cons h]
    rfl
  | cons line rest h ih =>
    rw [List.append_assoc, List.cons_append, lines_cons h, ih, List.append_assoc,
      List.cons_append, lines_cons h, List.cons_append]

theorem length_lines_feed (t : Text) : (lines (t ++ ['\n'])).length = t.count '\n' + 1 := by
  induction t using induction_on_lines with
  | last line h =>
    rw [lines_cons h, List.count_eq_zero_of_not_mem h]
    rfl
  | cons line rest h ih =>
    rw [List.append_assoc, List.cons_append, lines_cons h, List.length_cons, ih,
      List.count_append, List.count_eq_zero_of_not_mem h, List.count_cons_self, Nat.zero_add]

/- A line feed at the end adds an empty line behind a line end, and ends a last line that
had none. -/
theorem lines_feed (t : Text) :
    lines (t ++ ['\n']) = lines t ++ [[]] ∨
      ∃ front last, lines t = front ++ [last] ∧ lines (t ++ ['\n']) = front ++ [ended last] := by
  induction t using induction_on_lines with
  | last line h =>
    rw [lines_cons h, lines_last h]
    cases line with
    | nil => exact .inl rfl
    | cons c line => exact .inr ⟨[], c :: line, rfl, rfl⟩
  | cons line rest h ih =>
    rw [List.append_assoc, List.cons_append, lines_cons h, lines_cons h]
    rcases ih with ih | ⟨front, last, hrest, hfeed⟩
    · left
      rw [ih, List.cons_append]
    · right
      refine ⟨ended line :: front, last, ?_, ?_⟩
      · rw [hrest, List.cons_append]
      · rw [hfeed, List.cons_append]

theorem not_mem_of_mem_lines {t line : Text} (h : line ∈ lines t) : '\n' ∉ line := by
  induction t using induction_on_lines with
  | last last hlast =>
    rw [lines_last hlast] at h
    split at h
    · exact absurd h List.not_mem_nil
    · rw [List.mem_singleton.mp h]
      exact hlast
  | cons first rest hfirst ih =>
    rw [lines_cons hfirst, List.mem_cons] at h
    rcases h with h | h
    · rw [h]
      exact fun hmem => hfirst ((ended_isPrefix first).subset hmem)
    · exact ih h

/-- Lines that are written one after the other are read again as they are. -/
theorem lines_written {ls : List Text} (h : ∀ line ∈ ls, '\n' ∉ line) :
    lines (ls.flatMap (· ++ ['\r', '\n'])) = ls := by
  induction ls with
  | nil => rfl
  | cons line ls ih =>
    have hline : '\n' ∉ line ++ ['\r'] := by
      rw [List.mem_append, not_or]
      exact ⟨h line List.mem_cons_self, by decide⟩
    have hsplit : ∀ rest : Text, line ++ ['\r', '\n'] ++ rest = line ++ ['\r'] ++ '\n' :: rest := by
      intro rest
      rw [List.append_assoc, List.append_assoc]
      rfl
    rw [List.flatMap_cons, hsplit, lines_cons hline, ended_return,
      ih fun l hl => h l (List.mem_cons_of_mem line hl)]

end Text
end PolicyLint
