/-
Carriage returns in front of line feeds.

A line may end in a line feed alone or in a carriage return and a line feed.  Which of the two
it is shows neither in the words that begin lines nor in what a text begins with, and a text
that has no carriage return in front of a line feed keeps its lines.
-/
import PolicyLint.Proofs.Text.LineStart

namespace PolicyLint
namespace Text

/-- The second text is the first one with a carriage return put in front of some of its line
feeds. -/
inductive WithReturns : Text → Text → Prop
  | nil : WithReturns [] []
  | keep (c : Char) {t u : Text} (h : WithReturns t u) : WithReturns (c :: t) (c :: u)
  | feed {t u : Text} (h : WithReturns t u) : WithReturns ('\n' :: t) ('\r' :: '\n' :: u)

namespace WithReturns

variable {t u word : Text}

theorem refl : ∀ t : Text, WithReturns t t
  | [] => .nil
  | c :: t => .keep c (refl t)

theorem line (line : Text) (h : WithReturns t u) :
    WithReturns (line ++ '\n' :: t) (line ++ '\r' :: '\n' :: u) := by
  induction line with
  | nil => exact .feed h
  | cons c line ih => exact .keep c ih

/- A line feed and the carriage return in front of it both end the word. -/
theorem prefix_iff (h : WithReturns t u) (hfeed : '\n' ∉ word) (hreturn : '\r' ∉ word) :
    word <+: u ↔ word <+: t := by
  induction h generalizing word with
  | nil => rfl
  | keep c h ih =>
    cases word with
    | nil => simp
    | cons d word =>
      rw [List.mem_cons, not_or] at hfeed hreturn
      rw [List.cons_prefix_cons, List.cons_prefix_cons, ih hfeed.2 hreturn.2]
  | feed h ih =>
    cases word with
    | nil => simp
    | cons d word =>
      rw [List.mem_cons, not_or] at hfeed hreturn
      rw [List.cons_prefix_cons, List.cons_prefix_cons]
      exact iff_of_false (fun hd => hreturn.1 hd.1.symm) (fun hd => hfeed.1 hd.1.symm)

theorem feed_infix_iff (h : WithReturns t u) (hfeed : '\n' ∉ word) (hreturn : '\r' ∉ word) :
    '\n' :: word <:+: u ↔ '\n' :: word <:+: t := by
  induction h with
  | nil => rfl
  | keep c h ih =>
    rw [List.infix_cons_iff, List.infix_cons_iff, List.cons_prefix_cons, List.cons_prefix_cons,
      h.prefix_iff hfeed hreturn, ih]
  | @feed t u h ih =>
    have hskip : ¬('\n' = '\r' ∧ word <+: '\n' :: u) := fun hd => absurd hd.1 (by decide)
    rw [List.infix_cons_iff, List.cons_prefix_cons, or_iff_right hskip, List.infix_cons_iff,
      List.infix_cons_iff, List.cons_prefix_cons, List.cons_prefix_cons,
      h.prefix_iff hfeed hreturn, ih]

theorem beginsLine_iff (h : WithReturns t u) (hfeed : '\n' ∉ word) (hreturn : '\r' ∉ word) :
    BeginsLine word u ↔ BeginsLine word t :=
  or_congr (h.prefix_iff hfeed hreturn) (h.feed_infix_iff hfeed hreturn)

theorem trimStart (h : WithReturns t u) : WithReturns (trimStart t) (trimStart u) := by
  induction h with
  | nil => exact .nil
  | @keep c t u h ih =>
    cases hc : isBlank c with
    | true =>
      rw [Text.trimStart, Text.trimStart, List.dropWhile_cons_of_pos hc,
        List.dropWhile_cons_of_pos hc]
      exact ih
    | false =>
      rw [Text.trimStart, Text.trimStart, List.dropWhile_cons_of_neg (by simp [hc]),
        List.dropWhile_cons_of_neg (by simp [hc])]
      exact .keep c h
  | feed h ih =>
    rw [Text.trimStart, Text.trimStart, List.dropWhile_cons_of_pos (by decide),
      List.dropWhile_cons_of_pos (by decide), List.dropWhile_cons_of_pos (by decide)]
    exact ih

theorem head?_eq (h : WithReturns t u) (hfeed : t.head? ≠ some '\n') : u.head? = t.head? := by
  cases h with
  | nil => rfl
  | keep c h => rfl
  | feed h => exact absurd rfl hfeed

theorem head?_trimStart (h : WithReturns t u) :
    (Text.trimStart u).head? = (Text.trimStart t).head? := by
  refine h.trimStart.head?_eq fun hhead => ?_
  have hfirst := List.head?_dropWhile_not isBlank t
  rw [Text.trimStart] at hhead
  rw [hhead] at hfirst
  exact absurd hfirst (by decide)

/-! ## The lines -/

theorem eq_of_no_feed (h : WithReturns t u) (hfeed : '\n' ∉ t) : u = t := by
  induction h with
  | nil => rfl
  | keep c h ih => rw [ih fun hmem => hfeed (List.mem_cons_of_mem c hmem)]
  | feed h => exact absurd List.mem_cons_self hfeed

theorem exists_line {line rest : Text} (hline : '\n' ∉ line)
    (h : WithReturns (line ++ '\n' :: rest) u) :
    ∃ v, WithReturns rest v ∧ (u = line ++ '\n' :: v ∨ u = line ++ ['\r'] ++ '\n' :: v) := by
  induction line generalizing u with
  | nil =>
    cases h with
    | keep c h => exact ⟨_, h, .inl rfl⟩
    | feed h => exact ⟨_, h, .inr rfl⟩
  | cons c line ih =>
    rw [List.mem_cons, not_or] at hline
    cases h with
    | keep c h =>
      obtain ⟨v, hv, hu⟩ := ih hline.2 h
      refine ⟨v, hv, hu.imp (fun hu => ?_) fun hu => ?_⟩
      · rw [hu, List.cons_append]
      · rw [hu, List.cons_append, List.cons_append]
    | feed h => exact absurd rfl hline.1

/- Every line ends in one carriage return at most, so the one that is put there is the one that
belongs to the line end. -/
theorem lines_eq (h : WithReturns t u) (hnone : ¬['\r', '\n'] <:+: t) : lines u = lines t := by
  induction t using induction_on_lines generalizing u with
  | last line hline => rw [h.eq_of_no_feed hline]
  | cons line rest hline ih =>
    obtain ⟨v, hv, hu⟩ := h.exists_line hline
    have hrest : lines v = lines rest := by
      refine ih hv fun hin => hnone (hin.trans ?_)
      exact ⟨line ++ ['\n'], [], by simp⟩
    have hended : ended line = line := by
      refine (eq_ended_or line).elim Eq.symm fun hreturn => absurd ?_ hnone
      rw [hreturn]
      exact ⟨ended line, rest, by simp⟩
    rcases hu with hu | hu
    · rw [hu, lines_cons hline, lines_cons hline, hrest]
    · have hreturned : '\n' ∉ line ++ ['\r'] := by
        rw [List.mem_append, not_or]
        exact ⟨hline, by decide⟩
      rw [hu, lines_cons hreturned, lines_cons hline, ended_return, hended, hrest]

end WithReturns

end Text
end PolicyLint
