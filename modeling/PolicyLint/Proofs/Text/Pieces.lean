/-
The pieces of a text between the occurrences of a character, and those of a path.

Cutting a text and joining the pieces undo each other, and a text that is put together
around a separator has the pieces of both of its parts.  A word without the separator stands
in the whole exactly when it stands in a piece.
-/
import PolicyLint.Text.Basic

namespace PolicyLint
namespace Text

variable {α : Type}

section Cutting

variable [DecidableEq α]

theorem pieces_append_sep (sep : α) (s t : List α) :
    pieces sep (s ++ sep :: t) = pieces sep s ++ pieces sep t := by
  induction s with
  | nil => rw [List.nil_append, pieces_sep, pieces_nil, List.singleton_append]
  | cons c s ih =>
    have hne := pieces_ne_nil sep s
    rw [List.cons_append]
    by_cases hc : c = sep
    · subst hc
      rw [pieces_sep, pieces_sep, ih, List.cons_append]
    · rw [pieces_cons hc, pieces_cons hc, ih]
      cases hp : pieces sep s with
      | nil => exact absurd hp hne
      | cons p ps => rfl

theorem pieces_of_not_mem {sep : α} {t : List α} (h : sep ∉ t) : pieces sep t = [t] := by
  induction t with
  | nil => rfl
  | cons c t ih =>
    rw [List.mem_cons, not_or] at h
    rw [pieces_cons (Ne.symm h.1), ih h.2]
    rfl

theorem not_mem_of_mem_pieces {sep : α} {t p : List α} (h : p ∈ pieces sep t) : sep ∉ p := by
  induction t generalizing p with
  | nil =>
    rw [pieces_nil, List.mem_singleton] at h
    rw [h]
    exact List.not_mem_nil
  | cons c t ih =>
    have hne := pieces_ne_nil sep t
    by_cases hc : c = sep
    · subst hc
      rw [pieces_sep, List.mem_cons] at h
      rcases h with rfl | h
      · exact List.not_mem_nil
      · exact ih h
    · rw [pieces_cons hc, List.mem_cons] at h
      cases hp : pieces sep t with
      | nil => exact absurd hp hne
      | cons q qs =>
        rw [hp] at h ih
        rcases h with rfl | h
        · rw [List.mem_cons, not_or]
          exact ⟨Ne.symm hc, ih List.mem_cons_self⟩
        · exact ih (List.mem_cons_of_mem q h)

theorem pieces_join {sep : α} {ps : List (List α)} (hne : ps ≠ []) (h : ∀ p ∈ ps, sep ∉ p) :
    pieces sep (join [sep] ps) = ps := by
  induction ps with
  | nil => exact absurd rfl hne
  | cons p ps ih =>
    have hp := h p List.mem_cons_self
    cases ps with
    | nil =>
      rw [show join [sep] [p] = p by simp [join]]
      exact pieces_of_not_mem hp
    | cons q qs =>
      rw [join_cons_cons, List.append_assoc, List.singleton_append, pieces_append_sep,
        pieces_of_not_mem hp, ih (by simp) fun r hr => h r (List.mem_cons_of_mem p hr)]
      rfl

/-- Texts that are each ended by the separator are the pieces, with an empty one behind them. -/
theorem pieces_ended {sep : α} {ps : List (List α)} (h : ∀ p ∈ ps, sep ∉ p) :
    pieces sep (ps.map (· ++ [sep])).flatten = ps ++ [[]] := by
  induction ps with
  | nil => rfl
  | cons p ps ih =>
    rw [List.map_cons, List.flatten_cons, List.append_assoc, List.singleton_append,
      pieces_append_sep, pieces_of_not_mem (h p List.mem_cons_self),
      ih fun q hq => h q (List.mem_cons_of_mem p hq)]
    rfl

end Cutting

/-! ## Words in pieces -/

theorem prefix_of_prefix_append_sep {sep : α} {word s t : List α} (h : sep ∉ word)
    (hw : word <+: s ++ sep :: t) : word <+: s := by
  induction s generalizing word with
  | nil =>
    cases word with
    | nil => exact List.nil_prefix
    | cons c word =>
      obtain ⟨rfl, -⟩ := List.cons_prefix_cons.mp hw
      exact absurd List.mem_cons_self h
  | cons d s ih =>
    cases word with
    | nil => exact List.nil_prefix
    | cons c word =>
      rw [List.cons_append, List.cons_prefix_cons] at hw
      exact List.cons_prefix_cons.mpr ⟨hw.1, ih (fun hmem => h (List.mem_cons_of_mem c hmem)) hw.2⟩

/- What reaches over the separator holds it. -/
theorem infix_append_sep {sep : α} {word : List α} (h : sep ∉ word) (s t : List α) :
    word <:+: s ++ sep :: t ↔ word <:+: s ∨ word <:+: t := by
  induction s with
  | nil =>
    rw [List.nil_append, List.infix_cons_iff, List.infix_nil]
    refine or_congr_left ⟨fun hw => ?_, fun hw => hw ▸ List.nil_prefix⟩
    exact List.prefix_nil.mp (prefix_of_prefix_append_sep (s := []) h hw)
  | cons c s ih =>
    rw [List.cons_append, List.infix_cons_iff, ih, ← or_assoc, List.infix_cons_iff (a := c)]
    refine or_congr_left (or_congr_left ⟨fun hw => ?_, fun hw => ?_⟩)
    · exact prefix_of_prefix_append_sep (s := c :: s) h hw
    · exact hw.trans (List.prefix_append (c :: s) (sep :: t))

theorem infix_join {sep : α} {word : List α} (h : sep ∉ word) (hne : word ≠ [])
    (ps : List (List α)) : word <:+: join [sep] ps ↔ ∃ p ∈ ps, word <:+: p := by
  induction ps with
  | nil =>
    rw [join, List.infix_nil]
    constructor
    · exact fun hw => absurd hw hne
    · rintro ⟨p, hp, -⟩
      exact absurd hp List.not_mem_nil
  | cons p ps ih =>
    cases ps with
    | nil =>
      rw [show join [sep] [p] = p by simp [join]]
      simp
    | cons q qs =>
      rw [join_cons_cons, List.append_assoc, List.singleton_append, infix_append_sep h, ih]
      simp only [List.mem_cons, exists_eq_or_imp]

end Text

end PolicyLint
