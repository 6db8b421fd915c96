/-
Texts that hold nothing for the YAML reader.

The reader breaks lines at carriage returns as well as at line feeds, and knows no white space
but spaces and tabs.  A line holds nothing when it is blank, a comment or a document marker;
`Hollow` says the same of a text from a place on, character by character, as the reader goes
through it.
-/
import Mathlib.Data.List.DropRight
import PolicyLint.Yaml.Character

namespace PolicyLint
namespace Yaml

/-- The lines of a text, which ends before the first U+0000.  A carriage return and a line feed
together have an empty line between them here. -/
def lines (t : Text) : List Text :=
  (t.takeWhile (!isEnd ·)).splitOnP isBreak

/-- The line without the blanks at its two ends. -/
def trimBlanks (line : Text) : Text :=
  (line.dropWhile isBlank).rdropWhile isBlank

/-- True for a line that is blank, a comment, or a document marker between blanks. -/
def isHollowLine (line : Text) : Bool :=
  let body := trimBlanks line
  body.isEmpty || body.head? = some '#' || body = "---".toList || body = "...".toList

/-- Nothing but blanks is ahead on the line. -/
def EndsLine (t : Text) : Prop :=
  isBreakOrEnd ((t.dropWhile isBlank).headD '\x00') = true

/-- A document marker and what stands behind it. -/
def IsMarker (t rest : Text) : Prop :=
  ∃ m, (m = '-' ∨ m = '.') ∧ t = m :: m :: m :: rest ∧ EndsLine rest

/-- From a place that has only blanks before it on its line, the text holds nothing. -/
inductive Hollow : Text → Prop
  | finish : Hollow []
  | blank {c : Char} {t : Text} (hc : isBlank c = true) (h : Hollow t) : Hollow (c :: t)
  | lineBreak {c : Char} {t : Text} (hc : isBreak c = true) (h : Hollow t) : Hollow (c :: t)
  | comment {t : Text} (h : Hollow (t.dropWhile (!isBreakOrEnd ·))) : Hollow ('#' :: t)
  | marker {t rest : Text} (hm : IsMarker t rest) (h : Hollow rest) : Hollow t

theorem isBlank_ne_of_isBreakOrEnd {c : Char} (h : isBreakOrEnd c = true) : isBlank c = false := by
  simp only [isBreakOrEnd, isBreak, isEnd, Bool.or_eq_true, decide_eq_true_eq] at h
  rcases h with (rfl | rfl) | rfl <;> rfl

theorem isBreakOrEnd_of_isBreak {c : Char} (h : isBreak c = true) : isBreakOrEnd c = true := by
  rw [isBreakOrEnd, h, Bool.true_or]

/-- The signs of a marker are content. -/
theorem IsMarker.signs {t rest : Text} (h : IsMarker t rest) :
    ∃ m, (m = '-' ∨ m = '.') ∧ t = m :: m :: m :: rest ∧
      isBlank m = false ∧ isBreak m = false ∧ isEnd m = false ∧ m ≠ '#' := by
  obtain ⟨m, hm, ht, -⟩ := h
  refine ⟨m, hm, ht, ?_⟩
  rcases hm with rfl | rfl <;> exact ⟨rfl, rfl, rfl, by decide⟩

theorem IsMarker.endsLine {t rest : Text} (h : IsMarker t rest) : EndsLine rest := by
  obtain ⟨m, -, -, hend⟩ := h
  exact hend

theorem IsMarker.length_lt {t rest : Text} (h : IsMarker t rest) : rest.length < t.length := by
  obtain ⟨m, -, rfl, -⟩ := h
  rw [List.length_cons, List.length_cons, List.length_cons]
  omega

/-- White space is passed without a trace. -/
theorem Hollow.tail {c : Char} {t : Text} (h : Hollow (c :: t))
    (hc : isBlank c = true ∨ isBreak c = true) : Hollow t := by
  cases h with
  | blank _ h => exact h
  | lineBreak _ h => exact h
  | comment h => exact absurd hc (by decide)
  | marker hm h =>
    obtain ⟨m, -, ht, hblank, hbreak, -, -⟩ := hm.signs
    rw [(List.cons.inj ht).1, hblank, hbreak] at hc
    exact absurd hc (by simp)

theorem Hollow.dropBlanks {t : Text} (h : Hollow t) : Hollow (t.dropWhile isBlank) := by
  induction t with
  | nil => exact h
  | cons c t ih =>
    cases hc : isBlank c with
    | true =>
      rw [List.dropWhile_cons_of_pos hc]
      exact ih (h.tail (.inl hc))
    | false =>
      rw [List.dropWhile_cons_of_neg (by simp [hc])]
      exact h

theorem endsLine_cons {c : Char} {t : Text} (hc : isBlank c = true) :
    EndsLine (c :: t) ↔ EndsLine t := by
  rw [EndsLine, List.dropWhile_cons_of_pos hc, EndsLine]

theorem not_endsLine_cons {c : Char} {t : Text} (hblank : isBlank c = false)
    (hend : isBreakOrEnd c = false) : ¬EndsLine (c :: t) := by
  rw [EndsLine, List.dropWhile_cons_of_neg (by simp [hblank]), List.headD_cons, hend]
  exact Bool.false_ne_true

theorem EndsLine.append {w t : Text} (h : EndsLine t) (hw : ∀ c ∈ w, isBlank c = true) :
    EndsLine (w ++ t) := by
  rw [EndsLine, List.dropWhile_append_of_pos hw]
  exact h

theorem EndsLine.dropBlanks {t : Text} (h : EndsLine t) : EndsLine (t.dropWhile isBlank) := by
  induction t with
  | nil => exact h
  | cons c t ih =>
    cases hc : isBlank c with
    | true =>
      rw [List.dropWhile_cons_of_pos hc]
      exact ih ((endsLine_cons hc).mp h)
    | false =>
      rw [List.dropWhile_cons_of_neg (by simp [hc])]
      exact h

/-- What ends a line is a gap. -/
theorem EndsLine.isGap {t : Text} (h : EndsLine t) : isGap (t.headD '\x00') = true := by
  cases t with
  | nil => rfl
  | cons c t =>
    rw [List.headD_cons, Yaml.isGap]
    cases hc : isBlank c with
    | true => rfl
    | false =>
      rw [EndsLine, List.dropWhile_cons_of_neg (by simp [hc])] at h
      exact h

/-! ## From lines to texts -/

/-- The shapes of lines that hold nothing. -/
inductive HollowLine : Text → Prop
  | blanks {line : Text} (h : ∀ c ∈ line, isBlank c = true) : HollowLine line
  | comment {front words : Text} (h : ∀ c ∈ front, isBlank c = true) :
      HollowLine (front ++ '#' :: words)
  | marker {front back : Text} {m : Char} (hm : m = '-' ∨ m = '.')
      (hfront : ∀ c ∈ front, isBlank c = true) (hback : ∀ c ∈ back, isBlank c = true) :
      HollowLine (front ++ m :: m :: m :: back)

theorem trimBlanks_eq (line : Text) :
    ∃ front back : Text, (∀ c ∈ front, isBlank c = true) ∧ (∀ c ∈ back, isBlank c = true) ∧
      line = front ++ trimBlanks line ++ back := by
  refine ⟨line.takeWhile isBlank, (line.dropWhile isBlank).rtakeWhile isBlank,
    List.all_eq_true.mp List.all_takeWhile, fun c hc => List.mem_rtakeWhile_imp hc, ?_⟩
  rw [trimBlanks, List.append_assoc, List.rdropWhile_append_rtakeWhile,
    List.takeWhile_append_dropWhile]

theorem trimBlanks_append_front {front : Text} (h : ∀ c ∈ front, isBlank c = true) (t : Text) :
    trimBlanks (front ++ t) = trimBlanks t := by
  rw [trimBlanks, List.dropWhile_append_of_pos h, trimBlanks]

theorem trimBlanks_cons {c : Char} (h : isBlank c = false) (t : Text) :
    trimBlanks (c :: t) = (c :: t).rdropWhile isBlank := by
  rw [trimBlanks, List.dropWhile_cons_of_neg (by simp [h])]

theorem rdropWhile_append_back {back : Text} (h : ∀ c ∈ back, isBlank c = true) (t : Text) :
    (t ++ back).rdropWhile isBlank = t.rdropWhile isBlank := by
  rw [List.rdropWhile, List.reverse_append,
    List.dropWhile_append_of_pos fun c hc => h c (List.mem_reverse.mp hc), List.rdropWhile]

theorem HollowLine.isHollowLine {line : Text} (h : HollowLine line) : isHollowLine line = true := by
  unfold Yaml.isHollowLine
  cases h with
  | blanks h =>
    rw [← List.append_nil line, trimBlanks_append_front h]
    rfl
  | @comment front words h =>
    rw [trimBlanks_append_front h, trimBlanks_cons rfl]
    -- The sign itself is not trimmed.
    obtain ⟨back, hback⟩ := List.rdropWhile_prefix isBlank (l := '#' :: words)
    cases hbody : ('#' :: words).rdropWhile isBlank with
    | nil =>
      have hblank := List.rdropWhile_eq_nil_iff.mp hbody '#' List.mem_cons_self
      exact absurd hblank (by decide)
    | cons c body =>
      rw [hbody, List.cons_append] at hback
      rw [(List.cons.inj hback).1]
      rfl
  | @marker front back m hm hfront hback =>
    have hbody : trimBlanks (m :: m :: m :: back) = [m, m, m] := by
      have hback' := rdropWhile_append_back hback [m, m, m]
      rcases hm with rfl | rfl
      · exact (trimBlanks_cons rfl _).trans hback'
      · exact (trimBlanks_cons rfl _).trans hback'
    rw [trimBlanks_append_front hfront, hbody]
    rcases hm with rfl | rfl <;> rfl

theorem isHollowLine_iff {line : Text} : isHollowLine line = true ↔ HollowLine line := by
  refine ⟨fun h => ?_, HollowLine.isHollowLine⟩
  obtain ⟨front, back, hfront, hback, hline⟩ := trimBlanks_eq line
  unfold isHollowLine at h
  simp only [Bool.or_eq_true, List.isEmpty_iff, decide_eq_true_eq] at h
  rcases h with ((h | h) | h) | h
  · rw [h, List.append_nil] at hline
    refine .blanks fun c hc => ?_
    rw [hline, List.mem_append] at hc
    exact hc.elim (hfront c) (hback c)
  · obtain ⟨words, hwords⟩ := List.head?_eq_some_iff.mp h
    rw [hline, hwords, List.append_assoc, List.cons_append]
    exact .comment hfront
  · rw [hline, h, List.append_assoc]
    exact .marker (.inl rfl) hfront hback
  · rw [hline, h, List.append_assoc]
    exact .marker (.inr rfl) hfront hback

/-- The end of the text within a line leaves what holds nothing. -/
theorem HollowLine.cut {line : Text} (h : HollowLine line) :
    HollowLine (line.takeWhile (!isEnd ·)) := by
  have hblank : ∀ {gap : Text}, (∀ c ∈ gap, isBlank c = true) → ∀ c ∈ gap, (!isEnd c) = true :=
    fun hgap c hc => by
      have hc := hgap c hc
      simp only [isBlank, Bool.or_eq_true, decide_eq_true_eq] at hc
      rcases hc with rfl | rfl <;> rfl
  cases h with
  | blanks h => exact .blanks fun c hc => h c ((List.takeWhile_prefix _).subset hc)
  | comment h =>
    rw [List.takeWhile_append_of_pos (hblank h), List.takeWhile_cons_of_pos rfl]
    exact .comment h
  | @marker front back m hm hfront hback =>
    have hsigns : ∀ c ∈ [m, m, m], (!isEnd c) = true := by
      rcases hm with rfl | rfl <;> exact List.all_eq_true.mp rfl
    rw [List.takeWhile_append_of_pos (hblank hfront),
      show m :: m :: m :: back = [m, m, m] ++ back from rfl, List.takeWhile_append_of_pos hsigns,
      List.takeWhile_eq_self_iff.mpr (hblank hback)]
    exact .marker hm hfront hback

theorem Hollow.append_blanks {t : Text} (h : Hollow t) {w : Text} (hw : ∀ c ∈ w, isBlank c = true) :
    Hollow (w ++ t) := by
  induction w with
  | nil => exact h
  | cons c w ih =>
    exact .blank (hw c List.mem_cons_self) (ih fun d hd => hw d (List.mem_cons_of_mem c hd))

/-- A line that holds nothing in front of what holds nothing from the line's end on. -/
theorem HollowLine.append {line tail : Text} (h : HollowLine line)
    (hline : ∀ c ∈ line, isBreakOrEnd c = false)
    (htail : isBreakOrEnd (tail.headD '\x00') = true) (hhollow : Hollow tail) :
    Hollow (line ++ tail) := by
  have hend : EndsLine tail := by
    cases tail with
    | nil => rfl
    | cons c tail =>
      rw [List.headD_cons] at htail
      rw [EndsLine, List.dropWhile_cons_of_neg (by simp [isBlank_ne_of_isBreakOrEnd htail])]
      exact htail
  cases h with
  | blanks h => exact hhollow.append_blanks h
  | @comment front words h =>
    have hskip : (words ++ tail).dropWhile (!isBreakOrEnd ·) = tail := by
      rw [List.dropWhile_append_of_pos fun c hc => by
        rw [hline c (List.mem_append_right _ (List.mem_cons_of_mem _ hc)), Bool.not_false]]
      cases tail with
      | nil => rfl
      | cons c tail =>
        rw [List.headD_cons] at htail
        rw [List.dropWhile_cons_of_neg (by simp [htail])]
    rw [List.append_assoc, List.cons_append]
    refine Hollow.append_blanks (.comment ?_) h
    rw [hskip]
    exact hhollow
  | @marker front back m hm hfront hback =>
    rw [List.append_assoc]
    refine Hollow.append_blanks (.marker ⟨m, hm, ?_, hend.append hback⟩
      (hhollow.append_blanks hback)) hfront
    rfl

/-- The first break of a text, if there is one. -/
theorem exists_break (t : Text) :
    (∀ c ∈ t, isBreak c = false) ∨ ∃ (line : Text) (c : Char) (rest : Text),
      t = line ++ c :: rest ∧ (∀ d ∈ line, isBreak d = false) ∧ isBreak c = true := by
  induction t with
  | nil => exact .inl fun c hc => absurd hc List.not_mem_nil
  | cons c t ih =>
    cases hc : isBreak c with
    | true => exact .inr ⟨[], c, t, rfl, fun d hd => absurd hd List.not_mem_nil, hc⟩
    | false =>
      rcases ih with h | ⟨line, b, rest, ht, hline, hb⟩
      · exact .inl (List.forall_mem_cons.mpr ⟨hc, h⟩)
      · exact .inr ⟨c :: line, b, rest, by rw [ht, List.cons_append],
          List.forall_mem_cons.mpr ⟨hc, hline⟩, hb⟩

theorem hollow_of_splitOnP {t : Text} (hend : ∀ c ∈ t, isEnd c = false)
    (h : ∀ line ∈ t.splitOnP isBreak, isHollowLine line = true) : Hollow t := by
  have hfree : ∀ {line : Text}, (∀ c ∈ line, isBreak c = false) → (∀ c ∈ line, c ∈ t) →
      ∀ c ∈ line, isBreakOrEnd c = false := fun hline hsub c hc => by
    rw [isBreakOrEnd, hline c hc, hend c (hsub c hc), Bool.or_false]
  rcases exists_break t with hlast | ⟨line, c, rest, ht, hline, hc⟩
  · rw [List.splitOnP_eq_singleton hlast] at h
    have hhollow := (isHollowLine_iff.mp (h t (List.mem_singleton_self t))).append
      (hfree hlast fun c hc => hc) rfl .finish
    rwa [List.append_nil] at hhollow
  · rw [ht, List.splitOnP_append_cons_of_forall_mem hline c hc] at h
    have hrest : Hollow rest :=
      hollow_of_splitOnP
        (fun d hd => hend d (by rw [ht]; exact List.mem_append_right _ (List.mem_cons_of_mem c hd)))
        fun piece hmem => h piece (List.mem_cons_of_mem line hmem)
    have hmem : ∀ d ∈ line, d ∈ t := fun d hd => by
      rw [ht]
      exact List.mem_append_left _ hd
    rw [ht]
    exact (isHollowLine_iff.mp (h line List.mem_cons_self)).append (hfree hline hmem)
      (isBreakOrEnd_of_isBreak hc) (.lineBreak hc hrest)
termination_by t.length
decreasing_by
  rw [ht, List.length_append, List.length_cons]
  omega

/-- A text whose lines all hold nothing holds nothing as far as the reader reads it. -/
theorem hollow_of_lines {t : Text} (h : ∀ line ∈ lines t, isHollowLine line = true) :
    Hollow (t.takeWhile (!isEnd ·)) :=
  hollow_of_splitOnP (fun c hc => by
    have hnot := List.all_eq_true.mp List.all_takeWhile c hc
    rwa [Bool.not_eq_true'] at hnot) h

/-! ## Lines put together -/

theorem lines_of_no_break {line : Text} (h : ∀ c ∈ line, isBreak c = false) :
    lines line = [line.takeWhile (!isEnd ·)] :=
  List.splitOnP_eq_singleton fun c hc => h c ((List.takeWhile_prefix _).subset hc)

/- A text that ends within the line has no further lines. -/
theorem mem_lines_append {line first : Text} (hfirst : ∀ c ∈ first, isBreak c = false) {c : Char}
    (hc : isBreak c = true) {rest : Text} (h : line ∈ lines (first ++ c :: rest)) :
    line = first.takeWhile (!isEnd ·) ∨ line ∈ lines rest := by
  rw [lines, List.takeWhile_append] at h
  split at h
  next hwhole =>
    have hcut : first.takeWhile (!isEnd ·) = first :=
      (List.takeWhile_prefix _).eq_of_length hwhole
    have hend : (!isEnd c) = true := by
      simp only [isBreak, Bool.or_eq_true, decide_eq_true_eq] at hc
      rcases hc with rfl | rfl <;> rfl
    rw [List.takeWhile_cons_of_pos (p := (!isEnd ·)) hend,
      List.splitOnP_append_cons_of_forall_mem hfirst c hc, List.mem_cons] at h
    rw [hcut]
    exact h
  next =>
    rw [← lines, lines_of_no_break hfirst, List.mem_singleton] at h
    exact .inl h

end Yaml
end PolicyLint
