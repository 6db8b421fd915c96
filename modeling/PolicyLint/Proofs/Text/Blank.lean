/-
What trimming leaves.

Trimming takes white space away and nothing else, so a trimmed text begins at the
first character that is not white space, and is still there when words follow it.
-/
import PolicyLint.Text.Blank

namespace PolicyLint
namespace Text

/- Trimming ends at a character that is not white space. -/
theorem head?_trim {c : Char} (h : isBlank c = false) (rest : Text) :
    (trim (c :: rest)).head? = some c := by
  have hstart : trimStart (c :: rest) = c :: rest := by
    rw [trimStart, List.dropWhile_cons_of_neg (by simp [h])]
  rw [trim, hstart, trimEnd, List.head?_reverse, List.reverse_cons, List.dropWhile_append]
  by_cases hrest : (rest.reverse.dropWhile isBlank).isEmpty = true
  · rw [if_pos hrest, List.dropWhile_cons_of_neg (by simp [h]), List.getLast?_singleton]
  · rw [if_neg hrest, List.getLast?_append, List.getLast?_singleton, Option.some_or]

theorem trim_cons {c : Char} (h : isBlank c = true) (rest : Text) : trim (c :: rest) = trim rest := by
  rw [trim, trimStart, List.dropWhile_cons_of_pos h, trim, trimStart]

theorem trim_append_of_blank {w : Text} (hw : ∀ c ∈ w, isBlank c = true) (t : Text) :
    trim (w ++ t) = trim t := by
  induction w with
  | nil => rfl
  | cons c w ih =>
    rw [List.cons_append, trim_cons (hw c List.mem_cons_self),
      ih fun d hd => hw d (List.mem_cons_of_mem c hd)]

theorem trim_concat {c : Char} (h : isBlank c = true) (t : Text) : trim (t ++ [c]) = trim t := by
  rw [trim, trimStart, List.dropWhile_append]
  by_cases ht : (t.dropWhile isBlank).isEmpty = true
  · rw [if_pos ht, List.dropWhile_cons_of_pos h, trim, trimStart, List.isEmpty_iff.mp ht]
    rfl
  · rw [if_neg ht, trim, trimStart, trimEnd, List.reverse_concat, List.dropWhile_cons_of_pos h,
      trimEnd]

theorem trim_append_trailing {w : Text} (hw : ∀ c ∈ w, isBlank c = true) (t : Text) :
    trim (t ++ w) = trim t := by
  induction w generalizing t with
  | nil => rw [List.append_nil]
  | cons c w ih =>
    rw [← List.singleton_append, ← List.append_assoc,
      ih fun d hd => hw d (List.mem_cons_of_mem c hd), trim_concat (hw c List.mem_cons_self)]

/-- Taking some of the white space in front away changes nothing about the rest. -/
theorem trimStart_dropWhile {p : Char → Bool} (hp : ∀ c, p c = true → isBlank c = true) (t : Text) :
    trimStart (t.dropWhile p) = trimStart t := by
  induction t with
  | nil => rfl
  | cons c t ih =>
    by_cases hc : p c = true
    · rw [List.dropWhile_cons_of_pos hc, ih, trimStart, trimStart,
        List.dropWhile_cons_of_pos (hp c hc)]
    · rw [List.dropWhile_cons_of_neg hc]

theorem trim_dropWhile {p : Char → Bool} (hp : ∀ c, p c = true → isBlank c = true) (t : Text) :
    trim (t.dropWhile p) = trim t := by
  rw [trim, trimStart_dropWhile hp, trim]

/-- What trimming takes away at the end is white space. -/
theorem exists_trimStart_eq (t : Text) :
    ∃ gap : Text, (∀ c ∈ gap, isBlank c = true) ∧ trimStart t = trim t ++ gap := by
  refine ⟨((trimStart t).reverse.takeWhile isBlank).reverse, fun c hc => ?_, ?_⟩
  · exact List.all_eq_true.mp List.all_takeWhile c (List.mem_reverse.mp hc)
  · rw [trim, trimEnd, ← List.reverse_append, List.takeWhile_append_dropWhile,
      List.reverse_reverse]

theorem isBlank_of_trim_eq_nil {t : Text} (h : trim t = []) {c : Char} (hc : c ∈ t) :
    isBlank c = true := by
  obtain ⟨gap, hgap, hstart⟩ := exists_trimStart_eq t
  rw [h, List.nil_append, trimStart] at hstart
  rw [← List.takeWhile_append_dropWhile (p := isBlank) (l := t), hstart, List.mem_append] at hc
  rcases hc with hc | hc
  · exact List.all_eq_true.mp List.all_takeWhile c hc
  · exact hgap c hc

theorem head?_trim_eq_trimStart (t : Text) : (trim t).head? = (trimStart t).head? := by
  have hfirst := List.head?_dropWhile_not isBlank t
  have htrim : trim (trimStart t) = trim t := trim_dropWhile (fun c hc => hc) t
  rw [← htrim]
  cases hstart : trimStart t with
  | nil => rfl
  | cons c rest =>
    rw [trimStart] at hstart
    rw [hstart] at hfirst
    exact head?_trim hfirst rest

/-- Words behind a text that is not blank stand behind the trimmed text, with white space
between them. -/
theorem exists_trim_append {t : Text} (ht : trim t ≠ []) (word : Text) {c : Char}
    (hc : isBlank c = false) :
    ∃ gap, trim (t ++ (word ++ [c])) = trim t ++ gap ++ (word ++ [c]) := by
  have hstart : t.dropWhile isBlank ≠ [] := by
    intro h
    apply ht
    rw [trim, trimStart, h]
    rfl
  -- What is trimmed at the end of the text is the gap.
  obtain ⟨gap, hgap⟩ : ∃ gap, t.dropWhile isBlank = trim t ++ gap := by
    have hsuffix := List.dropWhile_suffix isBlank (l := (t.dropWhile isBlank).reverse)
    obtain ⟨gap, hgap⟩ := List.reverse_prefix.mpr hsuffix
    rw [List.reverse_reverse] at hgap
    exact ⟨gap, hgap.symm⟩
  refine ⟨gap, ?_⟩
  have hempty : (t.dropWhile isBlank).isEmpty = false := by
    rw [Bool.eq_false_iff, ne_eq, List.isEmpty_iff]
    exact hstart
  rw [trim, trimStart, List.dropWhile_append, hempty, if_neg (by decide), trimEnd,
    ← List.append_assoc, List.reverse_concat, List.dropWhile_cons_of_neg (by simp [hc]),
    ← List.reverse_concat, List.reverse_reverse, hgap]
  simp only [List.append_assoc]

end Text
end PolicyLint
