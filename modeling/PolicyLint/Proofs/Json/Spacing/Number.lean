/-
More white space and numbers.

A number ends where no digit, point or exponent goes on with it, and white space is none of
these.  So each part of a number ends at the same character in both texts.
-/
import PolicyLint.Proofs.Json.Spacing

namespace PolicyLint
namespace Json
namespace Number

theorem isDigit_spaceless : Spaceless isDigit := by
  decide

variable {negative : Bool} {m : Nat} {e : Int}

theorem ignoresSpacing_build : IgnoresSpacing (build negative m e) := by
  intro t u h
  rw [build, build]
  split
  · exact Alike.failBefore
  · exact Alike.ok _ h

section Stops

variable {t : Text} (h : Stops isDigit t)
include h

theorem exponentDigits_of_stops (down : Bool) (x : Nat) :
    exponentDigits negative m e down x t = build negative m (if down then e - x else e + x) t := by
  cases t with
  | nil => rfl
  | cons c t => rw [exponentDigits, h c t rfl, if_neg (by decide)]

theorem exponentStart_of_stops (down : Bool) :
    exponentStart negative m e down t = stuck .endInValue .invalidNumber t := by
  cases t with
  | nil => rfl
  | cons c t =>
    rw [exponentStart, h c t rfl, if_neg (by decide)]
    rfl

theorem fractionDigits_of_stops (seen : Bool) :
    fractionDigits negative m e seen t =
      if seen then exponentPart negative m e t else stuck .endInValue .invalidNumber t := by
  cases t with
  | nil => rfl
  | cons c t =>
    rw [fractionDigits, h c t rfl, if_neg (by decide)]
    rfl

theorem integerDigits_of_stops : integerDigits negative m t = afterInteger negative m 0 t := by
  cases t with
  | nil => rfl
  | cons c t => rw [integerDigits, h c t rfl, if_neg (by decide)]

theorem integerStart_of_stops : integerStart negative t = stuck .endInValue .invalidNumber t := by
  cases t with
  | nil => rfl
  | cons c t =>
    have hzero : c ≠ '0' := by
      intro hc
      have hdigit := h c t rfl
      rw [hc] at hdigit
      exact absurd hdigit (by decide)
    rw [integerStart.eq_def]
    dsimp only
    rw [if_neg hzero, h c t rfl, if_neg (by decide)]
    rfl

theorem integerStart_zero_of_stops :
    integerStart negative ('0' :: t) = afterInteger negative 0 0 t := by
  cases t with
  | nil =>
    rw [integerStart.eq_def]
    dsimp only
    rw [if_pos rfl]
  | cons c t =>
    show (if isDigit c then _ else _) = _
    rw [h c t rfl, if_neg (by decide)]

end Stops

theorem ignoresSpacing_exponentDigits (down : Bool) (x : Nat) :
    IgnoresSpacing (exponentDigits negative m e down x) := by
  intro t u h
  induction h using Spaced.induction_on_run isDigit_spaceless generalizing x with
  | step c t u h hc ih =>
    rw [exponentDigits, exponentDigits, if_pos hc, if_pos hc]
    dsimp only
    split
    · exact ih _
    · split
      · exact Alike.failBefore
      · exact Alike.ok _ (h.run isDigit_spaceless).2
  | stop t u h ht hu =>
    rw [exponentDigits_of_stops ht, exponentDigits_of_stops hu]
    exact ignoresSpacing_build h

theorem ignoresSpacing_exponentStart (down : Bool) :
    IgnoresSpacing (exponentStart negative m e down) := by
  intro t u h
  rcases h.next isDigit_spaceless with ⟨c, t', u', rfl, rfl, hc, h'⟩ | ⟨ht, hu⟩
  · rw [exponentStart, exponentStart, if_pos hc, if_pos hc]
    exact ignoresSpacing_exponentDigits _ _ h'
  · rw [exponentStart_of_stops ht, exponentStart_of_stops hu]
    exact ignoresSpacing_stuck .number h

/-- The letter that opens an exponent. -/
def isMark (c : Char) : Bool :=
  c = 'e' || c = 'E'

theorem exponentPart_of_stops {t : Text} (h : Stops isMark t) :
    exponentPart negative m e t = build negative m e t := by
  cases t with
  | nil => rfl
  | cons c t =>
    rw [exponentPart.eq_def]
    exact if_neg (by simpa [isMark] using h c t rfl)

theorem exponentPart_mark {c : Char} (hc : isMark c = true) {t : Text} (hplus : Stops (· = '+') t)
    (hminus : Stops (· = '-') t) :
    exponentPart negative m e (c :: t) = exponentStart negative m e false t := by
  rw [isMark] at hc
  rw [exponentPart.eq_def]
  dsimp only
  rw [if_pos hc]
  split
  next => exact absurd (hplus _ _ rfl) (by decide)
  next => exact absurd (hminus _ _ rfl) (by decide)
  next => rfl

theorem exponentPart_sign {c : Char} (hc : isMark c = true) (t : Text) :
    exponentPart negative m e (c :: '+' :: t) = exponentStart negative m e false t ∧
      exponentPart negative m e (c :: '-' :: t) = exponentStart negative m e true t :=
  ⟨if_pos hc, if_pos hc⟩

theorem ignoresSpacing_exponentPart : IgnoresSpacing (exponentPart negative m e) := by
  intro t u h
  rcases h.next (show Spaceless isMark by decide) with ⟨c, t, u, rfl, rfl, hc, hsign⟩ | ⟨ht, hu⟩
  · rcases hsign.next (show Spaceless (· = '+') by decide) with
      ⟨s, t, u, rfl, rfl, hs, hdigits⟩ | ⟨htplus, huplus⟩
    · rw [of_decide_eq_true hs, (exponentPart_sign hc t).1, (exponentPart_sign hc u).1]
      exact ignoresSpacing_exponentStart _ hdigits
    · rcases hsign.next (show Spaceless (· = '-') by decide) with
        ⟨s, t, u, rfl, rfl, hs, hdigits⟩ | ⟨htminus, huminus⟩
      · rw [of_decide_eq_true hs, (exponentPart_sign hc t).2, (exponentPart_sign hc u).2]
        exact ignoresSpacing_exponentStart _ hdigits
      · rw [exponentPart_mark hc htplus htminus, exponentPart_mark hc huplus huminus]
        exact ignoresSpacing_exponentStart _ hsign
  · rw [exponentPart_of_stops ht, exponentPart_of_stops hu]
    exact ignoresSpacing_build h

theorem ignoresSpacing_fractionDigits (seen : Bool) :
    IgnoresSpacing (fractionDigits negative m e seen) := by
  intro t u h
  induction h using Spaced.induction_on_run isDigit_spaceless generalizing m e seen with
  | step c t u h hc ih =>
    rw [fractionDigits, fractionDigits, if_pos hc, if_pos hc]
    dsimp only
    split
    · exact ih _
    · exact ignoresSpacing_exponentPart (h.run isDigit_spaceless).2
  | stop t u h ht hu =>
    rw [fractionDigits_of_stops ht, fractionDigits_of_stops hu]
    split
    · exact ignoresSpacing_exponentPart h
    · exact ignoresSpacing_stuck .number h

theorem afterInteger_of_stops {t : Text} (h : Stops (· = '.') t) :
    afterInteger negative m e t = exponentPart negative m e t := by
  rw [afterInteger.eq_def]
  split
  next => exact absurd (h _ _ rfl) (by decide)
  next => rfl

theorem ignoresSpacing_afterInteger : IgnoresSpacing (afterInteger negative m e) := by
  intro t u h
  rcases h.next (show Spaceless (· = '.') by decide) with ⟨c, t, u, rfl, rfl, hc, hrest⟩ | ⟨ht, hu⟩
  · rw [of_decide_eq_true hc]
    exact ignoresSpacing_fractionDigits _ hrest
  · rw [afterInteger_of_stops ht, afterInteger_of_stops hu]
    exact ignoresSpacing_exponentPart h

theorem length_sub_dropWhile (p : Char → Bool) (t : Text) :
    t.length - (t.dropWhile p).length = (t.takeWhile p).length := by
  have hlength := congrArg List.length (List.takeWhile_append_dropWhile (p := p) (l := t))
  rw [List.length_append] at hlength
  omega

theorem ignoresSpacing_integerDigits : IgnoresSpacing (integerDigits negative m) := by
  intro t u h
  induction h using Spaced.induction_on_run isDigit_spaceless generalizing m with
  | step c t u h hc ih =>
    rw [integerDigits, integerDigits, if_pos hc, if_pos hc]
    dsimp only
    split
    · exact ih
    · obtain ⟨htake, hdrop⟩ := (Spaced.keep (c := c) h).run isDigit_spaceless
      rw [length_sub_dropWhile, length_sub_dropWhile, htake]
      exact ignoresSpacing_afterInteger hdrop
  | stop t u h ht hu =>
    rw [integerDigits_of_stops ht, integerDigits_of_stops hu]
    exact ignoresSpacing_afterInteger h

theorem integerStart_digit {c : Char} (hc : isDigit c = true) (hzero : c ≠ '0') (t : Text) :
    integerStart negative (c :: t) = integerDigits negative (digitValue c) t := by
  rw [integerStart.eq_def]
  dsimp only
  rw [if_neg hzero, if_pos hc]

theorem integerStart_zero_digit {d : Char} (hd : isDigit d = true) (t : Text) :
    integerStart negative ('0' :: d :: t) = failAt .invalidNumber (d :: t) := by
  rw [integerStart.eq_def]
  dsimp only
  rw [if_pos rfl, if_pos hd]

theorem ignoresSpacing_integerStart : IgnoresSpacing (integerStart negative) := by
  intro t u h
  rcases h.next isDigit_spaceless with ⟨c, t, u, rfl, rfl, hc, hrest⟩ | ⟨ht, hu⟩
  · by_cases hzero : c = '0'
    · rw [hzero]
      rcases hrest.next isDigit_spaceless with ⟨d, t, u, rfl, rfl, hd, -⟩ | ⟨ht, hu⟩
      · rw [integerStart_zero_digit hd, integerStart_zero_digit hd]
        exact Alike.failAt
      · rw [integerStart_zero_of_stops ht, integerStart_zero_of_stops hu]
        exact ignoresSpacing_afterInteger hrest
    · rw [integerStart_digit hc hzero, integerStart_digit hc hzero]
      exact ignoresSpacing_integerDigits hrest
  · rw [integerStart_of_stops ht, integerStart_of_stops hu]
    exact ignoresSpacing_stuck .number h

theorem read_of_stops {t : Text} (h : Stops (· = '-') t) : Number.read t = integerStart false t := by
  rw [Number.read.eq_def]
  split
  next => exact absurd (h _ _ rfl) (by decide)
  next => rfl

theorem ignoresSpacing_read : IgnoresSpacing Number.read := by
  intro t u h
  rcases h.next (show Spaceless (· = '-') by decide) with ⟨c, t, u, rfl, rfl, hc, hrest⟩ | ⟨ht, hu⟩
  · rw [of_decide_eq_true hc]
    exact ignoresSpacing_integerStart hrest
  · rw [read_of_stops ht, read_of_stops hu]
    exact ignoresSpacing_integerStart h

end Number
end Json
end PolicyLint
