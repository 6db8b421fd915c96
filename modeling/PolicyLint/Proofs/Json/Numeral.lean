/-
Numerals read back.

The reader of numbers keeps a significand below `2 ^ 64`.  The numeral of a natural
number below that bound is read digit by digit, without moving the exponent, and its
value is far from the largest float.  What comes after it must not go on with the
number.
-/
import PolicyLint.Json.Number

namespace PolicyLint
namespace Json

/-- No number goes on with the text. -/
def EndsNumber (t : Text) : Prop :=
  ∀ c, t.head? = some c → Number.isDigit c = false ∧ c ≠ '.' ∧ c ≠ 'e' ∧ c ≠ 'E'

theorem endsNumber_nil : EndsNumber [] := by
  intro c h
  exact absurd h (by simp)

theorem endsNumber_cons {c : Char} {t : Text}
    (h : Number.isDigit c = false ∧ c ≠ '.' ∧ c ≠ 'e' ∧ c ≠ 'E') : EndsNumber (c :: t) := by
  intro d hd
  obtain rfl := Option.some.inj hd
  exact h

namespace Number

theorem isDigit_of_mem_numeral {n : Nat} {c : Char} (h : c ∈ Text.numeral n) : isDigit c = true := by
  have hdigit := Nat.isDigit_of_mem_toDigits (by decide) (by decide) h
  rw [Char.isDigit, Bool.and_eq_true, decide_eq_true_eq, decide_eq_true_eq] at hdigit
  rw [isDigit, Bool.and_eq_true, decide_eq_true_eq, decide_eq_true_eq]
  exact hdigit

/-! ## The range of floats -/

/-- Rounding to 53 bits at most doubles a number. -/
theorem roundBinary64_le (n : Nat) : roundBinary64 n ≤ 2 * n := by
  have hfloor : n / Nat.pow 2 (n.log2 - 52) * Nat.pow 2 (n.log2 - 52) ≤ n :=
    Nat.div_mul_le_self n _
  rcases Nat.eq_zero_or_pos n with rfl | hpos
  · decide
  · have hunit : Nat.pow 2 (n.log2 - 52) ≤ n := by
      have hlog : 2 ^ n.log2 ≤ n := Nat.log2_self_le (by omega)
      have hpow : 2 ^ (n.log2 - 52) ≤ 2 ^ n.log2 := Nat.pow_le_pow_right (by decide) (by omega)
      exact Nat.le_trans hpow hlog
    simp only [roundBinary64]
    split
    · rw [Nat.add_mul, Nat.one_mul]
      omega
    · omega

/-- No natural number that fits a significand is out of range. -/
theorem not_exceeds {m : Nat} (h : m < significandBound) : exceeds m 0 = false := by
  have hm : roundBinary64 m ≤ 2 * m := roundBinary64_le m
  have hone : roundBinary64 (Nat.pow 10 (0 : Int).toNat) = 1 := by decide
  have hbound : 2 * significandBound ≤ overflow := by decide +kernel
  have hlt : ¬roundBinary64 m * roundBinary64 (Nat.pow 10 (0 : Int).toNat) ≥ overflow := by
    rw [hone, Nat.mul_one]
    omega
  rw [exceeds, decide_eq_false hlt, Bool.and_false, Bool.or_false]
  rfl

/-! ## Digits -/

theorem le_ofDigitChars (ds : Text) (m : Nat) : m ≤ Nat.ofDigitChars 10 ds m := by
  induction ds generalizing m with
  | nil => exact Nat.le_of_eq Nat.ofDigitChars_nil.symm
  | cons c ds ih =>
    rw [Nat.ofDigitChars_cons]
    have hstep := ih (10 * m + (c.toNat - '0'.toNat))
    omega

/-- Digits that keep the significand below its bound are read one by one. -/
theorem integerDigits_append {ds t : Text} (hds : ∀ c ∈ ds, isDigit c = true) (ht : EndsNumber t)
    (negative : Bool) {m : Nat} (hm : Nat.ofDigitChars 10 ds m < significandBound) :
    integerDigits negative m (ds ++ t) = afterInteger negative (Nat.ofDigitChars 10 ds m) 0 t := by
  induction ds generalizing m with
  | nil =>
    rw [Nat.ofDigitChars_nil, List.nil_append]
    cases t with
    | nil => rfl
    | cons c t =>
      have hstop : isDigit c = false := (ht c rfl).1
      rw [integerDigits, hstop, if_neg (by simp)]
  | cons c ds ih =>
    rw [Nat.ofDigitChars_cons] at hm ⊢
    have hstep : 10 * m + digitValue c < significandBound :=
      Nat.lt_of_le_of_lt (le_ofDigitChars ds _) hm
    rw [List.cons_append, integerDigits, if_pos (hds c List.mem_cons_self)]
    dsimp only
    rw [if_pos hstep]
    exact ih (fun d hd => hds d (List.mem_cons_of_mem c hd)) hm

theorem afterInteger_end {t : Text} (ht : EndsNumber t) (negative : Bool) (m : Nat) (e : Int) :
    afterInteger negative m e t = build negative m e t := by
  cases t with
  | nil => rfl
  | cons c t =>
    obtain ⟨-, hpoint, he, hE⟩ := ht c rfl
    have hcases : afterInteger negative m e (c :: t) = exponentPart negative m e (c :: t) := by
      rw [afterInteger.eq_def]
      split
      next h => exact absurd (List.cons.inj h).1 hpoint
      next => rfl
    rw [hcases, exponentPart.eq_def]
    dsimp only
    rw [if_neg (by simp [he, hE])]

/-! ## Numerals -/

theorem eq_zero_of_numeral_cons {n : Nat} {ds : Text} (h : Text.numeral n = '0' :: ds) : n = 0 := by
  induction n using Nat.strongRecOn generalizing ds with
  | ind n ih =>
    rw [Text.numeral, Nat.toDigits_eq_if (by decide)] at h
    split at h
    next hlt => exact Nat.digitChar_eq_zero.mp (List.cons.inj h).1
    next hge =>
      obtain ⟨c, front, hfront⟩ := List.exists_cons_of_ne_nil
        (Nat.toDigits_ne_nil (n := n / 10) (b := 10))
      rw [hfront, List.cons_append] at h
      obtain ⟨rfl, -⟩ := List.cons.inj h
      have hzero : n / 10 = 0 := ih (n / 10) (by omega) hfront
      omega

theorem integerStart_numeral {n : Nat} (hn : n < significandBound) {t : Text} (ht : EndsNumber t) :
    integerStart false (Text.numeral n ++ t) = .ok (⟨false, n, 0⟩, t) := by
  have hbuild : build false n 0 t = .ok (⟨false, n, 0⟩, t) := by
    rw [build, not_exceeds hn, if_neg (by simp)]
  obtain ⟨c, ds, hnumeral⟩ := List.exists_cons_of_ne_nil
    (show Text.numeral n ≠ [] from Nat.toDigits_ne_nil)
  by_cases hc : c = '0'
  · -- A numeral with a leading zero is that of zero.
    subst hc
    obtain rfl := eq_zero_of_numeral_cons hnumeral
    rw [show Text.numeral 0 = ['0'] from Nat.toDigits_zero 10, List.singleton_append,
      integerStart.eq_def]
    dsimp only
    rw [if_pos rfl, ← hbuild, ← afterInteger_end ht]
    cases t with
    | nil => rfl
    | cons d t =>
      have hstop : isDigit d = false := (ht d rfl).1
      dsimp only
      rw [hstop, if_neg (by simp)]
  · have hdigits : ∀ d ∈ c :: ds, isDigit d = true := by
      rw [← hnumeral]
      exact fun d hd => isDigit_of_mem_numeral hd
    have hvalue : Nat.ofDigitChars 10 ds (digitValue c) = n := by
      have hall : Nat.ofDigitChars 10 (c :: ds) 0 = n := by
        rw [← hnumeral]
        exact Nat.ofDigitChars_ten_toDigits
      rw [Nat.ofDigitChars_cons, Nat.mul_zero, Nat.zero_add] at hall
      exact hall
    have hrest : ∀ d ∈ ds, isDigit d = true := fun d hd => hdigits d (List.mem_cons_of_mem c hd)
    have hbound : Nat.ofDigitChars 10 ds (digitValue c) < significandBound := by
      rw [hvalue]
      exact hn
    rw [hnumeral, List.cons_append, integerStart.eq_def]
    dsimp only
    rw [if_neg hc, if_pos (hdigits c List.mem_cons_self), integerDigits_append hrest ht false hbound,
      hvalue, afterInteger_end ht, hbuild]

/-- The numeral of a natural number below the bound reads back, up to where no number
goes on. -/
theorem read_numeral {n : Nat} (hn : n < significandBound) {t : Text} (ht : EndsNumber t) :
    Number.read (Text.numeral n ++ t) = .ok (⟨false, n, 0⟩, t) := by
  rw [← integerStart_numeral hn ht, Number.read.eq_def]
  obtain ⟨c, ds, hnumeral⟩ := List.exists_cons_of_ne_nil
    (show Text.numeral n ≠ [] from Nat.toDigits_ne_nil)
  have hdigit : isDigit c = true := isDigit_of_mem_numeral (hnumeral ▸ List.mem_cons_self)
  split
  next rest h =>
    rw [hnumeral, List.cons_append] at h
    rw [(List.cons.inj h).1] at hdigit
    exact absurd hdigit (by decide)
  next => rfl

end Number
end Json
end PolicyLint
