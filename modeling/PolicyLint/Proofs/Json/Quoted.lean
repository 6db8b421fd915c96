/-
Written strings read back.

Every character is written either as itself or as a backslash and an escape that
stands for it, so reading takes one round for each character of the text and ends
at the closing quote.
-/
import PolicyLint.Json.Quoted

namespace PolicyLint
namespace Json
namespace Quoted

/-- A character that stands for itself inside a string. -/
structure IsPlain (c : Char) : Prop where
  ne_quote : c ≠ '"'
  ne_backslash : c ≠ '\\'
  not_control : ¬c.toNat < 0x20

/-! ## Escapes -/

theorem hexValue_hexDigit {n : Nat} (h : n < 16) : hexValue (hexDigit n) = some n := by
  have hall : ∀ m < 16, hexValue (hexDigit m) = some m := by decide
  exact hall n h

theorem escaped_control {c : Char} (h : c.toNat < 0x20) (rest : Text) :
    escaped ('u' :: '0' :: '0' :: hexDigit (c.toNat / 16) :: hexDigit (c.toNat % 16) :: rest) =
      .ok (c, rest) := by
  have hzero : hexValue '0' = some 0 := by decide
  have hhigh := hexValue_hexDigit (n := c.toNat / 16) (by omega)
  have hlow := hexValue_hexDigit (n := c.toNat % 16) (by omega)
  have hvalue : ((0 * 16 + 0) * 16 + c.toNat / 16) * 16 + c.toNat % 16 = c.toNat := by omega
  have htrailing : isTrailing c.toNat = false := by
    simp only [isTrailing, Bool.and_eq_false_iff, decide_eq_false_iff_not]
    omega
  have hleading : isLeading c.toNat = false := by
    simp only [isLeading, Bool.and_eq_false_iff, decide_eq_false_iff_not]
    omega
  have hunit : unit ('0' :: '0' :: hexDigit (c.toNat / 16) :: hexDigit (c.toNat % 16) :: rest) =
      .ok (c.toNat, rest) := by
    simp only [unit, hzero, hhigh, hlow, hvalue]
  show ((unit _).bind fun p => _) = _
  rw [hunit]
  simp only [Except.bind, htrailing, hleading, Char.ofNat_toNat]
  rfl

theorem escapeChar_cases (c : Char) :
    (escapeChar c = [c] ∧ IsPlain c) ∨
      ∃ e, escapeChar c = '\\' :: e ∧ ∀ rest, escaped (e ++ rest) = .ok (c, rest) := by
  unfold escapeChar
  by_cases hquote : c = '"'
  · exact .inr ⟨['"'], by simp [hquote], fun rest => by rw [hquote]; rfl⟩
  by_cases hbackslash : c = '\\'
  · exact .inr ⟨['\\'], by simp [hbackslash], fun rest => by rw [hbackslash]; rfl⟩
  by_cases hb : c = '\x08'
  · exact .inr ⟨['b'], by simp [hb], fun rest => by rw [hb]; rfl⟩
  by_cases hf : c = '\x0c'
  · exact .inr ⟨['f'], by simp [hf], fun rest => by rw [hf]; rfl⟩
  by_cases hn : c = '\n'
  · exact .inr ⟨['n'], by simp [hn], fun rest => by rw [hn]; rfl⟩
  by_cases hr : c = '\r'
  · exact .inr ⟨['r'], by simp [hr], fun rest => by rw [hr]; rfl⟩
  by_cases ht : c = '\t'
  · exact .inr ⟨['t'], by simp [ht], fun rest => by rw [ht]; rfl⟩
  rw [if_neg hquote, if_neg hbackslash, if_neg hb, if_neg hf, if_neg hn, if_neg hr, if_neg ht]
  by_cases hcontrol : c.toNat < 0x20
  · rw [if_pos hcontrol]
    exact .inr ⟨_, rfl, fun rest => escaped_control hcontrol rest⟩
  · rw [if_neg hcontrol]
    exact .inl ⟨rfl, hquote, hbackslash, hcontrol⟩

/-! ## Reading back -/

theorem collect_escapeChar (done fuel rest : Text) (f c : Char) :
    collect done (f :: fuel) (escapeChar c ++ rest) = collect (c :: done) fuel rest := by
  rcases escapeChar_cases c with ⟨hc, hplain⟩ | ⟨e, hc, hescaped⟩
  · rw [hc, List.singleton_append, collect, if_neg hplain.ne_quote, if_neg hplain.ne_backslash,
      if_neg hplain.not_control]
  · rw [hc, List.cons_append, collect, if_neg (by decide), if_pos rfl, hescaped rest]

theorem collect_escape {s done fuel : Text} (h : s.length < fuel.length) (rest : Text) :
    collect done fuel (escape s ++ '"' :: rest) = .ok (done.reverse ++ s, rest) := by
  induction s generalizing done fuel with
  | nil =>
    cases fuel with
    | nil => exact absurd h (by simp)
    | cons f fuel =>
      show collect done (f :: fuel) ('"' :: rest) = _
      rw [collect, if_pos rfl, List.append_nil]
  | cons c s ih =>
    cases fuel with
    | nil => exact absurd h (by simp)
    | cons f fuel =>
      have hlength : s.length < fuel.length := by
        rw [List.length_cons, List.length_cons] at h
        omega
      have hescape : escape (c :: s) = escapeChar c ++ escape s := by
        rw [escape, List.map_cons, List.flatten_cons, escape]
      rw [hescape, List.append_assoc, collect_escapeChar, ih hlength, List.reverse_cons,
        List.append_assoc, List.singleton_append]

theorem length_le_escape (s : Text) : s.length ≤ (escape s).length := by
  induction s with
  | nil => exact Nat.le_refl 0
  | cons c s ih =>
    have hone : 1 ≤ (escapeChar c).length := by
      rcases escapeChar_cases c with ⟨hc, -⟩ | ⟨e, hc, -⟩ <;> simp [hc]
    rw [escape, List.map_cons, List.flatten_cons, List.length_append, List.length_cons]
    rw [escape] at ih
    omega

/-- Reading an escaped text up to its closing quote gives the text. -/
theorem read_escape (s rest : Text) : read (escape s ++ '"' :: rest) = .ok (s, rest) := by
  have hlength : s.length < (escape s ++ '"' :: rest).length := by
    have := length_le_escape s
    rw [List.length_append, List.length_cons]
    omega
  rw [read, collect_escape hlength]
  rfl

end Quoted
end Json
end PolicyLint
