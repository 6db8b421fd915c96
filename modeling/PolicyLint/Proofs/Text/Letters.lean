/-
Capital and small letters.

Only the letters A to Z have another case here.  Which case they are written in shows neither in
the white space of a text nor in its lower case.
-/
import PolicyLint.Text.Blank
import PolicyLint.Text.Lowercase

namespace PolicyLint
namespace Text

/-- The letters A to Z. -/
def capitals : List Char :=
  (List.range' 65 26).map Char.ofNat

theorem toLower_eq_or_capital (c : Char) : c.toLower = c ∨ c ∈ capitals := by
  unfold Char.toLower
  split
  · next h =>
    right
    have hlow : 65 ≤ c.toNat := h.1
    have hhigh : c.toNat ≤ 90 := h.2
    rw [capitals, List.mem_map]
    exact ⟨c.toNat, List.mem_range'_1.mpr ⟨hlow, by omega⟩, Char.ofNat_toNat c⟩
  · exact .inl rfl

theorem apply_toLower {α : Type} {f : Char → α}
    (h : capitals.map (fun c => f c.toLower) = capitals.map f) (c : Char) : f c.toLower = f c := by
  rcases toLower_eq_or_capital c with hc | hc
  · rw [hc]
  · exact List.map_inj_left.mp h c hc

theorem isBlank_toLower (c : Char) : isBlank c.toLower = isBlank c :=
  apply_toLower (by decide) c

theorem lowerChar_toLower (c : Char) : lowerChar c.toLower = lowerChar c :=
  apply_toLower (by decide) c

theorem lower_map_toLower (t : Text) : lower (t.map Char.toLower) = lower t := by
  rw [lower, List.map_map, lower]
  exact congrArg List.flatten (List.map_congr_left fun c _ => lowerChar_toLower c)

theorem trim_map {f : Char → Char} (hf : ∀ c, isBlank (f c) = isBlank c) (t : Text) :
    trim (t.map f) = (trim t).map f := by
  have hblank : isBlank ∘ f = isBlank := funext hf
  rw [trim, trimEnd, trimStart, List.dropWhile_map, hblank, ← List.map_reverse,
    List.dropWhile_map, hblank, ← List.map_reverse, trim, trimEnd, trimStart]

/-- The texts differ at most in the case of the letters A to Z. -/
def SameLetters (s t : Text) : Prop :=
  s.map Char.toLower = t.map Char.toLower

instance (s t : Text) : Decidable (SameLetters s t) :=
  inferInstanceAs (Decidable (s.map Char.toLower = t.map Char.toLower))

theorem SameLetters.trim {s t : Text} (h : SameLetters s t) :
    SameLetters (Text.trim s) (Text.trim t) := by
  rw [SameLetters, ← trim_map isBlank_toLower, ← trim_map isBlank_toLower, h]

theorem SameLetters.lower_eq {s t : Text} (h : SameLetters s t) : lower s = lower t := by
  rw [← lower_map_toLower, h, lower_map_toLower]

end Text
end PolicyLint
