/-
More white space and strings.

A line feed inside a string is a control character and ends its reading with a failure, so
white space behind a line feed is never part of a string.  A string that is cut off at the end
of the text may go on with the white space there; it is then broken off by it.
-/
import PolicyLint.Proofs.Json.Spacing
import PolicyLint.Proofs.Json.Spelling

namespace PolicyLint
namespace Json
namespace Quoted

def isHex (c : Char) : Bool :=
  (hexValue c).isSome

theorem isHex_of_eq_some {c : Char} {x : Nat} (h : hexValue c = some x) : isHex c = true := by
  rw [isHex, h]
  rfl

theorem unit_ok {t rest : Text} {x : Nat} (h : unit t = .ok (x, rest)) :
    ∃ front, t = front ++ rest ∧ (∀ c ∈ front, isHex c = true) ∧
      ∀ more, unit (front ++ more) = .ok (x, more) := by
  rw [unit.eq_def] at h
  split at h
  next a b c d after =>
    split at h
    next ha hb hc hd =>
      obtain ⟨rfl, rfl⟩ := Prod.mk.inj (Except.ok.inj h)
      refine ⟨[a, b, c, d], rfl, fun e he => ?_, fun more => ?_⟩
      · simp only [List.mem_cons, List.not_mem_nil, or_false] at he
        rcases he with rfl | rfl | rfl | rfl
        · exact isHex_of_eq_some ha
        · exact isHex_of_eq_some hb
        · exact isHex_of_eq_some hc
        · exact isHex_of_eq_some hd
      · simp only [unit, List.cons_append, List.nil_append, ha, hb, hc, hd]
    next => exact absurd h (by simp)
  next =>
    split at h
    · exact absurd h (by simp)
    · exact absurd h (by simp)

theorem unit_error {t : Text} {f : Failure} (h : unit t = .error f) :
    f.cause = if t.byteLength < 4 then .endInString else .invalidEscape := by
  rw [unit.eq_def] at h
  split at h
  next a b c d after =>
    have hlong : ¬Text.byteLength (a :: b :: c :: d :: after) < 4 := by
      simp only [Text.byteLength_cons]
      have := a.utf8Size_pos
      have := b.utf8Size_pos
      have := c.utf8Size_pos
      have := d.utf8Size_pos
      omega
    rw [if_neg hlong]
    split at h
    next => exact absurd h (by simp)
    next =>
      obtain rfl := Except.error.inj h
      rfl
  next =>
    split at h
    next hshort =>
      obtain rfl := Except.error.inj h
      rw [if_pos hshort]
    next hlong =>
      obtain rfl := Except.error.inj h
      rw [if_neg hlong]

theorem ignoresSpacing_unit : IgnoresSpacing unit := by
  have hhex : Spaceless isHex := by decide
  intro t u h
  cases ht : unit t with
  | ok p =>
    obtain ⟨front, htfront, hfront, hunit⟩ := unit_ok ht
    rw [htfront] at h
    obtain ⟨u, rfl, hrest⟩ := h.of_append hhex hfront
    rw [hunit]
    exact Alike.ok _ hrest
  | error f =>
    cases hu : unit u with
    | ok p =>
      obtain ⟨front, hufront, hfront, hunit⟩ := unit_ok hu
      rw [hufront] at h
      obtain ⟨t, rfl, hrest⟩ := h.of_append_right hhex hfront
      rw [hunit] at ht
      exact absurd ht (by simp)
    | error f' =>
      refine Agree.error ?_
      have hlength := h.byteLength_le
      rw [Failure.Reworded, unit_error ht, unit_error hu]
      by_cases hshort : t.byteLength < 4
      · rw [if_pos hshort]
        split
        · exact .same
        · exact .escape
      · rw [if_neg hshort, if_neg (by omega)]
        exact .same

theorem secondUnit_of_stops {t : Text} (h : Stops (· = '\\') t) (lead : Nat) :
    secondUnit lead t = stuck .endInString .unfinishedSurrogatePair t := by
  rw [secondUnit.eq_def]
  split
  next => rfl
  next => exact absurd (h _ _ rfl) (by decide)
  next => exact absurd (h _ _ rfl) (by decide)
  next => exact absurd (h _ _ rfl) (by decide)
  next hne _ _ _ => rw [stuck, if_neg hne]

theorem secondUnit_backslash_of_stops {t : Text} (h : Stops (· = 'u') t) (lead : Nat) :
    secondUnit lead ('\\' :: t) = stuck .endInString .unfinishedSurrogatePair t := by
  cases t with
  | nil => rfl
  | cons c t =>
    rw [secondUnit.eq_def]
    split
    next hnil => exact absurd hnil (by simp)
    next hone => exact absurd hone (by simp)
    next hu =>
      have hc := h c t rfl
      rw [(List.cons.inj (List.cons.inj hu).2).1] at hc
      exact absurd hc (by decide)
    next hrest =>
      rw [← (List.cons.inj hrest).2]
      rfl
    next hne => exact absurd rfl (hne (c :: t))

theorem ignoresSpacing_secondUnit (lead : Nat) : IgnoresSpacing (secondUnit lead) := by
  intro t u h
  rcases h.next (show Spaceless (· = '\\') by decide) with ⟨c, t, u, rfl, rfl, hc, hletter⟩ | ⟨ht, hu⟩
  · rw [of_decide_eq_true hc]
    rcases hletter.next (show Spaceless (· = 'u') by decide) with
      ⟨c, t, u, rfl, rfl, hc, hdigits⟩ | ⟨ht, hu⟩
    · rw [of_decide_eq_true hc]
      refine (ignoresSpacing_unit hdigits).bind fun trail t u _ _ hrest => ?_
      dsimp only
      split
      · exact Alike.ok _ hrest
      · exact Alike.failBefore
    · rw [secondUnit_backslash_of_stops ht, secondUnit_backslash_of_stops hu]
      exact ignoresSpacing_stuck .pair hletter
  · rw [secondUnit_of_stops ht, secondUnit_of_stops hu]
    exact ignoresSpacing_stuck .pair h

def isShort (c : Char) : Bool :=
  shortEscapes.any (·.1 = c)

theorem escaped_short {e c : Char} (h : (e, c) ∈ shortEscapes) (t : Text) :
    escaped (e :: t) = .ok (c, t) := by
  simp only [shortEscapes, List.mem_cons, Prod.mk.injEq, List.not_mem_nil, or_false] at h
  rcases h with ⟨rfl, rfl⟩ | ⟨rfl, rfl⟩ | ⟨rfl, rfl⟩ | ⟨rfl, rfl⟩ | ⟨rfl, rfl⟩ | ⟨rfl, rfl⟩ |
    ⟨rfl, rfl⟩ | ⟨rfl, rfl⟩ <;> rfl

theorem escaped_of_stops {t : Text} (h : Stops isShort t) (hu : Stops (· = 'u') t) :
    escaped t = stuck .endInString .invalidEscape t := by
  rw [escaped.eq_def]
  split
  next => rfl
  iterate 8 next => exact absurd (h _ _ rfl) (by decide)
  next => exact absurd (hu _ _ rfl) (by decide)
  next hne _ _ _ _ _ _ _ _ _ => rw [stuck, if_neg hne]

theorem ignoresSpacing_escaped : IgnoresSpacing escaped := by
  intro t u h
  rcases h.next (show Spaceless isShort by decide) with ⟨e, t, u, rfl, rfl, he, hrest⟩ | ⟨ht, hu⟩
  · obtain ⟨⟨e', c⟩, hmem, he⟩ := List.any_eq_true.mp he
    obtain rfl := of_decide_eq_true he
    rw [escaped_short hmem, escaped_short hmem]
    exact Alike.ok c hrest
  · rcases h.next (show Spaceless (· = 'u') by decide) with
      ⟨c, t, u, rfl, rfl, hc, hdigits⟩ | ⟨htu, huu⟩
    · rw [of_decide_eq_true hc]
      refine (ignoresSpacing_unit hdigits).bind fun code t u _ _ hrest => ?_
      dsimp only
      split
      · exact Alike.failBefore
      · split
        · exact ignoresSpacing_secondUnit code hrest
        · exact Alike.ok _ hrest
    · rw [escaped_of_stops ht htu, escaped_of_stops hu huu]
      exact ignoresSpacing_stuck .escape h

theorem collect_backslash (done : Text) (f : Char) (fuel t : Text) :
    collect done (f :: fuel) ('\\' :: t) =
      (escaped t).bind fun p => collect (p.1 :: done) fuel p.2 := by
  rw [collect, if_neg (by decide), if_pos rfl]
  cases escaped t <;> rfl

/-- A string that goes on with white space alone is cut off, or broken off by a control
character. -/
theorem collect_space {w : Text} (hw : ∀ c ∈ w, isSpace c = true) (done fuel done' fuel' : Text) :
    Alike (collect done fuel []) (collect done' fuel' w) := by
  have hend : collect done fuel [] = failAt .endInString [] := by cases fuel <;> rfl
  rw [hend]
  induction w generalizing done' fuel' with
  | nil => cases fuel' <;> exact Agree.error .same
  | cons c w ih =>
    cases fuel' with
    | nil => exact Agree.error .same
    | cons f fuel' =>
      have hquote : c ≠ '"' := by
        rintro rfl
        exact absurd (hw _ List.mem_cons_self) (by decide)
      have hbackslash : c ≠ '\\' := by
        rintro rfl
        exact absurd (hw _ List.mem_cons_self) (by decide)
      rw [collect, if_neg hquote, if_neg hbackslash]
      split
      · exact Agree.error .control
      · exact ih (fun d hd => hw d (List.mem_cons_of_mem c hd)) _ _

/-- With as many rounds as there are characters, both readings go on alike. -/
theorem collect_alike {fuel : Text} : ∀ {fuel' t u : Text} (done : Text), Spaced t u →
    t.length ≤ fuel.length → u.length ≤ fuel'.length →
      Alike (collect done fuel t) (collect done fuel' u) := by
  induction fuel with
  | nil =>
    intro fuel' t u done h ht hu
    obtain rfl : t = [] := List.length_eq_zero_iff.mp (Nat.le_zero.mp ht)
    cases h with
    | finish hw => exact collect_space hw _ _ _ _
  | cons f fuel ih =>
    intro fuel' t u done h ht hu
    cases h with
    | finish hw => exact collect_space hw _ _ _ _
    | feed hw h =>
      cases fuel' with
      | nil => exact absurd hu (by simp)
      | cons f' fuel' =>
        rw [collect, collect]
        exact Agree.error .same
    | @keep c t u h =>
      cases fuel' with
      | nil => exact absurd hu (by simp)
      | cons f' fuel' =>
        rw [List.length_cons, List.length_cons] at ht hu
        by_cases hbackslash : c = '\\'
        · rw [hbackslash, collect_backslash, collect_backslash]
          refine (ignoresSpacing_escaped h).bind fun e rest rest' hrest hrest' hspaced => ?_
          have hlength := (leaves_escaped _ e rest hrest).length_le
          have hlength' := (leaves_escaped _ e rest' hrest').length_le
          exact ih _ hspaced (show rest.length ≤ _ by omega) (show rest'.length ≤ _ by omega)
        · rw [collect, collect, if_neg hbackslash, if_neg hbackslash]
          split
          · exact Alike.ok _ h
          · split
            · exact Agree.error .same
            · exact ih _ h (by omega) (by omega)

theorem ignoresSpacing_read : IgnoresSpacing Quoted.read :=
  fun _ _ h => collect_alike [] h (Nat.le_refl _) (Nat.le_refl _)

end Quoted
end Json
end PolicyLint
