/-
More white space and documents.

Between tokens white space is skipped, in front of a value as well as behind it, and both
readings go on from the same character.  As the text itself bounds the rounds of a reading,
more white space only means more rounds that are not used.
-/
import PolicyLint.Proofs.Json.Spacing.Number
import PolicyLint.Proofs.Json.Spacing.Quoted

namespace PolicyLint
namespace Json

theorem ignoresSpacing_word (value : Data) {letters : Text}
    (hletters : ∀ l ∈ letters, isSpace l = false) : IgnoresSpacing (word value letters) := by
  induction letters with
  | nil => exact fun t u h => .ok value h
  | cons l letters ih =>
    have hl : Spaceless (· = l) := by
      intro c hc
      rw [decide_eq_false_iff_not]
      rintro rfl
      rw [hletters _ List.mem_cons_self] at hc
      exact absurd hc (by decide)
    have hstop : ∀ {t}, Stops (· = l) t →
        word value (l :: letters) t = stuck .endInValue .expectedIdent t := by
      intro t ht
      cases t with
      | nil => rfl
      | cons c t =>
        rw [word, if_neg fun hlc => absurd (ht c t rfl) (by simp [hlc])]
        rfl
    intro t u h
    rcases h.next hl with ⟨c, t, u, rfl, rfl, hc, hrest⟩ | ⟨ht, hu⟩
    · obtain rfl := of_decide_eq_true hc
      rw [word, word, if_pos rfl, if_pos rfl]
      exact ih (fun d hd => hletters d (List.mem_cons_of_mem c hd)) hrest
    · rw [hstop ht, hstop hu]
      exact ignoresSpacing_stuck .word h

theorem scalar_alike {c : Char} {t u : Text} (h : Spaced t u) :
    Alike (scalar (c :: t)) (scalar (c :: u)) := by
  by_cases hn : c = 'n'
  · rw [hn]
    exact ignoresSpacing_word _ (by simp [isSpace]) h
  by_cases ht : c = 't'
  · rw [ht]
    exact ignoresSpacing_word _ (by simp [isSpace]) h
  by_cases hf : c = 'f'
  · rw [hf]
    exact ignoresSpacing_word _ (by simp [isSpace]) h
  by_cases hquote : c = '"'
  · rw [hquote]
    exact (Quoted.ignoresSpacing_read h).map fun _ _ hp => ⟨congrArg Data.string hp.1, hp.2⟩
  rw [scalar_plain hn ht hf hquote, scalar_plain hn ht hf hquote]
  split
  · exact (Number.ignoresSpacing_read (.keep h)).map fun _ _ hp => ⟨congrArg Data.number hp.1, hp.2⟩
  · exact Alike.failAt

theorem length_lt_of_skipSpace {t more : Text} {c : Char} (h : skipSpace t = c :: more) :
    more.length < t.length := by
  have hsuffix := (skipSpace_suffix t).length_le
  rw [h, List.length_cons] at hsuffix
  exact hsuffix

/-- From one character to the next one behind white space. -/
theorem length_add_two_le {t more after : Text} {c d : Char} (h : skipSpace t = c :: more)
    (hmore : skipSpace more = d :: after) : after.length + 2 ≤ t.length := by
  have hfirst := length_lt_of_skipSpace h
  have hsecond := length_lt_of_skipSpace hmore
  omega

section Collections

variable {read : Text → Read Data} (hread : IgnoresSpacing read)
include hread

theorem ignoresSpacing_memberValue : IgnoresSpacing (memberValue read) := by
  intro t u h
  rw [memberValue, memberValue]
  rcases h.skipSpace_cases with ⟨ht, hu⟩ | ⟨c, t', u', ht, hu, hrest⟩
  · rw [ht, hu]
    exact Alike.failAt
  · rw [ht, hu]
    by_cases hcolon : c = ':'
    · rw [hcolon]
      exact hread hrest
    · simp only [List.cons.injEq, hcolon, false_and, imp_self, implies_true]
      exact Alike.failAt

variable (hforward : Forward read)
include hforward

omit hread in
theorem length_lt_of_memberValue {t rest : Text} {v : Data}
    (h : memberValue read t = .ok (v, rest)) : rest.length < t.length := by
  obtain ⟨start, hstart, hvalue⟩ := memberValue_ok h
  have hcolon := length_lt_of_skipSpace hstart
  have hleft := (hforward start v rest hvalue).1.length_le
  omega

/-- With as many rounds as there are characters, both readings of the elements go on alike. -/
theorem elements_alike {fuel : Text} : ∀ {fuel' t u : Text} (done : List Data), Spaced t u → t ≠ [] →
    t.length ≤ fuel.length → u.length ≤ fuel'.length →
      Alike (elements read done fuel t) (elements read done fuel' u) := by
  induction fuel with
  | nil => exact fun done _ ht hlength => absurd (List.length_eq_zero_iff.mp (Nat.le_zero.mp hlength)) ht
  | cons f fuel ih =>
    intro fuel' t u done h ht hlength hlength'
    cases fuel' with
    | nil =>
      exact absurd (List.length_eq_zero_iff.mp (Nat.le_zero.mp hlength')) (h.ne_nil ht)
    | cons f' fuel' =>
      rw [List.length_cons] at hlength hlength'
      rw [elements, elements]
      refine (hread h).bind fun item rest rest' hrest hrest' hspaced => ?_
      have hleft := (hforward t item rest hrest).1.length_le
      have hleft' := (hforward u item rest' hrest').1.length_le
      dsimp only
      rcases hspaced.skipSpace_cases with ⟨hend, hend'⟩ | ⟨c, more, more', hnext, hnext', hmore⟩
      · rw [hend, hend']
        exact Alike.failAt
      rw [hnext, hnext']
      by_cases hclose : c = ']'
      · rw [hclose]
        exact Alike.ok _ hmore
      by_cases hcomma : c = ','
      · rw [hcomma]
        rcases hmore.skipSpace_cases with ⟨hend, hend'⟩ | ⟨d, after, after', hafter, hafter', hspaced⟩
        · simp only [hend, hend']
          exact Alike.failAt
        simp only [hafter, hafter']
        by_cases hclose : d = ']'
        · rw [hclose]
          exact Alike.failAt
        have hshort := length_add_two_le hnext hafter
        have hshort' := length_add_two_le hnext' hafter'
        simp only [List.cons.injEq, hclose, false_and, imp_self, implies_true]
        exact ih _ (.keep hspaced) (List.cons_ne_nil _ _) (by rw [List.length_cons]; omega)
          (by rw [List.length_cons]; omega)
      simp only [List.cons.injEq, hclose, hcomma, false_and, imp_self, implies_true]
      exact Alike.failAt

theorem ignoresSpacing_list : IgnoresSpacing (list read) := by
  intro t u h
  rw [list, list]
  rcases h.skipSpace_cases with ⟨ht, hu⟩ | ⟨c, t', u', ht, hu, hrest⟩
  · rw [ht, hu]
    exact Alike.failAt
  · rw [ht, hu]
    by_cases hclose : c = ']'
    · rw [hclose]
      exact Alike.ok _ hrest
    · have hlength := length_lt_of_skipSpace ht
      have hlength' := length_lt_of_skipSpace hu
      simp only [List.cons.injEq, hclose, false_and, imp_self, implies_true]
      exact elements_alike hread hforward [] (.keep hrest) (List.cons_ne_nil _ _) hlength hlength'

/-- With more rounds than there are characters, both readings of the members go on alike. -/
theorem members_alike {fuel : Text} : ∀ {fuel' t u : Text} (done : List (Text × Data)), Spaced t u →
    t.length < fuel.length → u.length < fuel'.length →
      Alike (members read done fuel t) (members read done fuel' u) := by
  induction fuel with
  | nil => exact fun done _ hlength => absurd hlength (Nat.not_lt_zero _)
  | cons f fuel ih =>
    intro fuel' t u done h hlength hlength'
    cases fuel' with
    | nil => exact absurd hlength' (Nat.not_lt_zero _)
    | cons f' fuel' =>
      rw [List.length_cons] at hlength hlength'
      rw [members, members]
      refine (Quoted.ignoresSpacing_read h).bind fun key colon colon' hkey hkey' hspaced => ?_
      have hcolon := (Quoted.leaves_read t key colon hkey).length_le
      have hcolon' := (Quoted.leaves_read u key colon' hkey').length_le
      refine (ignoresSpacing_memberValue hread hspaced).bind fun v rest rest' hrest hrest' hspaced => ?_
      have hleft := length_lt_of_memberValue hforward hrest
      have hleft' := length_lt_of_memberValue hforward hrest'
      dsimp only
      rcases hspaced.skipSpace_cases with ⟨hend, hend'⟩ | ⟨c, more, more', hnext, hnext', hmore⟩
      · rw [hend, hend']
        exact Alike.failAt
      rw [hnext, hnext']
      by_cases hclose : c = '\x7d'
      · rw [hclose]
        exact Alike.ok _ hmore
      by_cases hcomma : c = ','
      · rw [hcomma]
        rcases hmore.skipSpace_cases with ⟨hend, hend'⟩ | ⟨d, after, after', hafter, hafter', hspaced⟩
        · simp only [hend, hend']
          exact Alike.failAt
        simp only [hafter, hafter']
        by_cases hclose : d = '\x7d'
        · rw [hclose]
          exact Alike.failAt
        by_cases hquote : d = '"'
        · have hshort := length_add_two_le hnext hafter
          have hshort' := length_add_two_le hnext' hafter'
          rw [hquote]
          exact ih _ hspaced (by omega) (by omega)
        simp only [List.cons.injEq, hclose, hquote, false_and, imp_self, implies_true]
        exact Alike.failAt
      simp only [List.cons.injEq, hclose, hcomma, false_and, imp_self, implies_true]
      exact Alike.failAt

theorem ignoresSpacing_object : IgnoresSpacing (object read) := by
  intro t u h
  rw [object, object]
  rcases h.skipSpace_cases with ⟨ht, hu⟩ | ⟨c, t', u', ht, hu, hrest⟩
  · rw [ht, hu]
    exact Alike.failAt
  · rw [ht, hu]
    by_cases hclose : c = '\x7d'
    · rw [hclose]
      exact Alike.ok _ hrest
    by_cases hquote : c = '"'
    · rw [hquote]
      exact members_alike hread hforward [] hrest (length_lt_of_skipSpace ht) (length_lt_of_skipSpace hu)
    simp only [List.cons.injEq, hclose, hquote, false_and, imp_self, implies_true]
    exact Alike.failAt

end Collections

theorem ignoresSpacing_value (depth : Nat) : IgnoresSpacing (value depth) := by
  induction depth with
  | zero =>
    intro t u h
    rcases h.skipSpace_cases with ⟨ht, hu⟩ | ⟨c, t', u', ht, hu, hrest⟩
    · simp only [value, ht, hu]
      exact Alike.failAt
    by_cases hbracket : c = '['
    · simp only [value, ht, hu, hbracket]
      exact Alike.failAt
    by_cases hbrace : c = '\x7b'
    · simp only [value, ht, hu, hbrace]
      exact Alike.failAt
    rw [value_scalar 0 ht hbracket hbrace, value_scalar 0 hu hbracket hbrace]
    exact scalar_alike hrest
  | succ depth ih =>
    intro t u h
    rcases h.skipSpace_cases with ⟨ht, hu⟩ | ⟨c, t', u', ht, hu, hrest⟩
    · simp only [value, ht, hu]
      exact Alike.failAt
    by_cases hbracket : c = '['
    · simp only [value, ht, hu, hbracket]
      exact ignoresSpacing_list ih (value_forward depth) hrest
    by_cases hbrace : c = '\x7b'
    · simp only [value, ht, hu, hbrace]
      exact ignoresSpacing_object ih (value_forward depth) hrest
    rw [value_scalar _ ht hbracket hbrace, value_scalar _ hu hbracket hbrace]
    exact scalar_alike hrest

/-! ## Documents -/

/-- With more white space a text is the same document, or it is none, for the same reason or
for what is wrong with the white space behind its end. -/
theorem document_spaced {t u : Text} (h : Spaced t u) :
    Agree Failure.Reworded Eq (document t) (document u) := by
  rw [document, document]
  refine (ignoresSpacing_value maxNesting h).bind fun v rest rest' _ _ hspaced => ?_
  dsimp only
  rcases hspaced.skipSpace_cases with ⟨hend, hend'⟩ | ⟨c, more, more', hnext, hnext', -⟩
  · rw [hend, hend']
    exact .ok rfl
  · rw [hnext, hnext']
    exact .error .same

end Json
end PolicyLint
