/-
Paths as shown to a reader who knows where they begin.

What is left of a path after a base is cut out of its pieces, so its components are
those of the path after those of the base.
-/
import PolicyLint.Proofs.Path.Components

namespace PolicyLint
namespace Path

/-! ## Pieces without fillers -/

theorem innerComponents_nil : innerComponents [] = [] := rfl

theorem innerComponents_cons_filler {p : Bytes} (hp : isFiller p = true) (ps : List Bytes) :
    innerComponents (p :: ps) = innerComponents ps := by
  simp [innerComponents, hp]

theorem innerComponents_cons {p : Bytes} (hp : isFiller p = false) (ps : List Bytes) :
    innerComponents (p :: ps) = component p :: innerComponents ps := by
  simp [innerComponents, hp]

theorem innerComponents_reverse (ps : List Bytes) :
    innerComponents ps.reverse = (innerComponents ps).reverse := by
  simp [innerComponents]

theorem innerComponents_dropComponents (n : Nat) (ps : List Bytes) :
    innerComponents (dropComponents n ps) = (innerComponents ps).drop n := by
  induction ps generalizing n with
  | nil => cases n <;> simp [dropComponents, innerComponents_nil]
  | cons p ps ih =>
    cases n with
    | zero => rfl
    | succ n =>
      rw [dropComponents]
      by_cases hp : isFiller p = true
      · rw [if_pos hp, ih, innerComponents_cons_filler hp]
      · rw [if_neg hp, ih]
        rw [Bool.not_eq_true] at hp
        rw [innerComponents_cons hp, List.drop_succ_cons]

theorem innerComponents_trimPiecesStart (ps : List Bytes) :
    innerComponents (trimPiecesStart ps) = innerComponents ps := by
  induction ps with
  | nil => rfl
  | cons p ps ih =>
    rw [trimPiecesStart, List.dropWhile_cons]
    by_cases hp : isFiller p = true
    · rw [if_pos hp, innerComponents_cons_filler hp]
      exact ih
    · rw [if_neg hp]

theorem innerComponents_trimPiecesEnd (ps : List Bytes) :
    innerComponents (trimPiecesEnd ps) = innerComponents ps := by
  have h := innerComponents_trimPiecesStart ps.reverse
  rw [innerComponents_reverse] at h
  rw [trimPiecesEnd, innerComponents_reverse]
  rw [trimPiecesStart] at h
  rw [h, List.reverse_reverse]

theorem trimPiecesStart_isSuffix (ps : List Bytes) : trimPiecesStart ps <:+ ps :=
  List.dropWhile_suffix _

theorem trimPiecesEnd_isPrefix (ps : List Bytes) : trimPiecesEnd ps <+: ps := by
  have h := List.dropWhile_suffix isFiller (l := ps.reverse)
  rw [← List.reverse_prefix, List.reverse_reverse] at h
  exact h

theorem dropComponents_isSuffix (n : Nat) (ps : List Bytes) : dropComponents n ps <:+ ps := by
  induction ps generalizing n with
  | nil => cases n <;> exact List.suffix_rfl
  | cons p ps ih =>
    cases n with
    | zero => exact List.suffix_rfl
    | succ n =>
      rw [dropComponents]
      split
      · exact (ih (n + 1)).trans (List.suffix_cons p ps)
      · exact (ih n).trans (List.suffix_cons p ps)

/-- The first piece, if there is one, is a component. -/
def StartsWithComponent (ps : List Bytes) : Prop :=
  ∀ p ∈ ps.head?, isFiller p = false

theorem startsWithComponent_trimPiecesStart (ps : List Bytes) :
    StartsWithComponent (trimPiecesStart ps) := by
  intro p hp
  have h := List.head?_dropWhile_not isFiller ps
  rw [trimPiecesStart] at hp
  rw [Option.mem_def] at hp
  rw [hp] at h
  exact h

theorem StartsWithComponent.trimPiecesEnd {ps : List Bytes} (h : StartsWithComponent ps) :
    StartsWithComponent (trimPiecesEnd ps) := by
  intro p hp
  obtain ⟨rest, hrest⟩ := trimPiecesEnd_isPrefix ps
  cases hq : Path.trimPiecesEnd ps with
  | nil =>
    rw [hq] at hp
    exact absurd hp (by simp)
  | cons q qs =>
    rw [hq] at hp hrest
    refine h p ?_
    rw [← hrest]
    exact hp

/-! ## Pieces put together again -/

theorem innerComponents_pieces_ofPieces {ps : List Bytes} (h : ∀ p ∈ ps, slash ∉ p) :
    innerComponents (Text.pieces slash (ofPieces ps)) = innerComponents ps := by
  by_cases hne : ps = []
  · subst hne
    rfl
  · rw [ofPieces, Text.pieces_join hne h]

theorem components_ofPieces {ps : List Bytes} (hs : StartsWithComponent ps)
    (h : ∀ p ∈ ps, slash ∉ p) : components (ofPieces ps) = innerComponents ps := by
  cases ps with
  | nil => rfl
  | cons p ps =>
    have hp : isFiller p = false := hs p rfl
    have hne : p ≠ [] := by
      rintro rfl
      exact absurd hp (by decide)
    have hdot : p ≠ [dot] := by
      rintro rfl
      exact absurd hp (by decide)
    have hpieces : Text.pieces slash (ofPieces (p :: ps)) = p :: ps :=
      Text.pieces_join (by simp) h
    cases ht : ofPieces (p :: ps) with
    | nil =>
      rw [ht, Text.pieces_nil] at hpieces
      exact absurd (List.cons.inj hpieces).1.symm hne
    | cons c t =>
      rw [ht] at hpieces
      have hc : c ≠ slash := by
        rintro rfl
        rw [Text.pieces_sep] at hpieces
        exact hne (List.cons.inj hpieces).1.symm
      rw [components_eq, split_relative hc, hpieces, List.head?_cons,
        if_neg (by simpa using hdot)]
      rfl

/-! ## The two ends of a path -/

theorem no_separator_of_mem_split {p q : Bytes} (h : q ∈ (split p).2) : slash ∉ q := by
  cases p with
  | nil => exact absurd h (by simp [split_nil])
  | cons c t =>
    by_cases hc : c = slash
    · subst hc
      rw [split_absolute] at h
      exact Text.not_mem_of_mem_pieces h
    · rw [split_relative hc] at h
      split at h
      · exact Text.not_mem_of_mem_pieces (List.mem_of_mem_tail h)
      · exact Text.not_mem_of_mem_pieces h

/-- A path begins with the root or a dot, or with a piece that is a component. -/
theorem split_cases (p : Bytes) :
    (split p).1 = some .root ∨ (split p).1 = some .here ∨
      (split p).1 = none ∧ StartsWithComponent (split p).2 ∧ ((split p).2 = [] → p = []) := by
  cases p with
  | nil =>
    refine .inr (.inr ⟨rfl, ?_, fun _ => rfl⟩)
    intro q hq
    exact absurd hq (by simp [split_nil])
  | cons c t =>
    by_cases hc : c = slash
    · subst hc
      exact .inl (by rw [split_absolute])
    · rw [split_relative hc]
      by_cases hdot : (Text.pieces slash (c :: t)).head? = some [dot]
      · rw [if_pos hdot]
        exact .inr (.inl rfl)
      · rw [if_neg hdot]
        refine .inr (.inr ⟨rfl, fun q hq => ?_, fun h => absurd h (Text.pieces_ne_nil slash _)⟩)
        rw [Option.mem_def] at hq
        have hqdot : q ≠ [dot] := by
          rintro rfl
          exact hdot hq
        have hqne : q ≠ [] := by
          rintro rfl
          rw [Text.pieces_cons hc, List.head?_cons, Option.some.injEq] at hq
          exact absurd hq (by simp)
        simp [isFiller, hqne, hqdot]

theorem components_trimEnd (p : Bytes) : components (trimEnd p) = components p := by
  have hsep : ∀ q ∈ trimPiecesEnd (split p).2, slash ∉ q := fun q hq =>
    no_separator_of_mem_split ((trimPiecesEnd_isPrefix _).subset hq)
  rw [components_eq p, trimEnd]
  rcases split_cases p with hroot | hhere | ⟨hnone, hstart, -⟩
  · simp only [hroot]
    rw [components_absolute, innerComponents_pieces_ofPieces hsep, innerComponents_trimPiecesEnd]
    rfl
  · simp only [hhere]
    rw [← innerComponents_trimPiecesEnd]
    cases hq : trimPiecesEnd (split p).2 with
    | nil => rfl
    | cons q qs =>
      rw [hq] at hsep
      rw [List.isEmpty_cons, if_neg (by simp)]
      have happend := components_append (p := [dot]) (by simp) (ofPieces (q :: qs))
      rw [innerComponents_pieces_ofPieces hsep] at happend
      exact happend
  · simp only [hnone]
    rw [components_ofPieces hstart.trimPiecesEnd hsep, innerComponents_trimPiecesEnd]
    rfl

/-! ## Below a base -/

/-- What is left after a base that the path begins with. -/
theorem components_relative {base p : Bytes} (h : components base <+: components p) :
    components (relative base p) = (components p).drop (components base).length := by
  rw [relative, below?]
  by_cases hb : components base = []
  · simp only [hb, List.isEmpty_nil, if_true, Option.getD_some, List.length_nil, List.drop_zero]
    exact components_trimEnd p
  · have hempty : (components base).isEmpty = false := by simpa using hb
    simp only [hempty, Bool.false_eq_true, if_false, List.isPrefixOf_iff_prefix.mpr h, if_true,
      Option.getD_some]
    rw [components_ofPieces (startsWithComponent_trimPiecesStart _).trimPiecesEnd,
      innerComponents_trimPiecesEnd, innerComponents_trimPiecesStart,
      innerComponents_dropComponents, components_eq p]
    · -- The component at the very beginning is the first one of the base.
      cases hfirst : (split p).1 with
      | none => rfl
      | some f =>
        obtain ⟨n, hn⟩ : ∃ n, (components base).length = n + 1 :=
          Nat.exists_eq_succ_of_ne_zero fun h0 => hb (List.length_eq_zero_iff.mp h0)
        rw [hn]
        rfl
    · intro q hq
      have hdropped := (trimPiecesStart_isSuffix _).subset ((trimPiecesEnd_isPrefix _).subset hq)
      exact no_separator_of_mem_split ((dropComponents_isSuffix _ _).subset hdropped)

theorem relative_of_not_below {base p : Bytes} (h : ¬components base <+: components p) :
    relative base p = p := by
  have hb : components base ≠ [] := fun hb => h (hb ▸ List.nil_prefix)
  have hempty : (components base).isEmpty = false := by simpa using hb
  rw [← List.isPrefixOf_iff_prefix, Bool.not_eq_true] at h
  simp only [relative, below?, hempty, h, Bool.false_eq_true, if_false, Option.getD_none]

/-! ## Where the root stands -/

theorem root_not_mem_innerComponents (ps : List Bytes) : .root ∉ innerComponents ps := by
  intro h
  obtain ⟨p, -, hp⟩ := List.mem_map.mp h
  rw [component] at hp
  split at hp <;> exact absurd hp (by simp)

/-- What is joined on to a base lies below it, or is absolute. -/
theorem components_join_cases (base p : Bytes) :
    components base <+: components (join base p) ∨ .root ∈ components (join base p) := by
  by_cases habs : isAbsolute p = true
  · rw [join_of_isAbsolute habs]
    cases p with
    | nil => exact absurd habs (by simp [isAbsolute])
    | cons c p =>
      obtain rfl : c = slash := by simpa [isAbsolute] using habs
      rw [components_absolute]
      exact .inr List.mem_cons_self
  · rw [Bool.not_eq_true] at habs
    by_cases hb : base = []
    · subst hb
      exact .inl List.nil_prefix
    · rw [components_join hb habs]
      exact .inl (List.prefix_append _ _)

end Path
end PolicyLint
