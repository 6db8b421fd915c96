/-
The components of paths that are put together.

A path is cut at its separators.  What is joined on behind a separator adds its own
pieces at the end, so the components of a joined path are those of the path in
front, followed by those of the pieces behind it.
-/
import PolicyLint.Path
import PolicyLint.Proofs.Text.Pieces

namespace PolicyLint

namespace Path

/-- The components of pieces that do not stand at the beginning of a path. -/
def innerComponents (ps : List Bytes) : List Component :=
  (ps.filter (!isFiller ·)).map component

theorem innerComponents_append (ps qs : List Bytes) :
    innerComponents (ps ++ qs) = innerComponents ps ++ innerComponents qs := by
  simp [innerComponents]

theorem components_eq (p : Bytes) :
    components p = (split p).1.toList ++ innerComponents (split p).2 := rfl

/-- A name of something in a directory. -/
structure IsName (n : Bytes) : Prop where
  ne_nil : n ≠ []
  no_separator : slash ∉ n
  ne_dot : n ≠ [dot]
  ne_dots : n ≠ [dot, dot]

theorem IsName.not_isAbsolute {n : Bytes} (h : IsName n) : isAbsolute n = false := by
  rw [isAbsolute, decide_eq_false_iff_not]
  intro hhead
  exact h.no_separator (List.mem_of_mem_head? hhead)

theorem IsName.not_isFiller {n : Bytes} (h : IsName n) : isFiller n = false := by
  simp [isFiller, h.ne_nil, h.ne_dot]

theorem IsName.pieces_eq {n : Bytes} (h : IsName n) : Text.pieces slash n = [n] :=
  Text.pieces_of_not_mem h.no_separator

theorem IsName.innerComponents_eq {n : Bytes} (h : IsName n) :
    innerComponents [n] = [.name n] := by
  simp [innerComponents, h.not_isFiller, component, h.ne_dots]

/-! ## Cutting off the beginning -/

theorem split_nil : split [] = (none, []) := rfl

theorem split_absolute (t : Bytes) : split (slash :: t) = (some .root, Text.pieces slash t) := by
  rw [split, Text.pieces_sep]
  rfl

/-- A relative path that is not empty begins with a piece that is not empty. -/
theorem split_relative {c : UInt8} (hc : c ≠ slash) (t : Bytes) :
    split (c :: t) =
      if (Text.pieces slash (c :: t)).head? = some [dot] then
        (some .here, (Text.pieces slash (c :: t)).tail)
      else (none, Text.pieces slash (c :: t)) := by
  rw [split, Text.pieces_cons hc]
  by_cases h : c :: (Text.pieces slash t).headD [] = [dot]
  · rw [h]
    rfl
  · rw [List.head?_cons, if_neg (by simpa using h)]
    split
    · rename_i heq
      exact absurd (List.cons.inj heq).1 (by simp)
    · rename_i heq
      exact absurd (List.cons.inj heq).1 h
    · rfl

/-- What follows a separator comes after the pieces in front of it. -/
theorem split_append {p : Bytes} (hp : p ≠ []) (t : Bytes) :
    split (p ++ slash :: t) = ((split p).1, (split p).2 ++ Text.pieces slash t) := by
  cases p with
  | nil => exact absurd rfl hp
  | cons c p =>
    by_cases hc : c = slash
    · subst hc
      rw [List.cons_append, split_absolute, split_absolute, Text.pieces_append_sep]
    · have hpieces := Text.pieces_append_sep slash (c :: p) t
      rw [List.cons_append] at hpieces ⊢
      rw [split_relative hc, split_relative hc, hpieces]
      cases hq : Text.pieces slash (c :: p) with
      | nil => exact absurd hq (Text.pieces_ne_nil slash _)
      | cons q qs =>
        rw [List.cons_append, List.head?_cons, List.head?_cons]
        by_cases h : some q = some [dot]
        · rw [if_pos h, if_pos h]
          rfl
        · rw [if_neg h, if_neg h]
          rfl

theorem components_append {p : Bytes} (hp : p ≠ []) (t : Bytes) :
    components (p ++ slash :: t) = components p ++ innerComponents (Text.pieces slash t) := by
  rw [components_eq, components_eq, split_append hp, innerComponents_append, List.append_assoc]

theorem components_absolute (t : Bytes) :
    components (slash :: t) = .root :: innerComponents (Text.pieces slash t) := by
  rw [components_eq, split_absolute]
  rfl

/-! ## Joining -/

theorem join_of_isAbsolute {base p : Bytes} (h : isAbsolute p = true) : join base p = p := by
  rw [join, if_pos h]

/-- A relative path joined on adds the components of its pieces. -/
theorem components_join {base p : Bytes} (hb : base ≠ []) (hp : isAbsolute p = false) :
    components (join base p) = components base ++ innerComponents (Text.pieces slash p) := by
  have hempty : base.isEmpty = false := by simpa using hb
  rw [join, if_neg (by simp [hp]), hempty, Bool.false_or]
  by_cases hlast : base.getLast? = some slash
  · rw [if_pos (decide_eq_true hlast)]
    obtain ⟨front, rfl⟩ : ∃ front, base = front ++ [slash] := List.getLast?_eq_some_iff.mp hlast
    rw [List.append_assoc, List.singleton_append]
    by_cases hfront : front = []
    · subst hfront
      rw [List.nil_append, List.nil_append, components_absolute, components_absolute]
      rfl
    · rw [components_append hfront, components_append hfront, Text.pieces_nil]
      simp [innerComponents, isFiller]
  · rw [if_neg (by simpa using hlast)]
    exact components_append hb p

theorem components_join_name {base n : Bytes} (hb : base ≠ []) (hn : IsName n) :
    components (join base n) = components base ++ [.name n] := by
  rw [components_join hb hn.not_isAbsolute, hn.pieces_eq, hn.innerComponents_eq]

theorem join_ne_nil {base p : Bytes} (hb : base ≠ []) : join base p ≠ [] := by
  rw [join]
  split
  · rename_i h
    rintro rfl
    exact absurd h (by simp [isAbsolute])
  · split <;> simp [hb]

/- A relative path stands behind the base, with a separator if one is missing there. -/
theorem exists_join_eq (base : Bytes) :
    ∃ front, ∀ p, isAbsolute p = false → join base p = front ++ p := by
  by_cases hend : (base.isEmpty || base.getLast? = some slash) = true
  · refine ⟨base, fun p hp => ?_⟩
    rw [join, if_neg (by simp [hp]), if_pos hend]
  · refine ⟨base ++ [slash], fun p hp => ?_⟩
    rw [join, if_neg (by simp [hp]), if_neg hend, List.append_assoc]
    rfl

/-- Joining a name and then a relative path is joining the two at once. -/
theorem join_join {base n p : Bytes} (hn : IsName n) (hp : isAbsolute p = false) :
    join (join base n) p = join base (n ++ slash :: p) := by
  have habs : isAbsolute (n ++ slash :: p) = false := by
    have h := hn.not_isAbsolute
    rw [isAbsolute, decide_eq_false_iff_not] at h ⊢
    rwa [List.head?_append, List.head?_eq_some_head hn.ne_nil, Option.some_or,
      ← List.head?_eq_some_head hn.ne_nil]
  have hlast : n.getLast? ≠ some slash := fun h => hn.no_separator (List.mem_of_getLast? h)
  obtain ⟨front, hfront⟩ := exists_join_eq base
  rw [hfront n hn.not_isAbsolute, hfront _ habs, join, if_neg (by simp [hp]),
    if_neg (by simp [hn.ne_nil, hlast]), List.append_assoc]

/-- The path `base` followed by names. -/
def extend (base : Bytes) (names : List Bytes) : Bytes :=
  names.foldl join base

theorem extend_nil (base : Bytes) : extend base [] = base := rfl

theorem extend_cons (base n : Bytes) (names : List Bytes) :
    extend base (n :: names) = extend (join base n) names := rfl

theorem components_extend {base : Bytes} (hb : base ≠ []) {names : List Bytes}
    (hn : ∀ n ∈ names, IsName n) :
    components (extend base names) = components base ++ names.map .name := by
  induction names generalizing base with
  | nil => rw [extend_nil, List.map_nil, List.append_nil]
  | cons n names ih =>
    rw [extend_cons, ih (join_ne_nil hb) fun m hm => hn m (List.mem_cons_of_mem n hm),
      components_join_name hb (hn n List.mem_cons_self), List.append_assoc]
    rfl

end Path
end PolicyLint
