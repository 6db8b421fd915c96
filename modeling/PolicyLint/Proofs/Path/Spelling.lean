/-
Different spellings of one path.

Two paths with the same components differ in what stands between separators without being
a component.  Joining keeps that so, on either side.
-/
import PolicyLint.Proofs.Path.Relative

namespace PolicyLint
namespace Path

/-! ## What the components tell -/

/-- True for a component that can stand behind another one. -/
def Component.isInner : Component → Bool
  | up => true
  | name _ => true
  | _ => false

theorem isInner_component (piece : Bytes) : (component piece).isInner = true := by
  rw [component]
  split <;> rfl

theorem filter_innerComponents (ps : List Bytes) :
    (innerComponents ps).filter Component.isInner = innerComponents ps := by
  rw [List.filter_eq_self]
  intro c hc
  obtain ⟨p, -, rfl⟩ := List.mem_map.mp hc
  exact isInner_component p

/-- The first piece of a path is a component, or it is nothing behind another one. -/
theorem innerComponents_pieces_split (p : Bytes) :
    innerComponents (Text.pieces slash p) = innerComponents (split p).2 := by
  cases p with
  | nil => rfl
  | cons c t =>
    by_cases hc : c = slash
    · rw [hc, Text.pieces_sep, split_absolute, innerComponents_cons_filler (by decide)]
    · rw [split_relative hc]
      split
      next hdot =>
        cases hp : Text.pieces slash (c :: t) with
        | nil => exact absurd hp (Text.pieces_ne_nil slash _)
        | cons q qs =>
          rw [hp, List.head?_cons, Option.some.injEq] at hdot
          rw [hdot, innerComponents_cons_filler (by decide), List.tail_cons]
      next => rfl

theorem innerComponents_pieces (p : Bytes) :
    innerComponents (Text.pieces slash p) = (components p).filter Component.isInner := by
  rw [innerComponents_pieces_split, components_eq, List.filter_append, filter_innerComponents]
  rcases split_cases p with hroot | hhere | ⟨hnone, -, -⟩
  · rw [hroot]
    rfl
  · rw [hhere]
    rfl
  · rw [hnone]
    rfl

theorem isAbsolute_iff {p : Bytes} : isAbsolute p = true ↔ .root ∈ components p := by
  constructor
  · intro h
    cases p with
    | nil => exact absurd h (by decide)
    | cons c p =>
      obtain rfl : c = slash := by simpa [isAbsolute] using h
      rw [components_absolute]
      exact List.mem_cons_self
  · intro h
    cases p with
    | nil => exact absurd h (by simp [components_eq, split_nil, innerComponents_nil])
    | cons c p =>
      by_cases hc : c = slash
      · rw [hc]
        rfl
      · rw [components_eq, split_relative hc] at h
        split at h
        next => simp [root_not_mem_innerComponents] at h
        next => simp [root_not_mem_innerComponents] at h

theorem isAbsolute_congr {p q : Bytes} (h : components p = components q) :
    isAbsolute p = isAbsolute q := by
  rw [Bool.eq_iff_iff, isAbsolute_iff, isAbsolute_iff, h]

theorem components_eq_nil_iff {p : Bytes} : components p = [] ↔ p = [] := by
  constructor
  · intro h
    rw [components_eq] at h
    rcases split_cases p with hroot | hhere | ⟨hnone, hstart, hempty⟩
    · rw [hroot] at h
      exact nomatch h
    · rw [hhere] at h
      exact nomatch h
    · rw [hnone] at h
      apply hempty
      cases hp : (split p).2 with
      | nil => rfl
      | cons q qs =>
        rw [hp] at h hstart
        have hinner : innerComponents (q :: qs) = component q :: innerComponents qs :=
          innerComponents_cons (hstart q rfl) qs
        rw [hinner] at h
        exact nomatch h
  · intro h
    rw [h]
    rfl

theorem component_inj {p q : Bytes} (h : component p = component q) : p = q := by
  rw [component, component] at h
  split at h
  next hp =>
    split at h
    next hq => rw [hp, hq]
    next => exact absurd h (by simp)
  next =>
    split at h
    next => exact absurd h (by simp)
    next => exact Component.name.inj h

/-- Without the fillers the pieces of a path are those of every other spelling of it. -/
theorem filter_pieces_congr {p q : Bytes} (h : components p = components q) :
    (Text.pieces slash p).filter (!isFiller ·) = (Text.pieces slash q).filter (!isFiller ·) := by
  have hinner := innerComponents_pieces p
  rw [h, ← innerComponents_pieces q] at hinner
  exact (List.map_inj_right fun _ _ => component_inj).mp hinner

/-! ## Joining -/

theorem join_nil (p : Bytes) : join [] p = p := by
  rw [join]
  split <;> rfl

theorem components_join_congr_right (base : Bytes) {p q : Bytes} (h : components p = components q) :
    components (join base p) = components (join base q) := by
  have habs := isAbsolute_congr h
  by_cases hp : isAbsolute p = true
  · rw [join_of_isAbsolute hp, join_of_isAbsolute (habs ▸ hp), h]
  · rw [Bool.not_eq_true] at hp
    by_cases hb : base = []
    · rw [hb, join_nil, join_nil, h]
    · rw [components_join hb hp, components_join hb (habs ▸ hp), innerComponents_pieces,
        innerComponents_pieces, h]

theorem components_join_congr_left {b b' : Bytes} (h : components b = components b') (p : Bytes) :
    components (join b p) = components (join b' p) := by
  by_cases hp : isAbsolute p = true
  · rw [join_of_isAbsolute hp, join_of_isAbsolute hp]
  · rw [Bool.not_eq_true] at hp
    by_cases hb : b = []
    · have hb' : b' = [] := components_eq_nil_iff.mp (h ▸ components_eq_nil_iff.mpr hb)
      rw [hb, hb']
    · have hb' : b' ≠ [] := fun hb' => hb (components_eq_nil_iff.mp (h ▸ components_eq_nil_iff.mpr hb'))
      rw [components_join hb hp, components_join hb' hp, h]

/-! ## What is shown and joined on again -/

/-- Only the first component can be one that does not stand behind others. -/
theorem isInner_of_mem_drop {p : Bytes} {n : Nat} {c : Component}
    (h : c ∈ (components p).drop (n + 1)) : c.isInner = true := by
  rw [components_eq] at h
  have hinner : c ∈ innerComponents (split p).2 := by
    cases hfirst : (split p).1 with
    | none =>
      rw [hfirst] at h
      exact List.mem_of_mem_drop h
    | some f =>
      rw [hfirst] at h
      exact List.mem_of_mem_drop h
  obtain ⟨piece, -, rfl⟩ := List.mem_map.mp hinner
  exact isInner_component piece

theorem innerComponents_pieces_of_isInner {p : Bytes} (h : ∀ c ∈ components p, c.isInner = true) :
    innerComponents (Text.pieces slash p) = components p := by
  rw [innerComponents_pieces, List.filter_eq_self]
  exact h

theorem not_isAbsolute_of_isInner {p : Bytes} (h : ∀ c ∈ components p, c.isInner = true) :
    isAbsolute p = false := by
  rw [Bool.eq_false_iff, ne_eq, isAbsolute_iff]
  exact fun hroot => absurd (h _ hroot) (by decide)

/-- Joining what is shown of a path on to the base gives the path back. -/
theorem components_join_relative {base p : Bytes}
    (h : components base <+: components p ∨ .root ∈ components p) :
    components (join base (relative base p)) = components p := by
  by_cases hbelow : components base <+: components p
  · have hshown := components_relative hbelow
    by_cases hb : base = []
    · rw [hb, join_nil]
      rw [hb] at hshown
      exact hshown
    · obtain ⟨n, hn⟩ : ∃ n, (components base).length = n + 1 :=
        Nat.exists_eq_succ_of_ne_zero fun h0 =>
          hb (components_eq_nil_iff.mp (List.length_eq_zero_iff.mp h0))
      have hinner : ∀ c ∈ components (relative base p), c.isInner = true := by
        intro c hc
        rw [hshown, hn] at hc
        exact isInner_of_mem_drop hc
      obtain ⟨rest, hrest⟩ := hbelow
      rw [components_join hb (not_isAbsolute_of_isInner hinner),
        innerComponents_pieces_of_isInner hinner, hshown, ← hrest, List.drop_left]
  · rw [relative_of_not_below hbelow,
      join_of_isAbsolute (isAbsolute_iff.mpr (h.resolve_left hbelow))]

/-- Different paths are shown differently. -/
theorem components_eq_of_relative_eq {base p q : Bytes}
    (hp : components base <+: components p ∨ .root ∈ components p)
    (hq : components base <+: components q ∨ .root ∈ components q)
    (h : components (relative base p) = components (relative base q)) :
    components p = components q := by
  rw [← components_join_relative hp, ← components_join_relative hq]
  exact components_join_congr_right base h

/-- What is joined on to the base is shown as it was, unless it begins with a dot of its own. -/
theorem components_relative_join {base q : Bytes} (hq : isAbsolute q = false)
    (hdot : (components q).head? ≠ some .here) :
    components (relative base (join base q)) = components q := by
  by_cases hb : base = []
  · have hbelow : components [] <+: components q := List.nil_prefix
    rw [hb, join_nil, components_relative hbelow]
    rfl
  · have hinner : ∀ c ∈ components q, c.isInner = true := by
      have hroot : (split q).1 ≠ some .root := by
        intro hfirst
        have hmem : Component.root ∈ components q := by
          rw [components_eq, hfirst]
          exact List.mem_cons_self
        rw [← isAbsolute_iff, hq] at hmem
        exact absurd hmem (by decide)
      have hhere : (split q).1 ≠ some .here := by
        intro hfirst
        rw [components_eq, hfirst] at hdot
        exact hdot rfl
      have hnone : (split q).1 = none :=
        ((split_cases q).resolve_left hroot).resolve_left hhere |>.1
      intro c hc
      rw [components_eq, hnone] at hc
      obtain ⟨piece, -, rfl⟩ := List.mem_map.mp hc
      exact isInner_component piece
    have hjoin := components_join hb hq
    rw [innerComponents_pieces_of_isInner hinner] at hjoin
    rw [components_relative (by rw [hjoin]; exact List.prefix_append _ _), hjoin, List.drop_left]

end Path
end PolicyLint
