/-
Trees that are put together item by item.

An item is put only below a directory and never in place of one, so every tree that
is built from paths is well-formed.
-/
import PolicyLint.Proofs.Files.Resolve

namespace PolicyLint
namespace Files
namespace Tree

variable {t : Tree} {p q : Place} {i : Item}

/-! ## Setting one item -/

theorem lookup_filter_of_ne (items : List (Place × Item)) (h : p ≠ q) :
    (items.filter (·.1 ≠ q)).lookup p = items.lookup p := by
  induction items with
  | nil => rfl
  | cons e items ih =>
    obtain ⟨r, j⟩ := e
    by_cases hr : r = q
    · have hpr : (p == r) = false := by
        rw [hr]
        exact beq_false_of_ne h
      rw [List.filter_cons_of_neg (by simp [hr]), ih, List.lookup_cons, hpr]
    · rw [List.filter_cons_of_pos (by simp [hr]), List.lookup_cons, List.lookup_cons, ih]

theorem item?_set_of_ne (i : Item) (h : p ≠ q) : (t.set q i).item? p = t.item? p := by
  cases p with
  | nil => rfl
  | cons n above =>
    show ((t.items.filter (·.1 ≠ q)) ++ [(q, i)]).lookup (n :: above) = t.items.lookup (n :: above)
    have hlast : [(q, i)].lookup (n :: above) = none := by
      rw [List.lookup_cons, beq_false_of_ne h]
      rfl
    rw [List.lookup_append, hlast, lookup_filter_of_ne t.items h, Option.or_none]

theorem item?_set_self {n : Bytes} : (t.set (n :: p) i).item? (n :: p) = some i := by
  show ((t.items.filter (·.1 ≠ n :: p)) ++ [(n :: p, i)]).lookup (n :: p) = some i
  have hnone : (t.items.filter (·.1 ≠ n :: p)).lookup (n :: p) = none := by
    rw [List.lookup_eq_none_iff]
    intro e he
    have hne : e.1 ≠ n :: p := of_decide_eq_true (List.mem_filter.mp he).2
    exact bne_iff_ne.mpr hne.symm
  rw [List.lookup_append, hnone, Option.none_or, List.lookup_cons, beq_self_eq_true]

theorem isDirectory_set (hfree : t.item? q ≠ some .directory)
    (hp : t.item? p = some .directory) : (t.set q i).item? p = some .directory := by
  have hne : p ≠ q := by
    rintro rfl
    exact hfree hp
  rw [item?_set_of_ne i hne, hp]

namespace WellFormed

theorem empty (working : Place) : (Tree.mk [] working).WellFormed :=
  ⟨.nil, by simp, by simp, by simp⟩

theorem names_of_directory (hw : t.WellFormed) (hp : t.item? p = some .directory) :
    ∀ n ∈ p, Path.IsName n := by
  cases p with
  | nil => simp
  | cons n above => exact hw.named _ (mem_of_lookup hp)

theorem set (hw : t.WellFormed) {n : Bytes} (hn : Path.IsName n)
    (hp : t.item? p = some .directory) (hfree : t.item? (n :: p) ≠ some .directory)
    (hi : i.size < sizeBound) : (t.set (n :: p) i).WellFormed := by
  have hmem : ∀ e ∈ (t.set (n :: p) i).items, e ∈ t.items ∨ e = (n :: p, i) := by
    intro e he
    rcases List.mem_append.mp he with he | he
    · exact .inl ((List.mem_filter.mp he).1)
    · exact .inr (List.mem_singleton.mp he)
  refine ⟨?_, fun e he => ?_, fun e he => ?_, fun e he => ?_⟩
  · show (((t.items.filter (·.1 ≠ n :: p)) ++ [(n :: p, i)]).map (·.1)).Nodup
    rw [List.map_append, List.nodup_append]
    refine ⟨hw.once.sublist (List.filter_sublist.map _), by simp, fun r hr s hs => ?_⟩
    obtain ⟨e, he, rfl⟩ := List.mem_map.mp hr
    obtain rfl : s = n :: p := by simpa using hs
    simpa using (List.mem_filter.mp he).2
  · rcases hmem e he with he | rfl
    · exact hw.named e he
    · intro m hm
      rcases List.mem_cons.mp hm with rfl | hm
      · exact hn
      · exact hw.names_of_directory hp m hm
  · rcases hmem e he with he | rfl
    · exact isDirectory_iff.mpr (isDirectory_set hfree (isDirectory_iff.mp (hw.inDirectory e he)))
    · exact isDirectory_iff.mpr (isDirectory_set hfree hp)
  · rcases hmem e he with he | rfl
    · exact hw.counted e he
    · exact hi

/-! ## Putting an item where a path leads -/

theorem put (hw : t.WellFormed) (hi : i.size < sizeBound) {ps : List Bytes}
    (hps : ∀ piece ∈ ps, Path.slash ∉ piece) (hp : t.item? p = some .directory) :
    (t.put p i ps).WellFormed := by
  induction ps generalizing t p with
  | nil => exact hw
  | cons piece rest ih =>
    have hrest : ∀ q ∈ rest, Path.slash ∉ q := fun q hq => hps q (List.mem_cons_of_mem piece hq)
    rw [Tree.put]
    by_cases hfiller : Path.isFiller piece = true
    · rw [if_pos hfiller]
      exact ih hw hrest hp
    rw [if_neg hfiller]
    by_cases hup : piece = [Path.dot, Path.dot]
    · rw [if_pos hup]
      exact ih hw hrest (hw.isDirectory_tail hp)
    rw [if_neg hup]
    have hname : Path.IsName piece := by
      rw [Path.isFiller, Bool.or_eq_true, List.isEmpty_iff, decide_eq_true_eq, not_or] at hfiller
      exact ⟨hfiller.1, hps piece List.mem_cons_self, hfiller.2, hup⟩
    split
    · -- the last name of the path
      split
      · exact hw
      next hdir =>
        exact hw.set hname hp (fun h => hdir (isDirectory_iff.mpr h)) hi
    · split
      next hnone =>
        have hfree : t.item? (piece :: p) ≠ some .directory := by simp [hnone]
        exact ih (hw.set hname hp hfree sizeBound_pos) hrest item?_set_self
      next hdir => exact ih hw hrest hdir
      next target hlink =>
        split
        · split
          next q hdir => exact ih hw hrest (isDirectory_iff.mp hdir)
          · exact hw
        · exact hw
      · exact hw

/-- Whatever is put at paths from the top, one after the other, the tree stays
well-formed. -/
theorem foldl_put (hw : t.WellFormed) {entries : List (Bytes × Item)}
    (h : ∀ e ∈ entries, e.2.size < sizeBound) :
    (entries.foldl (fun t e => t.put [] e.2 (Text.pieces Path.slash e.1)) t).WellFormed := by
  induction entries generalizing t with
  | nil => exact hw
  | cons e entries ih =>
    have hput : (t.put [] e.2 (Text.pieces Path.slash e.1)).WellFormed :=
      hw.put (h e List.mem_cons_self) (fun q hq => Text.not_mem_of_mem_pieces hq) rfl
    exact ih hput fun e' he' => h e' (List.mem_cons_of_mem e he')

end WellFormed
end Tree
end Files
end PolicyLint
