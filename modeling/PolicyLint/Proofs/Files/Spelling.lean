/-
Trees do not see how a path is spelled.

A piece that is no component only asks for a directory where it stands, and so does every
piece that follows it.  So spellings of one path lead to the same directory, names behind
them lead to the same places, and the walks from there find the same paths.
-/
import PolicyLint.Proofs.Files.Walk
import PolicyLint.Proofs.Path.Spelling

namespace PolicyLint
namespace Files

/-- The steps are at the same place, by paths that are the same. -/
def Step.Alike (s s' : Step) : Prop :=
  Path.components s.path = Path.components s'.path ∧ s.place = s'.place

/-- The paths are the same one by one. -/
def SamePaths (ps qs : List Bytes) : Prop :=
  List.Forall₂ (fun p q => Path.components p = Path.components q) ps qs

theorem samePaths_iff {ps qs : List Bytes} :
    SamePaths ps qs ↔ ps.map Path.components = qs.map Path.components := by
  rw [← List.forall₂_eq_eq_eq, List.forall₂_map_left_iff, List.forall₂_map_right_iff]
  rfl

theorem SamePaths.exists_of_mem {ps qs : List Bytes} (h : SamePaths ps qs) {p : Bytes}
    (hp : p ∈ ps) : ∃ q ∈ qs, Path.components q = Path.components p := by
  have hmem : Path.components p ∈ qs.map Path.components := by
    rw [← samePaths_iff.mp h]
    exact List.mem_map_of_mem hp
  exact List.mem_map.mp hmem

/-- Both walks end early, or both find the same paths in the same order. -/
def WalksAlike (r r' : Except WalkFailure (List Bytes)) : Prop :=
  Agree (fun _ _ => True) SamePaths r r'

namespace Tree

variable {t : Tree}

/-! ## Where paths lead -/

theorem resolve_of_not_directory {p : Place} (h : t.item? p ≠ some .directory) (links : Nat)
    (m n : Bytes) (ps qs : List Bytes) :
    t.resolve links p (m :: ps) = t.resolve links p (n :: qs) := by
  rw [resolve_cons, resolve_cons]
  cases hi : t.item? p with
  | none => rfl
  | some i =>
    cases i with
    | file b => rfl
    | link target => rfl
    | directory => exact absurd hi h

/-- Pieces that are no components make no difference in front of another piece. -/
def IgnoresFillers (t : Tree) (links : Nat) : Prop :=
  ∀ (place : Place) (ps : List Bytes) (n : Bytes) (rest : List Bytes),
    t.resolve links place (ps ++ n :: rest) =
      t.resolve links place (ps.filter (!Path.isFiller ·) ++ n :: rest)

theorem IgnoresFillers.passLink {links : Nat}
    (h : ∀ left, links = left + 1 → t.IgnoresFillers left) (place : Place) (target : Bytes)
    (ps : List Bytes) (n : Bytes) (rest : List Bytes) :
    t.passLink links place target (ps ++ n :: rest) =
      t.passLink links place target (ps.filter (!Path.isFiller ·) ++ n :: rest) := by
  cases links with
  | zero => rfl
  | succ left =>
    have hleft := h left rfl
    rw [Tree.passLink, Tree.passLink, ← List.append_assoc, hleft, ← List.append_assoc,
      hleft _ (Text.pieces Path.slash target ++ _), List.filter_append, List.filter_append,
      List.filter_filter]
    simp only [Bool.and_self]

/- Behind a link come the pieces of its target, and with them one link less may be passed. -/
theorem IgnoresFillers.next {links : Nat}
    (h : ∀ left, links = left + 1 → t.IgnoresFillers left) : t.IgnoresFillers links := by
  intro place ps n rest
  induction ps generalizing place with
  | nil => rfl
  | cons piece ps ih =>
    by_cases hp : t.item? place = some .directory
    · by_cases hfiller : Path.isFiller piece = true
      · have hskip : t.resolve links place (piece :: (ps ++ n :: rest)) =
            t.resolve links place (ps ++ n :: rest) := by
          rw [resolve_cons, hp]
          exact if_pos hfiller
        rw [List.filter_cons_of_neg (by simp [hfiller]), List.cons_append, hskip, ih]
      · rw [List.filter_cons_of_pos (by simp [hfiller]), List.cons_append, List.cons_append,
          resolve_cons, resolve_cons, hp, ih place, ih place.tail, ih (piece :: place)]
        cases t.item? (piece :: place) with
        | none => rfl
        | some i =>
          cases i with
          | file b => rfl
          | directory => rfl
          | link target =>
            dsimp only
            rw [IgnoresFillers.passLink h]
    · cases hfront : (piece :: ps).filter (!Path.isFiller ·) with
      | nil => exact resolve_of_not_directory hp links _ _ _ _
      | cons q qs => exact resolve_of_not_directory hp links _ _ _ _

theorem ignoresFillers (t : Tree) (links : Nat) : t.IgnoresFillers links := by
  induction links with
  | zero => exact .next fun left h => absurd h (Nat.succ_ne_zero left).symm
  | succ links ih => exact .next fun left h => Nat.succ.inj h ▸ ih

theorem pieces_join {p : Bytes} (hp : p ≠ []) {n : Bytes} (hn : Path.isAbsolute n = false) :
    ∃ front, (Text.pieces Path.slash (Path.join p n) = front ++ Text.pieces Path.slash n) ∧
      front.filter (!Path.isFiller ·) = (Text.pieces Path.slash p).filter (!Path.isFiller ·) := by
  by_cases hlast : p.getLast? = some Path.slash
  · obtain ⟨front, rfl⟩ : ∃ front, p = front ++ [Path.slash] := List.getLast?_eq_some_iff.mp hlast
    refine ⟨Text.pieces Path.slash front, ?_, ?_⟩
    · rw [Path.join, if_neg (by simp [hn]), if_pos (by simp), List.append_assoc,
        List.singleton_append, Text.pieces_append_sep]
    · rw [Text.pieces_append_sep, List.filter_append, Text.pieces_nil]
      simp [Path.isFiller]
  · refine ⟨Text.pieces Path.slash p, ?_, rfl⟩
    rw [Path.join, if_neg (by simp [hn]), if_neg (by simp [hp, hlast]), Text.pieces_append_sep]

/-- What is joined on to a path leads to the same place from every spelling of it. -/
theorem locate_join_congr {p q : Bytes} (h : Path.components p = Path.components q) (n : Bytes) :
    t.locate (Path.join p n) = t.locate (Path.join q n) := by
  by_cases habs : Path.isAbsolute n = true
  · rw [Path.join_of_isAbsolute habs, Path.join_of_isAbsolute habs]
  · rw [Bool.not_eq_true] at habs
    by_cases hp : p = []
    · have hq : q = [] := Path.components_eq_nil_iff.mp (h ▸ Path.components_eq_nil_iff.mpr hp)
      rw [hp, hq]
    · have hq : q ≠ [] := fun hq => hp (Path.components_eq_nil_iff.mp (h ▸ Path.components_eq_nil_iff.mpr hq))
      obtain ⟨front, hfront, hps⟩ := pieces_join hp habs
      obtain ⟨front', hfront', hqs⟩ := pieces_join hq habs
      have hjoin := Path.isAbsolute_congr (Path.components_join_congr_left h n)
      rw [locate_of_ne_nil t (Path.join_ne_nil hp), locate_of_ne_nil t (Path.join_ne_nil hq), hjoin,
        hfront, hfront']
      cases hn : Text.pieces Path.slash n with
      | nil => exact absurd hn (Text.pieces_ne_nil Path.slash n)
      | cons m ms =>
        rw [ignoresFillers, hps, Path.filter_pieces_congr h, ← hqs, ← ignoresFillers]

theorem resolve_nil_piece_iff {links : Nat} {p place : Place} :
    t.resolve links p [[]] = .ok place ↔ p = place ∧ t.item? p = some .directory := by
  have hfiller : Path.isFiller [] = true := rfl
  simp only [resolve_cons, resolve_nil, hfiller, if_true]
  cases hi : t.item? p with
  | none => simp
  | some i => cases i <;> simp

/- With nothing joined on, a path leads to the same directory, but no longer to a file. -/
theorem locate_join_nil_iff {p : Bytes} {place : Place} :
    t.locate (Path.join p []) = .ok place ↔ t.Sound ⟨p, place⟩ := by
  by_cases hp : p = []
  · have hnowhere : t.locate [] = .error .missing := rfl
    rw [hp, Path.join_nil, Sound, hnowhere]
    simp
  · obtain ⟨front, hfront, hps⟩ := @pieces_join p hp [] (by decide)
    have habs : Path.isAbsolute (Path.join p []) = Path.isAbsolute p := by
      refine Path.isAbsolute_congr ?_
      rw [Path.components_join hp (by decide)]
      exact List.append_nil _
    obtain ⟨left, hleft⟩ := resolve_append t maxLinks
      (if Path.isAbsolute p then [] else t.working) (Text.pieces Path.slash p)
    rw [locate_of_ne_nil t (Path.join_ne_nil hp), habs, hfront, Text.pieces_nil, ignoresFillers, hps,
      ← ignoresFillers, hleft, bind_eq_ok_iff, Sound, ← locate_of_ne_nil t hp]
    simp only [resolve_nil_piece_iff]
    constructor
    · rintro ⟨q, hq, rfl, hd⟩
      exact ⟨hq, hd⟩
    · rintro ⟨hq, hd⟩
      exact ⟨place, hq, rfl, hd⟩

theorem sound_congr {p q : Bytes} (h : Path.components p = Path.components q) {place : Place} :
    t.Sound ⟨p, place⟩ ↔ t.Sound ⟨q, place⟩ := by
  rw [← locate_join_nil_iff, ← locate_join_nil_iff, locate_join_congr h]

/-! ## Walks -/

theorem find?_place_eq_none_iff {way : List Step} {place : Place} :
    way.find? (·.place = place) = none ↔ place ∉ way.map (·.place) := by
  simp [List.find?_eq_none]

section Visit

variable {descend descend' : List Step → Except WalkFailure (List Bytes)} {way way' : List Step}
  {dir dir' : Step}

theorem visit_alike {followLinks : Bool} (hway : way.map (·.place) = way'.map (·.place))
    (hdir : Step.Alike dir dir')
    (hdescend : ∀ sub sub', Step.Alike sub sub' →
      WalksAlike (descend (sub :: way)) (descend' (sub' :: way'))) (n : Bytes) (i : Item) :
    WalksAlike (t.visit followLinks descend way dir n i)
      (t.visit followLinks descend' way' dir' n i) := by
  have hpath := Path.components_join_congr_left hdir.1 n
  have hleaf : SamePaths (if isDocument n then [Path.join dir.path n] else [])
      (if isDocument n then [Path.join dir'.path n] else []) := by
    split
    · exact .cons hpath .nil
    · exact .nil
  cases i with
  | file bytes => exact .ok hleaf
  | directory => exact hdescend _ _ ⟨hpath, by rw [hdir.2]⟩
  | link target =>
    simp only [visit, locate_join_congr hdir.1 n]
    cases t.locate (Path.join dir'.path n) with
    | error why =>
      cases followLinks with
      | false => exact .ok .nil
      | true => exact .error trivial
    | ok place =>
      dsimp only
      by_cases hd : t.isDirectory place = true
      · rw [if_pos hd, if_pos hd]
        cases followLinks with
        | false => exact .ok .nil
        | true =>
          rw [if_pos rfl, if_pos rfl]
          have hfind : way.find? (·.place = place) = none ↔ way'.find? (·.place = place) = none := by
            rw [find?_place_eq_none_iff, find?_place_eq_none_iff, hway]
          cases hf : way.find? (·.place = place) with
          | none =>
            rw [hfind.mp hf]
            exact hdescend _ _ ⟨hpath, rfl⟩
          | some a =>
            obtain ⟨a', hf'⟩ : ∃ a', way'.find? (·.place = place) = some a' := by
              rw [← Option.ne_none_iff_exists', ne_eq, ← hfind, hf]
              simp
            rw [hf']
            exact .error trivial
      · rw [if_neg hd, if_neg hd]
        exact .ok hleaf

end Visit

theorem walk_alike {followLinks : Bool} (depth : Nat) : ∀ {dir dir' : Step} {above above' : List Step},
    Step.Alike dir dir' → above.map (·.place) = above'.map (·.place) →
      WalksAlike (t.walk followLinks depth (dir :: above)) (t.walk followLinks depth (dir' :: above')) := by
  induction depth with
  | zero => exact fun _ _ => .ok .nil
  | succ depth ih =>
    intro dir dir' above above' hdir habove
    have hway : (dir :: above).map (·.place) = (dir' :: above').map (·.place) := by
      rw [List.map_cons, List.map_cons, habove, hdir.2]
    rw [walk_succ, walk_succ, hdir.2]
    refine (agree_mapM fun e _ => ?_).map fun _ _ hfound => List.rel_flatten hfound
    exact visit_alike hway hdir (fun sub sub' hsub => ih hsub hway) e.1 e.2

end Tree
end Files
end PolicyLint
