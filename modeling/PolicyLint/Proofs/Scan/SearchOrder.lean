/-
What is found does not depend on how the search directories are listed.

A search fails when one of its walks does, and what it finds is what its walks find.  The
paths found are put in order and each is kept once, so only which paths are found matters,
and not how often, in which order, or how they are spelled.
-/
import Mathlib.Data.List.Sort
import PolicyLint.Proofs.Files.Spelling
import PolicyLint.Proofs.Scan.Failures

namespace PolicyLint
namespace Scan

open Files (Tree)

variable {t : Tree} {c : Config}

/-! ## One search directory -/

/-- The walk of a search directory comes to its end and finds the path. -/
def WalkFinds (t : Tree) (c : Config) (dir p : Bytes) : Prop :=
  ∃ place files, t.directoryAt? dir = some place ∧
    t.walk c.followLinks c.maxDepth [⟨dir, place⟩] = .ok files ∧ p ∈ files

theorem walks_alike {dir dir' : Bytes} (h : Path.components dir = Path.components dir')
    (t : Tree) (c : Config) (place : Files.Place) : Files.WalksAlike (t.walk c.followLinks c.maxDepth [⟨dir, place⟩])
      (t.walk c.followLinks c.maxDepth [⟨dir', place⟩]) :=
  Tree.walk_alike c.maxDepth ⟨h, rfl⟩ rfl

theorem directoryAt?_congr {dir dir' : Bytes} (h : Path.components dir = Path.components dir') :
    t.directoryAt? dir = t.directoryAt? dir' := by
  refine Option.ext fun place => ?_
  rw [directoryAt?_eq_some_iff, directoryAt?_eq_some_iff, Tree.sound_congr h]

theorem WalkFails.congr {dir dir' : Bytes} (h : Path.components dir = Path.components dir')
    {why : Files.WalkFailure} (hfails : WalkFails t c dir why) : ∃ why', WalkFails t c dir' why' := by
  obtain ⟨place, hplace, hwalk⟩ := hfails
  have halike := walks_alike h t c place
  rw [hwalk] at halike
  cases hwalk' : t.walk c.followLinks c.maxDepth [⟨dir', place⟩] with
  | error why' => exact ⟨why', place, directoryAt?_congr h ▸ hplace, hwalk'⟩
  | ok files =>
    rw [hwalk'] at halike
    cases halike

theorem WalkFinds.congr {dir dir' p : Bytes} (h : Path.components dir = Path.components dir')
    (hfinds : WalkFinds t c dir p) :
    ∃ q, Path.components q = Path.components p ∧ WalkFinds t c dir' q := by
  obtain ⟨place, files, hplace, hwalk, hp⟩ := hfinds
  have halike := walks_alike h t c place
  rw [hwalk] at halike
  cases hwalk' : t.walk c.followLinks c.maxDepth [⟨dir', place⟩] with
  | error why' =>
    rw [hwalk'] at halike
    cases halike
  | ok files' =>
    rw [hwalk'] at halike
    cases halike with
    | ok hsame =>
      obtain ⟨q, hq, he⟩ := Files.SamePaths.exists_of_mem hsame hp
      exact ⟨q, he, place, files', directoryAt?_congr h ▸ hplace, hwalk', hq⟩

/-! ## All search directories -/

theorem mem_search_iff {dirs files : List Bytes} (h : (search t c dirs).result = .ok files)
    (p : Bytes) :
    p ∈ files ↔ ∃ dir ∈ dirs, WalkFinds t c dir p := by
  induction dirs generalizing files with
  | nil =>
    obtain rfl := Except.ok.inj h
    simp
  | cons dir dirs ih =>
    rw [search] at h
    rw [List.exists_mem_cons_iff, WalkFinds]
    cases hdir : t.directoryAt? dir with
    | none =>
      rw [hdir] at h
      rw [ih h]
      simp
    | some place =>
      rw [hdir] at h
      dsimp only at h
      cases hwalk : t.walk c.followLinks c.maxDepth [⟨dir, place⟩] with
      | error e =>
        rw [hwalk] at h
        exact absurd h (by simp)
      | ok found =>
        rw [hwalk] at h
        obtain ⟨others, hs, rfl⟩ := map_eq_ok_iff.mp h
        rw [List.mem_append, ih hs]
        simp [hwalk]

theorem sourceFiles_ok_iff : (∃ files, (sourceFiles t c).result = .ok files) ↔
    ∀ dir ∈ c.resolvedSearchDirs, ∀ why, ¬WalkFails t c dir why := by
  constructor
  · rintro ⟨files, hfiles⟩ dir hdir why hfails
    obtain ⟨why, hfirst⟩ := exists_firstToFail ⟨dir, hdir, why, hfails⟩
    rw [sourceFiles_error_iff.mpr ⟨why, rfl, hfirst⟩] at hfiles
    exact absurd hfiles (by simp)
  · intro h
    cases hs : (sourceFiles t c).result with
    | ok files => exact ⟨files, rfl⟩
    | error f =>
      obtain ⟨why, -, front, dir, back, hdirs, -, hdir⟩ := sourceFiles_error_iff.mp hs
      have hmem : dir ∈ c.resolvedSearchDirs := by
        rw [hdirs]
        exact List.mem_append_right front List.mem_cons_self
      exact absurd hdir (h dir hmem why)

/-! ## Lists of search directories -/

/-- The lists hold the same paths, in whatever order, how often and however spelled. -/
def SameSet (ps qs : List Bytes) : Prop :=
  ∀ cs, cs ∈ ps.map Path.components ↔ cs ∈ qs.map Path.components

theorem SameSet.symm {ps qs : List Bytes} (h : SameSet ps qs) : SameSet qs ps :=
  fun cs => (h cs).symm

theorem SameSet.exists_of_mem {ps qs : List Bytes} (h : SameSet ps qs) {p : Bytes} (hp : p ∈ ps) :
    ∃ q ∈ qs, Path.components q = Path.components p :=
  List.mem_map.mp ((h _).mp (List.mem_map_of_mem hp))

theorem sameSet_of_forall {ps qs : List Bytes}
    (h : ∀ p ∈ ps, ∃ q ∈ qs, Path.components q = Path.components p)
    (h' : ∀ q ∈ qs, ∃ p ∈ ps, Path.components p = Path.components q) : SameSet ps qs := by
  intro cs
  constructor
  · intro hcs
    obtain ⟨p, hp, rfl⟩ := List.mem_map.mp hcs
    exact List.mem_map.mpr (h p hp)
  · intro hcs
    obtain ⟨q, hq, rfl⟩ := List.mem_map.mp hcs
    exact List.mem_map.mpr (h' q hq)

theorem SameSet.join {ps qs : List Bytes} (h : SameSet ps qs) (base : Bytes) :
    SameSet (ps.map (Path.join base)) (qs.map (Path.join base)) := by
  have hjoin : ∀ {ps qs : List Bytes}, SameSet ps qs → ∀ p ∈ ps.map (Path.join base),
      ∃ q ∈ qs.map (Path.join base), Path.components q = Path.components p := by
    intro ps qs h p hp
    obtain ⟨d, hd, rfl⟩ := List.mem_map.mp hp
    obtain ⟨d', hd', hsame⟩ := h.exists_of_mem hd
    exact ⟨_, List.mem_map_of_mem hd', Path.components_join_congr_right base hsame⟩
  exact sameSet_of_forall (hjoin h) (hjoin h.symm)

/-- Arranging forgets all but which paths there are. -/
theorem samePaths_arrange {ps qs : List Bytes} (h : SameSet ps qs) :
    Files.SamePaths (arrange ps) (arrange qs) := by
  have hmem : ∀ (ps : List Bytes) cs,
      cs ∈ (arrange ps).map Path.components ↔ cs ∈ ps.map Path.components := by
    intro ps
    obtain ⟨-, hsub, hkept⟩ := arrange_spec ps
    refine sameSet_of_forall (fun p hp => ⟨p, hsub p hp, rfl⟩) fun p hp => ?_
    exact hkept p hp
  have hsorted : ∀ ps : List Bytes, ((arrange ps).map Path.components).Pairwise (· < ·) :=
    fun ps => List.pairwise_map.mpr (arrange_spec ps).1
  rw [Files.samePaths_iff]
  refine (hsorted ps).eq_of_mem_iff (hsorted qs) fun cs => ?_
  rw [hmem, hmem]
  exact h cs

theorem walkFails_congr {dirs dirs' : List Bytes} (h : SameSet dirs dirs')
    (hfine : ∀ dir ∈ dirs', ∀ why, ¬WalkFails t c dir why) :
    ∀ dir ∈ dirs, ∀ why, ¬WalkFails t c dir why := by
  intro dir hdir why hfails
  obtain ⟨dir', hdir', hsame⟩ := h.exists_of_mem hdir
  obtain ⟨why', hfails'⟩ := hfails.congr hsame.symm
  exact hfine dir' hdir' why' hfails'

theorem sameSet_found {dirs dirs' files files' : List Bytes} (h : SameSet dirs dirs')
    (hfiles : (search t c dirs).result = .ok files)
    (hfiles' : (search t c dirs').result = .ok files') : SameSet files files' := by
  have hfound : ∀ {dirs dirs' files files' : List Bytes}, SameSet dirs dirs' →
      (search t c dirs).result = .ok files → (search t c dirs').result = .ok files' →
      ∀ p ∈ files, ∃ q ∈ files', Path.components q = Path.components p := by
    intro dirs dirs' files files' h hfiles hfiles' p hp
    obtain ⟨dir, hdir, hfinds⟩ := (mem_search_iff hfiles p).mp hp
    obtain ⟨dir', hdir', hsame⟩ := h.exists_of_mem hdir
    obtain ⟨q, hq, hfinds'⟩ := hfinds.congr hsame.symm
    exact ⟨q, (mem_search_iff hfiles' q).mpr ⟨dir', hdir', hfinds'⟩, hq⟩
  exact sameSet_of_forall (hfound h hfiles hfiles') (hfound h.symm hfiles' hfiles)

theorem search_searchDirs (listed dirs : List Bytes) :
    search t { c with searchDirs := listed } dirs = search t c dirs := by
  induction dirs with
  | nil => rfl
  | cons dir dirs ih => simp only [search, ih]

/-- Search directories can be listed in any order, repeated, and spelled in other ways: the
search fails as before, or finds the same paths in the same order. -/
theorem sourceFiles_sameSet (t : Tree) (c : Config) (dirs : List Bytes)
    (h : SameSet c.searchDirs dirs) :
    ((∃ files, (sourceFiles t c).result = .ok files) ↔
      ∃ files, (sourceFiles t { c with searchDirs := dirs }).result = .ok files) ∧
    ∀ files files', (sourceFiles t c).result = .ok files →
      (sourceFiles t { c with searchDirs := dirs }).result = .ok files' →
        Files.SamePaths files files' := by
  have hresolved : SameSet c.resolvedSearchDirs
      { c with searchDirs := dirs }.resolvedSearchDirs := h.join c.root
  constructor
  · rw [sourceFiles_ok_iff, sourceFiles_ok_iff]
    exact ⟨walkFails_congr hresolved.symm, walkFails_congr hresolved⟩
  · intro files files' hfiles hfiles'
    obtain ⟨found, hfound, rfl⟩ := map_eq_ok_iff.mp hfiles
    obtain ⟨found', hfound', rfl⟩ := map_eq_ok_iff.mp hfiles'
    rw [search_searchDirs] at hfound'
    exact samePaths_arrange (sameSet_found hresolved hfound hfound')

/-- The search directories of `linkedConfig` in another order, one of them twice. -/
def shuffledDirs : List Bytes :=
  ["universal-gateway", "traffic-policy/.", "snippets//traffic-policy", "traffic-policy"].map
    Bytes.of

theorem linkedTree_shuffled :
    SameSet linkedConfig.searchDirs shuffledDirs ∧
      ∃ files, (sourceFiles linkedTree { linkedConfig with searchDirs := shuffledDirs }).result =
          .ok files ∧
        Files.SamePaths (["docs/traffic-policy/a.md", "docs/traffic-policy/b.mdx"].map Bytes.of)
          files := by
  have hsame : SameSet linkedConfig.searchDirs shuffledDirs :=
    sameSet_of_forall (by decide) (by decide)
  obtain ⟨hok, hpaths⟩ := sourceFiles_sameSet linkedTree linkedConfig shuffledDirs hsame
  obtain ⟨files, hfiles⟩ := hok.mp ⟨_, sourceFiles_linkedTree⟩
  exact ⟨hsame, files, hfiles, hpaths _ files sourceFiles_linkedTree hfiles⟩

end Scan
end PolicyLint
