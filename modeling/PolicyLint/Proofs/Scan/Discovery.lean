/-
The documentation files of a configuration.

The files found below the search directories are sorted by their paths, and of
equal neighbours one is kept.  So a file is listed once, in its place, exactly when
a search directory leads to it.
-/
import PolicyLint.Proofs.Files.Walk
import PolicyLint.Proofs.Path.Order
import PolicyLint.Scan.Run

namespace PolicyLint
namespace Scan

open Files (Tree)

/-! ## Putting paths in order -/

theorem pairwise_mergeSort_le (ps : List Bytes) :
    (ps.mergeSort Path.le).Pairwise fun p q => Path.components p ≤ Path.components q := by
  have htrans : ∀ p q r : Bytes, Path.le p q = true → Path.le q r = true → Path.le p r = true := by
    intro p q r hpq hqr
    rw [Path.le_iff] at hpq hqr ⊢
    exact le_trans hpq hqr
  have htotal : ∀ p q : Bytes, (Path.le p q || Path.le q p) = true := by
    intro p q
    rw [Bool.or_eq_true, Path.le_iff, Path.le_iff]
    exact le_total _ _
  exact (List.pairwise_mergeSort htrans htotal ps).imp fun h => Path.le_iff.mp h

/- In a sorted list equal paths are neighbours, so dropping what is the same path as
the one kept before it leaves no path twice. -/
theorem dedup.after_spec {last : Bytes} {ps : List Bytes}
    (hle : ∀ q ∈ ps, Path.components last ≤ Path.components q)
    (hps : ps.Pairwise fun p q => Path.components p ≤ Path.components q) :
    (dedup.after last ps).Sublist ps ∧
      (last :: dedup.after last ps).Pairwise Path.Before ∧
      ∀ p ∈ ps, ∃ q ∈ last :: dedup.after last ps, Path.components q = Path.components p := by
  induction ps generalizing last with
  | nil => exact ⟨.slnil, List.pairwise_singleton _ _, by simp⟩
  | cons p ps ih =>
    rw [List.pairwise_cons] at hps
    obtain ⟨hp, hps⟩ := hps
    by_cases hsame : Path.same last p = true
    · rw [dedup.after, if_pos hsame]
      obtain ⟨hsub, hpair, hmem⟩ := ih (fun q hq => hle q (List.mem_cons_of_mem p hq)) hps
      refine ⟨hsub.cons p, hpair, fun q hq => ?_⟩
      rcases List.mem_cons.mp hq with rfl | hq
      · exact ⟨last, List.mem_cons_self, Path.same_iff.mp hsame⟩
      · exact hmem q hq
    · rw [dedup.after, if_neg hsame]
      obtain ⟨hsub, hpair, hmem⟩ := ih hp hps
      have hlast : Path.Before last p :=
        lt_of_le_of_ne (hle p List.mem_cons_self) fun h => hsame (Path.same_iff.mpr h)
      refine ⟨hsub.cons_cons p, List.pairwise_cons.mpr ⟨fun q hq => ?_, hpair⟩, fun q hq => ?_⟩
      · rcases List.mem_cons.mp hq with rfl | hq
        · exact hlast
        · exact lt_of_lt_of_le hlast (hp q (hsub.subset hq))
      · rcases List.mem_cons.mp hq with rfl | hq
        · exact ⟨q, by simp, rfl⟩
        · obtain ⟨r, hr, he⟩ := hmem q hq
          exact ⟨r, List.mem_cons_of_mem last hr, he⟩

/-- Arranging keeps every path once, in order. -/
theorem arrange_spec (ps : List Bytes) :
    (arrange ps).Pairwise Path.Before ∧ (∀ p ∈ arrange ps, p ∈ ps) ∧
      ∀ p ∈ ps, ∃ q ∈ arrange ps, Path.components q = Path.components p := by
  have hsorted := pairwise_mergeSort_le ps
  have hperm := List.mergeSort_perm ps Path.le
  rw [arrange]
  cases hs : ps.mergeSort Path.le with
  | nil =>
    rw [hs] at hperm
    have hnil : ps = [] := hperm.symm.eq_nil
    exact ⟨.nil, by simp [dedup], by simp [hnil]⟩
  | cons p rest =>
    rw [hs] at hsorted hperm
    rw [List.pairwise_cons] at hsorted
    obtain ⟨hsub, hpair, hmem⟩ := dedup.after_spec hsorted.1 hsorted.2
    refine ⟨hpair, fun q hq => hperm.subset ((hsub.cons_cons p).subset hq), fun q hq => ?_⟩
    rcases List.mem_cons.mp (hperm.symm.subset hq) with rfl | hq
    · exact ⟨q, List.mem_cons_self, rfl⟩
    · exact hmem q hq

/-! ## Search directories -/

variable {t : Tree} {c : Config}

theorem directoryAt?_eq_some_iff {dir : Bytes} {place : Files.Place} :
    t.directoryAt? dir = some place ↔ t.Sound ⟨dir, place⟩ := by
  unfold Tree.directoryAt? Tree.Sound
  cases hl : t.locate dir with
  | error e => simp
  | ok p =>
    dsimp only
    rw [Except.ok.injEq]
    by_cases hd : t.isDirectory p = true
    · rw [if_pos hd, Option.some.injEq]
      refine ⟨fun h => ⟨h, ?_⟩, fun h => h.1⟩
      rw [← h]
      exact Tree.isDirectory_iff.mp hd
    · rw [if_neg hd]
      refine ⟨fun h => absurd h (by simp), ?_⟩
      rintro ⟨rfl, h⟩
      exact absurd (Tree.isDirectory_iff.mpr h) hd

theorem ne_nil_of_directoryAt? {dir : Bytes} {place : Files.Place}
    (h : t.directoryAt? dir = some place) : dir ≠ [] := by
  rintro rfl
  exact absurd h (by simp [Tree.directoryAt?, Tree.locate_eq])

/- Every file found lies below a search directory that leads to a directory. -/
theorem search_sound (hw : t.WellFormed) {dirs files : List Bytes}
    (h : (search t c dirs).result = .ok files) {p : Bytes} (hp : p ∈ files) :
    t.IsFile p ∧ ∃ dir ∈ dirs, dir ≠ [] ∧ ∃ names, names ≠ [] ∧ (∀ n ∈ names, Path.IsName n) ∧
      p = Path.extend dir names := by
  induction dirs generalizing files with
  | nil =>
    obtain rfl := Except.ok.inj h
    exact absurd hp (by simp)
  | cons dir dirs ih =>
    rw [search] at h
    have hrest : ∀ {found}, (search t c dirs).result = .ok found → p ∈ found →
        t.IsFile p ∧ ∃ d ∈ dir :: dirs, d ≠ [] ∧ ∃ names, names ≠ [] ∧
          (∀ n ∈ names, Path.IsName n) ∧ p = Path.extend d names := by
      intro found hf hpf
      obtain ⟨hfile, d, hd, hbelow⟩ := ih hf hpf
      exact ⟨hfile, d, List.mem_cons_of_mem dir hd, hbelow⟩
    cases hdir : t.directoryAt? dir with
    | none =>
      rw [hdir] at h
      exact hrest h hp
    | some place =>
      rw [hdir] at h
      dsimp only at h
      cases hwalk : t.walk c.followLinks c.maxDepth [⟨dir, place⟩] with
      | error e =>
        rw [hwalk] at h
        exact absurd h (by simp)
      | ok found =>
        rw [hwalk] at h
        obtain ⟨others, hs, rfl⟩ := map_eq_ok_iff.mp h
        rcases List.mem_append.mp hp with hp | hp
        · obtain ⟨hfile, hbelow⟩ :=
            Tree.walk_sound hw (directoryAt?_eq_some_iff.mp hdir) hwalk hp
          exact ⟨hfile, dir, List.mem_cons_self, ne_nil_of_directoryAt? hdir, hbelow⟩
        · exact hrest hs hp

/- Without following links the search comes to an end and finds what every search
directory leads to. -/
theorem search_direct (hw : t.WellFormed) (hc : c.followLinks = false) (dirs : List Bytes) :
    ∃ files, (search t c dirs).result = .ok files ∧
      ∀ p, p ∈ files ↔ ∃ dir ∈ dirs, ∃ place, t.directoryAt? dir = some place ∧
        ∃ names, p = Path.extend dir names ∧ t.Found c.maxDepth dir place names := by
  induction dirs with
  | nil => exact ⟨[], rfl, by simp⟩
  | cons dir dirs ih =>
    obtain ⟨others, hothers, hfound⟩ := ih
    rw [search]
    cases hdir : t.directoryAt? dir with
    | none =>
      refine ⟨others, hothers, fun p => ?_⟩
      rw [hfound p]
      simp [hdir]
    | some place =>
      obtain ⟨files, hwalk, hlists⟩ :=
        Tree.walk_direct hw c.maxDepth ⟨dir, place⟩ [] (directoryAt?_eq_some_iff.mp hdir)
      rw [← hc] at hwalk
      refine ⟨files ++ others, by simp [hwalk, hothers, Except.map], fun p => ?_⟩
      rw [List.mem_append, hfound p, hlists p]
      simp [hdir]

/-- When links are not followed, the documentation files are listed in strictly
increasing order, and a path is listed exactly when some search directory leads to
it: by one name or more, no more than the depth allows, through directories that are
no links, to a file with the name of a document, which may be reached through a
link. -/
theorem sourceFiles_direct (t : Tree) (c : Config) (hw : t.WellFormed)
    (hc : c.followLinks = false) :
    ∃ files, (sourceFiles t c).result = .ok files ∧ files.Pairwise Path.Before ∧
      ∀ p, (∃ q ∈ files, Path.same q p = true) ↔
        ∃ dir ∈ c.resolvedSearchDirs, ∃ place, t.directoryAt? dir = some place ∧
          ∃ names, Path.components p = Path.components dir ++ names.map .name ∧
            t.Found c.maxDepth dir place names := by
  obtain ⟨found, hsearch, hfound⟩ := search_direct hw hc c.resolvedSearchDirs
  obtain ⟨hpair, hsub, hkept⟩ := arrange_spec found
  refine ⟨arrange found, by simp [sourceFiles, hsearch, Except.map], hpair, fun p => ?_⟩
  have hcomponents : ∀ {dir place names}, t.directoryAt? dir = some place →
      t.Found c.maxDepth dir place names →
        Path.components (Path.extend dir names) = Path.components dir ++ names.map .name :=
    fun hdir h => Path.components_extend (ne_nil_of_directoryAt? hdir) h.named
  constructor
  · rintro ⟨q, hq, hsame⟩
    obtain ⟨dir, hmem, place, hdir, names, rfl, h⟩ := (hfound q).mp (hsub q hq)
    refine ⟨dir, hmem, place, hdir, names, ?_, h⟩
    rw [← Path.same_iff.mp hsame]
    exact hcomponents hdir h
  · rintro ⟨dir, hmem, place, hdir, names, hp, h⟩
    obtain ⟨q, hq, he⟩ := hkept _ ((hfound _).mpr ⟨dir, hmem, place, hdir, names, rfl, h⟩)
    refine ⟨q, hq, Path.same_iff.mpr ?_⟩
    rw [he, hp]
    exact hcomponents hdir h

/-- A root whose search directory is a link.  In the directory behind it stand a
document, a link to one, a link to the directory itself and one to nowhere. -/
def linkedTree : Tree where
  items :=
    [(["docs"].map Bytes.of, .directory),
     (["shared.md", "docs"].map Bytes.of,
       .file "```json\n\x7b\"on_tcp_connect\": []\x7d\n```\n".toUTF8),
     (["traffic-policy", "docs"].map Bytes.of, .link (Bytes.of "policies")),
     (["policies", "docs"].map Bytes.of, .directory),
     (["a.md", "policies", "docs"].map Bytes.of, .link (Bytes.of "../shared.md")),
     (["b.mdx", "policies", "docs"].map Bytes.of,
       .file "```json\n[\"on_tcp_connect\"]\n```\n\n```yaml\non_tcp_connect: []\n```\n".toUTF8),
     (["again", "policies", "docs"].map Bytes.of, .link (Bytes.of ".")),
     (["gone.md", "policies", "docs"].map Bytes.of, .link (Bytes.of "nowhere"))]
  working := []

/-- A configuration for `linkedTree` that does not follow links. -/
def linkedConfig : Config :=
  .forRoot (Bytes.of "docs")

theorem wellFormed_linkedTree : linkedTree.WellFormed := by decide

theorem linkedTree_lists :
    linkedTree.WellFormed ∧ linkedConfig.followLinks = false ∧
      ∃ files, (sourceFiles linkedTree linkedConfig).result = .ok files ∧
        ∃ q ∈ files, Path.same q (Bytes.of "docs/traffic-policy/a.md") = true := by
  have hw := wellFormed_linkedTree
  obtain ⟨files, hfiles, -, hlisted⟩ := sourceFiles_direct linkedTree linkedConfig hw rfl
  have hbytes : (linkedTree.bytesAt? (Bytes.of "docs/traffic-policy/a.md")).isSome = true := by
    decide +kernel
  have hfound : linkedTree.Found 64 (Bytes.of "docs/traffic-policy")
      (["policies", "docs"].map Bytes.of) [Bytes.of "a.md"] :=
    (Tree.found_singleton_iff (by decide) rfl).mpr
      ⟨by decide, Option.isSome_iff_exists.mp hbytes⟩
  refine ⟨hw, rfl, files, hfiles, (hlisted _).mpr ?_⟩
  exact ⟨_, by decide, _, rfl, _, by decide, hfound⟩

end Scan
end PolicyLint
