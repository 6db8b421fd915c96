/-
Which failure ends a scan.

The search directories are walked in the order of the configuration before any file is
read, and the files are read in the order of their paths.  A file is refused for its size
before it is looked at as text.  So the first failure in that order is the one told, and
what the blocks of a file say cannot make a difference.
-/
import PolicyLint.Proofs.Files.Contents
import PolicyLint.Proofs.Scan.Outcomes

namespace PolicyLint
namespace Scan

open Files (Tree WalkFailure)

variable {t : Tree} {c : Config}

/-! ## What can fail -/

/-- The walk of a search directory ends early.  One that is missing is not walked. -/
def WalkFails (t : Tree) (c : Config) (dir : Bytes) (why : WalkFailure) : Prop :=
  ∃ place, t.directoryAt? dir = some place ∧
    t.walk c.followLinks c.maxDepth [⟨dir, place⟩] = .error why

/-- The path leads to a file that is not too large and well-formed UTF-8. -/
def Accepted (t : Tree) (c : Config) (path : Bytes) : Prop :=
  ∃ bytes, t.bytesAt? path = some bytes ∧ bytes.size ≤ c.maxFileSize ∧ bytes.IsValidUTF8

/-- Why the file that a path leads to is refused.  For one that is too large its text does
not matter. -/
inductive Refused (t : Tree) (c : Config) (path : Bytes) : Failure → Prop
  | tooLarge {bytes : ByteArray} (h : t.bytesAt? path = some bytes)
      (hsize : c.maxFileSize < bytes.size) : Refused t c path (.tooLarge path c.maxFileSize)
  | notUtf8 {bytes : ByteArray} (h : t.bytesAt? path = some bytes)
      (hsize : bytes.size ≤ c.maxFileSize) (hutf8 : ¬bytes.IsValidUTF8) :
      Refused t c path (.notUtf8 path)

theorem WalkFails.unique {dir : Bytes} {why why' : WalkFailure} (h : WalkFails t c dir why)
    (h' : WalkFails t c dir why') : why = why' := by
  obtain ⟨place, hplace, hwalk⟩ := h
  obtain ⟨place', hplace', hwalk'⟩ := h'
  obtain rfl := Option.some.inj (hplace.symm.trans hplace')
  exact Except.error.inj (hwalk.symm.trans hwalk')

theorem accepted_iff {path : Bytes} {bytes : ByteArray} (h : t.bytesAt? path = some bytes) :
    Accepted t c path ↔ bytes.size ≤ c.maxFileSize ∧ bytes.IsValidUTF8 := by
  constructor
  · intro ⟨bytes', h', hsize, hutf8⟩
    obtain rfl := Option.some.inj (h.symm.trans h')
    exact ⟨hsize, hutf8⟩
  · intro ⟨hsize, hutf8⟩
    exact ⟨bytes, h, hsize, hutf8⟩

theorem refused_iff {path : Bytes} {bytes : ByteArray} (h : t.bytesAt? path = some bytes)
    {f : Failure} : Refused t c path f ↔
      (c.maxFileSize < bytes.size ∧ f = .tooLarge path c.maxFileSize) ∨
      (bytes.size ≤ c.maxFileSize ∧ ¬bytes.IsValidUTF8 ∧ f = .notUtf8 path) := by
  constructor
  · intro hrefused
    cases hrefused with
    | tooLarge h' hsize =>
      obtain rfl := Option.some.inj (h.symm.trans h')
      exact .inl ⟨hsize, rfl⟩
    | notUtf8 h' hsize hutf8 =>
      obtain rfl := Option.some.inj (h.symm.trans h')
      exact .inr ⟨hsize, hutf8, rfl⟩
  · intro hcases
    rcases hcases with ⟨hsize, hf⟩ | ⟨hsize, hutf8, hf⟩
    · rw [hf]
      exact .tooLarge h hsize
    · rw [hf]
      exact .notUtf8 h hsize hutf8

theorem Refused.isFile {path : Bytes} {f : Failure} (h : Refused t c path f) : t.IsFile path := by
  cases h with
  | tooLarge h _ => exact ⟨_, h⟩
  | notUtf8 h _ _ => exact ⟨_, h⟩

theorem Refused.unique {path : Bytes} {f f' : Failure} (h : Refused t c path f)
    (h' : Refused t c path f') : f = f' := by
  obtain ⟨bytes, hbytes⟩ := h.isFile
  rw [refused_iff hbytes] at h h'
  rcases h with ⟨hlarge, hf⟩ | ⟨hsmall, -, hf⟩
  · rcases h' with ⟨-, hf'⟩ | ⟨hsmall', -, -⟩
    · rw [hf, hf']
    · omega
  · rcases h' with ⟨hlarge', -⟩ | ⟨-, -, hf'⟩
    · omega
    · rw [hf, hf']

theorem not_accepted_iff {path : Bytes} (hf : t.IsFile path) :
    ¬Accepted t c path ↔ ∃ f, Refused t c path f := by
  obtain ⟨bytes, hbytes⟩ := hf
  rw [accepted_iff hbytes]
  constructor
  · intro hnot
    by_cases hsize : bytes.size ≤ c.maxFileSize
    · exact ⟨_, .notUtf8 hbytes hsize fun hutf8 => hnot ⟨hsize, hutf8⟩⟩
    · exact ⟨_, .tooLarge hbytes (Nat.lt_of_not_le hsize)⟩
  · intro ⟨f, hrefused⟩ ⟨hsize, hutf8⟩
    rcases (refused_iff hbytes).mp hrefused with ⟨hlarge, -⟩ | ⟨-, hnot, -⟩
    · omega
    · exact hnot hutf8

theorem ofUtf8?_eq_none_iff {bytes : ByteArray} :
    Text.ofUtf8? bytes = none ↔ ¬bytes.IsValidUTF8 := by
  rw [Text.ofUtf8?, Option.map_eq_none_iff, String.fromUTF8?]
  by_cases h : bytes.IsValidUTF8
  · simp [h]
  · simp [h]

theorem readFile_error_iff (hw : t.WellFormed) {path : Bytes} (hf : t.IsFile path) {f : Failure} :
    readFile t c.maxFileSize path = .error f ↔ Refused t c path f := by
  obtain ⟨p, bytes, hl, hi⟩ := Tree.isFile_iff.mp hf
  have hbytes : t.bytesAt? path = some bytes :=
    Tree.bytesAt?_eq_some_iff.mpr (Tree.contents_eq_ok_iff.mpr ⟨p, hl, hi⟩)
  rw [readFile_eq_decode hbytes (hw.size_lt hi), decode, refused_iff hbytes]
  by_cases hsize : bytes.size > c.maxFileSize
  · have hnot : ¬bytes.size ≤ c.maxFileSize := Nat.not_le_of_lt hsize
    simp [hsize, hnot, eq_comm]
  · have hle : bytes.size ≤ c.maxFileSize := Nat.le_of_not_lt hsize
    rw [if_neg hsize]
    cases htext : Text.ofUtf8? bytes with
    | none =>
      have hutf8 := ofUtf8?_eq_none_iff.mp htext
      simp [hsize, hle, hutf8, eq_comm]
    | some text =>
      have hutf8 : bytes.IsValidUTF8 := by
        by_contra hnot
        rw [ofUtf8?_eq_none_iff.mpr hnot] at htext
        cases htext
      simp [hsize, hutf8]

/-! ## The first failure -/

theorem search_error_iff {dirs : List Bytes} {f : Failure} :
    (search t c dirs).result = .error f ↔
      ∃ why, f = .walk why ∧ FirstToFail (WalkFails t c) dirs why := by
  induction dirs with
  | nil =>
    constructor
    · exact fun h => nomatch h
    · intro ⟨why, _, hfirst⟩
      exact absurd hfirst not_firstToFail_nil
  | cons dir dirs ih =>
    simp only [firstToFail_cons_iff, WalkFails]
    rw [search]
    cases hdir : t.directoryAt? dir with
    | none => simpa using ih
    | some place =>
      cases hwalk : t.walk c.followLinks c.maxDepth [⟨dir, place⟩] with
      | error why => simp [hwalk, eq_comm]
      | ok found =>
        simp only [hwalk, map_eq_error_iff, ih]
        simp [hwalk]

theorem sourceFiles_error_iff {f : Failure} :
    (sourceFiles t c).result = .error f ↔
      ∃ why, f = .walk why ∧ FirstToFail (WalkFails t c) c.resolvedSearchDirs why := by
  rw [sourceFiles, map_eq_error_iff, search_error_iff]

theorem checkFiles_error_iff {paths : List Bytes} {r : Report} {f : Failure} :
    (checkFiles t c r paths).result = .error f ↔
      FirstToFail (fun p f => readFile t c.maxFileSize p = .error f) paths f := by
  induction paths generalizing r with
  | nil =>
    constructor
    · exact fun h => nomatch h
    · exact fun h => absurd h not_firstToFail_nil
  | cons path paths ih =>
    rw [firstToFail_cons_iff, checkFiles]
    cases hread : readFile t c.maxFileSize path with
    | error f' => simp
    | ok text =>
      show (checkFiles t c _ paths).result = _ ↔ _
      rw [ih]
      simp

/-- A scan fails when the search does, or else for the first file that is refused. -/
theorem run_error_iff (hw : t.WellFormed) {f : Failure} :
    (run t c).result = .error f ↔ (sourceFiles t c).result = .error f ∨
      ∃ paths, (sourceFiles t c).result = .ok paths ∧ FirstToFail (Refused t c) paths f := by
  rw [run]
  cases hs : (sourceFiles t c).result with
  | error f' => simp
  | ok paths =>
    have hread : ∀ p ∈ paths, ∀ f, readFile t c.maxFileSize p = .error f ↔ Refused t c p f :=
      fun p hp f => readFile_error_iff hw ((sourceFiles_sound hw hs).2 p hp).1
    show (checkFiles t c Report.empty paths).result = .error f ↔ _
    rw [checkFiles_error_iff]
    constructor
    · intro hfirst
      exact .inr ⟨paths, rfl, hfirst.congr hread⟩
    · intro h
      rcases h with h | ⟨paths', hpaths, hfirst⟩
      · cases h
      · rw [← Except.ok.inj hpaths] at hfirst
        exact hfirst.congr fun p hp f => (hread p hp f).symm

theorem run_ok_of_accepted (hw : t.WellFormed) {paths : List Bytes}
    (hs : (sourceFiles t c).result = .ok paths) (h : ∀ p ∈ paths, Accepted t c p) :
    ∃ r, (run t c).result = .ok r := by
  cases hr : (run t c).result with
  | ok r => exact ⟨r, rfl⟩
  | error f =>
    rcases (run_error_iff hw).mp hr with he | ⟨paths', hpaths, front, p, back, hsplit, -, hp⟩
    · rw [hs] at he
      exact nomatch he
    · have hmem : p ∈ paths := by
        rw [Except.ok.inj (hs.symm.trans hpaths), hsplit]
        exact List.mem_append_right front List.mem_cons_self
      have hf : t.IsFile p := ((sourceFiles_sound hw hs).2 p hmem).1
      exact absurd (h p hmem) ((not_accepted_iff hf).mpr ⟨f, hp⟩)

theorem search_rewritten (contents : Files.Place → ByteArray → ByteArray) (dirs : List Bytes) :
    search (t.rewritten contents) c dirs = search t c dirs := by
  induction dirs with
  | nil => rfl
  | cons dir dirs ih =>
    simp only [search, Tree.directoryAt?_rewritten, Tree.walk_rewritten, ih]

/-- What is found, and whether anything is, does not depend on what the files hold. -/
theorem sourceFiles_rewritten (contents : Files.Place → ByteArray → ByteArray) :
    sourceFiles (t.rewritten contents) c = sourceFiles t c := by
  unfold sourceFiles
  rw [search_rewritten]

/-- The walks, the sizes and the encodings decide how a scan ends.  The first search
directory whose walk fails ends it, whatever has been found by then; otherwise the first
of the files found, in the order of their paths, that is too large or no UTF-8; otherwise
there is a report.  Other contents do not change what is found.  Trees that agree in what is
found and refused fail alike, and with the same files, all of them accepted, neither
fails. -/
theorem run_failure (t : Tree) (c : Config) (hw : t.WellFormed) :
    ((∃ dir ∈ c.resolvedSearchDirs, ∃ why, WalkFails t c dir why) →
      ∃ why, FirstToFail (WalkFails t c) c.resolvedSearchDirs why ∧
        (run t c).result = .error (.walk why)) ∧
    ((∀ dir ∈ c.resolvedSearchDirs, ∀ why, ¬WalkFails t c dir why) →
      ∃ paths, (sourceFiles t c).result = .ok paths ∧ paths.Pairwise Path.Before ∧
        ((∃ p ∈ paths, ¬Accepted t c p) →
          ∃ f, FirstToFail (Refused t c) paths f ∧ (run t c).result = .error f) ∧
        ((∀ p ∈ paths, Accepted t c p) → ∃ r, (run t c).result = .ok r)) ∧
    (∀ contents, sourceFiles (t.rewritten contents) c = sourceFiles t c) ∧
    ∀ t' : Tree, t'.WellFormed → (sourceFiles t' c).result = (sourceFiles t c).result →
      ((∀ paths, (sourceFiles t c).result = .ok paths →
          ∀ p ∈ paths, ∀ f, Refused t' c p f ↔ Refused t c p f) →
        ∀ f, (run t' c).result = .error f ↔ (run t c).result = .error f) ∧
      ∀ paths, (sourceFiles t c).result = .ok paths →
        (∀ p ∈ paths, Accepted t c p ∧ Accepted t' c p) →
        (∃ r, (run t c).result = .ok r) ∧ ∃ r, (run t' c).result = .ok r := by
  refine ⟨fun hwalk => ?_, fun hwalks => ?_, sourceFiles_rewritten,
    fun t' hw' hsame => ⟨fun hrefused f => ?_, ?_⟩⟩
  · obtain ⟨why, hfirst⟩ := exists_firstToFail hwalk
    exact ⟨why, hfirst, (run_error_iff hw).mpr (.inl (sourceFiles_error_iff.mpr ⟨why, rfl, hfirst⟩))⟩
  · cases hs : (sourceFiles t c).result with
    | error f =>
      obtain ⟨why, -, front, dir, back, hdirs, -, hdir⟩ := sourceFiles_error_iff.mp hs
      have hmem : dir ∈ c.resolvedSearchDirs := by
        rw [hdirs]
        exact List.mem_append_right front List.mem_cons_self
      exact absurd hdir (hwalks dir hmem why)
    | ok paths =>
      obtain ⟨hpair, hfiles⟩ := sourceFiles_sound hw hs
      refine ⟨paths, rfl, hpair, fun ⟨p, hp, hnot⟩ => ?_, run_ok_of_accepted hw hs⟩
      have hrefused := (not_accepted_iff (hfiles p hp).1).mp hnot
      obtain ⟨f, hfirst⟩ := exists_firstToFail ⟨p, hp, hrefused⟩
      exact ⟨f, hfirst, (run_error_iff hw).mpr (.inr ⟨paths, hs, hfirst⟩)⟩
  · rw [run_error_iff hw', run_error_iff hw, hsame]
    refine or_congr Iff.rfl (exists_congr fun paths => and_congr_right fun hs => ?_)
    have hcongr := hrefused paths hs
    exact ⟨fun h => h.congr hcongr, fun h => h.congr fun p hp f => (hcongr p hp f).symm⟩
  · intro paths hs haccepted
    exact ⟨run_ok_of_accepted hw hs fun p hp => (haccepted p hp).1,
      run_ok_of_accepted hw' (hsame.trans hs) fun p hp => (haccepted p hp).2⟩

theorem search_limit (limit : Nat) (dirs : List Bytes) :
    search t { c with maxFileSize := limit } dirs = search t c dirs := by
  induction dirs with
  | nil => rfl
  | cons dir dirs ih => simp only [search, ih]

/-- What is found does not depend on how large files may be. -/
theorem sourceFiles_limit (limit : Nat) :
    sourceFiles t { c with maxFileSize := limit } = sourceFiles t c := by
  unfold sourceFiles
  rw [search_limit]
  rfl

/-- A configuration for `linkedTree` that no file is small enough for. -/
def tightConfig : Config :=
  { linkedConfig with maxFileSize := 10 }

/-- The same when links are followed; one of them leads back. -/
def loopingConfig : Config :=
  { tightConfig with followLinks := true }

theorem linkedTree_fails :
    linkedTree.WellFormed ∧
      (run linkedTree tightConfig).result =
        .error (.tooLarge (Bytes.of "docs/traffic-policy/a.md") 10) ∧
      (run linkedTree loopingConfig).result =
        .error (.walk
          (.loop (Bytes.of "docs/traffic-policy/again") (Bytes.of "docs/traffic-policy"))) := by
  have hw := wellFormed_linkedTree
  refine ⟨hw, ?_, ?_⟩
  · have hfiles : (sourceFiles linkedTree tightConfig).result =
        .ok (["docs/traffic-policy/a.md", "docs/traffic-policy/b.mdx"].map Bytes.of) := by
      rw [tightConfig, sourceFiles_limit, sourceFiles_linkedTree]
    have hwalks : ∀ dir ∈ tightConfig.resolvedSearchDirs, ∀ why,
        ¬WalkFails linkedTree tightConfig dir why := by
      intro dir hdir why hfails
      obtain ⟨why, hfirst⟩ := exists_firstToFail ⟨dir, hdir, why, hfails⟩
      rw [sourceFiles_error_iff.mpr ⟨why, rfl, hfirst⟩] at hfiles
      exact nomatch hfiles
    have hfile := ((sourceFiles_sound hw hfiles).2 _ List.mem_cons_self).1
    have hread : readFile linkedTree 10 (Bytes.of "docs/traffic-policy/a.md") =
        .error (.tooLarge (Bytes.of "docs/traffic-policy/a.md") 10) := by
      decide +kernel
    have hrefused := (readFile_error_iff (c := tightConfig) hw hfile).mp hread
    obtain ⟨-, hends, -, -⟩ := run_failure linkedTree tightConfig hw
    obtain ⟨paths, hpaths, -, hnot, -⟩ := hends hwalks
    obtain rfl := Except.ok.inj (hfiles.symm.trans hpaths)
    obtain ⟨f, hfirst, hrun⟩ :=
      hnot ⟨_, List.mem_cons_self, (not_accepted_iff hfile).mpr ⟨_, hrefused⟩⟩
    rw [hrun, hfirst.eq_of_head hrefused fun _ _ h h' => h.unique h']
  · have hdirs : loopingConfig.resolvedSearchDirs = Bytes.of "docs/traffic-policy" ::
        ["docs/snippets/traffic-policy", "docs/universal-gateway"].map Bytes.of := by
      decide
    have hfails : WalkFails linkedTree loopingConfig (Bytes.of "docs/traffic-policy")
        (.loop (Bytes.of "docs/traffic-policy/again") (Bytes.of "docs/traffic-policy")) := by
      refine ⟨["policies", "docs"].map Bytes.of, ?_, ?_⟩ <;> decide +kernel
    obtain ⟨hwalk, -, -, -⟩ := run_failure linkedTree loopingConfig hw
    rw [hdirs] at hwalk
    obtain ⟨why, hfirst, hrun⟩ := hwalk ⟨_, List.mem_cons_self, _, hfails⟩
    rw [hrun, hfirst.eq_of_head hfails fun _ _ h h' => h.unique h']

end Scan
end PolicyLint
