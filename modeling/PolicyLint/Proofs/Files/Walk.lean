/-
What a walk finds.

A walk goes down by names, one directory at a time, and its steps keep the path as
walked next to the place where that path leads.  When links are not followed, every
name on the way is a directory itself, so the files found are the documents below
the first directory whose names pass through directories only.
-/
import PolicyLint.Files.Walk
import PolicyLint.Proofs.Except
import PolicyLint.Proofs.Files.Resolve

namespace PolicyLint
namespace Files

/-! ## Documents -/

/-- The name has a stem and, behind a dot, the extension of a documentation file. -/
def IsDocumentName (n : Bytes) : Prop :=
  ∃ stem, ∃ e ∈ documentExtensions, stem ≠ [] ∧ n = stem ++ Path.dot :: e

theorem extension_append {stem e : Bytes} (hs : stem ≠ []) (he : e ≠ []) (hdot : Path.dot ∉ e) :
    Path.extension (stem ++ Path.dot :: e) = some e := by
  have hback : (stem ++ Path.dot :: e).reverse = e.reverse ++ Path.dot :: stem.reverse := by simp
  have htake : (e.reverse ++ Path.dot :: stem.reverse).takeWhile (· ≠ Path.dot) = e.reverse := by
    rw [List.takeWhile_append_of_pos]
    · simp
    · intro c hc
      rw [List.mem_reverse] at hc
      exact decide_eq_true (ne_of_mem_of_not_mem hc hdot)
  have hdots : stem ++ Path.dot :: e ≠ [Path.dot, Path.dot] := by
    intro h
    have hlen := congrArg List.length h
    have hs' := List.length_pos_iff.mpr hs
    have he' := List.length_pos_iff.mpr he
    simp only [List.length_append, List.length_cons, List.length_nil] at hlen
    omega
  rw [Path.extension]
  simp only [hback, htake, List.drop_left, hdots, if_false, List.reverse_reverse]
  cases hr : stem.reverse with
  | nil => exact absurd (List.reverse_eq_nil_iff.mp hr) hs
  | cons c cs => rfl

theorem extension_eq_some {n e : Bytes} (h : Path.extension n = some e) :
    ∃ stem, stem ≠ [] ∧ n = stem ++ Path.dot :: e := by
  have hsplit :=
    List.takeWhile_append_dropWhile (p := fun c => decide (c ≠ Path.dot)) (l := n.reverse)
  have hhead := List.head?_dropWhile_not (fun c => decide (c ≠ Path.dot)) n.reverse
  rw [Path.extension] at h
  generalize n.reverse.takeWhile (fun c => decide (c ≠ Path.dot)) = back at hsplit h
  generalize n.reverse.dropWhile (fun c => decide (c ≠ Path.dot)) = rest at hsplit hhead
  simp only [← hsplit, List.drop_left] at h
  cases rest with
  | nil => exact absurd h (by simp)
  | cons c rest =>
    cases rest with
    | nil => exact absurd h (by simp)
    | cons d rest =>
      have hc : c = Path.dot := by simpa using hhead
      have he : back.reverse = e := by
        dsimp only at h
        split at h
        · exact absurd h (by simp)
        · exact Option.some.inj h
      refine ⟨(d :: rest).reverse, by simp, ?_⟩
      have hn := congrArg List.reverse hsplit
      rw [List.reverse_reverse, List.reverse_append, List.reverse_cons, he, hc] at hn
      rw [← hn, List.append_assoc, List.singleton_append]

theorem isDocument_iff {n : Bytes} : isDocument n = true ↔ IsDocumentName n := by
  unfold isDocument IsDocumentName
  constructor
  · intro h
    cases he : Path.extension n with
    | none =>
      rw [he] at h
      exact absurd h (by simp)
    | some e =>
      obtain ⟨stem, hs, hn⟩ := extension_eq_some he
      rw [he] at h
      exact ⟨stem, e, by simpa using h, hs, hn⟩
  · rintro ⟨stem, e, he, hs, rfl⟩
    have hne : e ≠ [] := by
      rintro rfl
      exact absurd he (by decide)
    have hdot : Path.dot ∉ e := by
      have hall : ∀ e ∈ documentExtensions, Path.dot ∉ e := by decide
      exact hall e he
    rw [extension_append hs hne hdot]
    simpa using he

namespace Tree

variable {t : Tree}

/-- The path of the step leads to the directory at its place. -/
def Sound (t : Tree) (s : Step) : Prop :=
  t.locate s.path = .ok s.place ∧ t.item? s.place = some .directory

/-! ## One name of a directory -/

section Visit

variable {descend : List Step → Except WalkFailure (List Bytes)} {way : List Step} {dir : Step}
  {n : Bytes} {i : Item}

theorem Sound.child (hw : t.WellFormed) (hd : t.Sound dir)
    (hi : t.item? (n :: dir.place) = some .directory) :
    t.Sound ⟨Path.join dir.path n, n :: dir.place⟩ :=
  ⟨locate_join_of_item (hw.isName hi) hd.1 hd.2 hi (by simp), hi⟩

theorem Sound.isFile_child (hw : t.WellFormed) (hd : t.Sound dir) {bytes : ByteArray}
    (hi : t.item? (n :: dir.place) = some (.file bytes)) : t.IsFile (Path.join dir.path n) :=
  isFile_iff.mpr ⟨_, bytes, locate_join_of_item (hw.isName hi) hd.1 hd.2 hi (by simp), hi⟩

/- Whatever a visit adds is the document itself, or comes from going down one step. -/
theorem mem_visit (hw : t.WellFormed) (hd : t.Sound dir) {followLinks : Bool} {ys : List Bytes}
    (hi : t.item? (n :: dir.place) = some i)
    (h : t.visit followLinks descend way dir n i = .ok ys) {p : Bytes} (hp : p ∈ ys) :
    (p = Path.join dir.path n ∧ t.IsFile p) ∨
      ∃ place, t.Sound ⟨Path.join dir.path n, place⟩ ∧
        descend (⟨Path.join dir.path n, place⟩ :: way) = .ok ys := by
  have hleaf : p ∈ (if isDocument n then [Path.join dir.path n] else []) →
      p = Path.join dir.path n := by
    split <;> simp
  cases i with
  | file bytes =>
    obtain rfl := Except.ok.inj h
    have hpath := hleaf hp
    exact .inl ⟨hpath, hpath ▸ hd.isFile_child hw hi⟩
  | directory => exact .inr ⟨n :: dir.place, hd.child hw hi, h⟩
  | link target =>
    simp only [visit] at h
    cases hl : t.locate (Path.join dir.path n) with
    | error why =>
      rw [hl] at h
      cases followLinks with
      | true => exact absurd h (by simp)
      | false =>
        obtain rfl := Except.ok.inj h
        exact absurd hp (by simp)
    | ok place =>
      rw [hl] at h
      dsimp only at h
      by_cases hdir : t.isDirectory place = true
      · rw [if_pos hdir] at h
        cases followLinks with
        | false =>
          obtain rfl := Except.ok.inj h
          exact absurd hp (by simp)
        | true =>
          rw [if_pos rfl] at h
          split at h
          · exact absurd h (by simp)
          · exact .inr ⟨place, ⟨hl, isDirectory_iff.mp hdir⟩, h⟩
      · rw [if_neg hdir] at h
        obtain rfl := Except.ok.inj h
        have hpath := hleaf hp
        rw [Bool.not_eq_true] at hdir
        exact .inl ⟨hpath, hpath ▸ hw.isFile_of_locate hl hdir⟩

/- What is no directory is a document when its name is one and its path leads to a
file, be it through a link. -/
theorem visit_leaf (hw : t.WellFormed) (hd : t.Sound dir)
    (hi : t.item? (n :: dir.place) = some i) (hne : i ≠ .directory) :
    ∃ ys, t.visit false descend way dir n i = .ok ys ∧
      ∀ p, p ∈ ys ↔ p = Path.join dir.path n ∧ isDocument n = true ∧ t.IsFile p := by
  have hleaf : t.IsFile (Path.join dir.path n) → ∀ p,
      (p ∈ (if isDocument n then [Path.join dir.path n] else []) ↔
        p = Path.join dir.path n ∧ isDocument n = true ∧ t.IsFile p) := by
    intro hfile p
    by_cases hn : isDocument n = true
    · rw [if_pos hn, List.mem_singleton]
      exact ⟨fun h => ⟨h, hn, h ▸ hfile⟩, fun h => h.1⟩
    · simp [hn]
  have hnone : ¬t.IsFile (Path.join dir.path n) → ∀ p,
      (p ∈ ([] : List Bytes) ↔ p = Path.join dir.path n ∧ isDocument n = true ∧ t.IsFile p) := by
    intro hfile p
    refine ⟨fun h => absurd h (by simp), ?_⟩
    rintro ⟨rfl, -, h⟩
    exact absurd h hfile
  cases i with
  | file bytes => exact ⟨_, rfl, hleaf (hd.isFile_child hw hi)⟩
  | directory => exact absurd rfl hne
  | link target =>
    simp only [visit]
    cases hl : t.locate (Path.join dir.path n) with
    | error why =>
      refine ⟨[], rfl, hnone fun hf => ?_⟩
      obtain ⟨p, bytes, hp, -⟩ := isFile_iff.mp hf
      rw [hl] at hp
      exact absurd hp (by simp)
    | ok place =>
      dsimp only
      by_cases hdir : t.isDirectory place = true
      · rw [if_pos hdir]
        exact ⟨[], rfl, hnone (not_isFile_of_directory hl (isDirectory_iff.mp hdir))⟩
      · rw [if_neg hdir]
        rw [Bool.not_eq_true] at hdir
        exact ⟨_, rfl, hleaf (hw.isFile_of_locate hl hdir)⟩

end Visit

/-! ## A whole walk -/

theorem walk_succ (followLinks : Bool) (depth : Nat) (dir : Step) (above : List Step) :
    t.walk followLinks (depth + 1) (dir :: above) =
      ((t.children dir.place).mapM fun e =>
        t.visit followLinks (t.walk followLinks depth) (dir :: above) dir e.1 e.2).map
        List.flatten := by
  rw [walk]
  cases (t.children dir.place).mapM fun e =>
    t.visit followLinks (t.walk followLinks depth) (dir :: above) dir e.1 e.2 <;> rfl

theorem mem_walk_succ {followLinks : Bool} {depth : Nat} {dir : Step} {above : List Step}
    {files : List Bytes} (h : t.walk followLinks (depth + 1) (dir :: above) = .ok files)
    (p : Bytes) :
    p ∈ files ↔ ∃ n i ys, (n, i) ∈ t.children dir.place ∧
      t.visit followLinks (t.walk followLinks depth) (dir :: above) dir n i = .ok ys ∧ p ∈ ys := by
  rw [walk_succ, map_eq_ok_iff] at h
  obtain ⟨found, hm, rfl⟩ := h
  rw [List.mem_flatten]
  constructor
  · rintro ⟨ys, hys, hp⟩
    obtain ⟨⟨n, i⟩, hmem, hv⟩ := (mem_of_mapM_ok hm ys).mp hys
    exact ⟨n, i, ys, hmem, hv, hp⟩
  · rintro ⟨n, i, ys, hmem, hv, hp⟩
    exact ⟨ys, (mem_of_mapM_ok hm ys).mpr ⟨(n, i), hmem, hv⟩, hp⟩

/-- Every file found is the first directory followed by names, and can be read. -/
theorem walk_sound (hw : t.WellFormed) {followLinks : Bool} {depth : Nat} {dir : Step}
    {above : List Step} (hd : t.Sound dir) {files : List Bytes}
    (h : t.walk followLinks depth (dir :: above) = .ok files) {p : Bytes} (hp : p ∈ files) :
    t.IsFile p ∧ ∃ names, names ≠ [] ∧ (∀ n ∈ names, Path.IsName n) ∧
      p = Path.extend dir.path names := by
  induction depth generalizing dir above files with
  | zero =>
    obtain rfl := Except.ok.inj h
    exact absurd hp (by simp)
  | succ depth ih =>
    obtain ⟨n, i, ys, hmem, hv, hp⟩ := (mem_walk_succ h p).mp hp
    have hi := hw.mem_children_iff.mp hmem
    have hn := hw.isName hi
    rcases mem_visit hw hd hi hv hp with ⟨hpath, hf⟩ | ⟨place, hsound, hdown⟩
    · exact ⟨hf, [n], by simp, by simpa using hn, hpath⟩
    · obtain ⟨hf, names, -, hnames, hpath⟩ := ih hsound hdown hp
      refine ⟨hf, n :: names, by simp, fun m hm => ?_, hpath⟩
      rcases List.mem_cons.mp hm with rfl | hm
      · exact hn
      · exact hnames m hm

/-- The names lead from the directory `base` at `place` to a documentation file, at
most `depth` names down, and pass only names of directories themselves. -/
structure Found (t : Tree) (depth : Nat) (base : Bytes) (place : Place) (names : List Bytes) :
    Prop where
  below : 1 ≤ names.length
  within : names.length ≤ depth
  named : ∀ n ∈ names, Path.IsName n
  directories : ∀ front, front <+: names → front ≠ names →
    t.item? (front.reverse ++ place) = some .directory
  document : ∀ n ∈ names.getLast?, IsDocumentName n
  file : t.IsFile (Path.extend base names)

/-- Below a name that is a directory the search goes on one level less deep. -/
theorem found_cons_iff {depth : Nat} {base : Bytes} {place : Place} {n : Bytes}
    {names : List Bytes} (hne : names ≠ []) (hn : Path.IsName n)
    (hp : t.item? place = some .directory) :
    t.Found (depth + 1) base place (n :: names) ↔
      t.item? (n :: place) = some .directory ∧
        t.Found depth (Path.join base n) (n :: place) names := by
  obtain ⟨m, names, rfl⟩ := List.exists_cons_of_ne_nil hne
  constructor
  · intro h
    refine ⟨h.directories [n] ⟨m :: names, rfl⟩ (by simp), by simp, ?_, ?_, ?_, ?_, h.file⟩
    · exact Nat.le_of_succ_le_succ h.within
    · exact fun k hk => h.named k (List.mem_cons_of_mem n hk)
    · intro front hfront hf
      have hd := h.directories (n :: front) (List.cons_prefix_cons.mpr ⟨rfl, hfront⟩)
        (fun he => hf (List.cons.inj he).2)
      rw [List.reverse_cons, List.append_assoc] at hd
      exact hd
    · exact fun k hk => h.document k hk
  · rintro ⟨hdir, h⟩
    refine ⟨by simp, Nat.succ_le_succ h.within, ?_, ?_, fun k hk => h.document k hk, h.file⟩
    · intro k hk
      rcases List.mem_cons.mp hk with rfl | hk
      · exact hn
      · exact h.named k hk
    · intro front hfront hf
      cases front with
      | nil => exact hp
      | cons k front =>
        obtain ⟨rfl, hrest⟩ := List.cons_prefix_cons.mp hfront
        rw [List.reverse_cons, List.append_assoc]
        exact h.directories front hrest fun he => hf (by rw [he])

theorem found_singleton_iff {depth : Nat} {base : Bytes} {place : Place} {n : Bytes}
    (hn : Path.IsName n) (hp : t.item? place = some .directory) :
    t.Found (depth + 1) base place [n] ↔
      isDocument n = true ∧ t.IsFile (Path.join base n) := by
  rw [isDocument_iff]
  constructor
  · intro h
    exact ⟨h.document n rfl, h.file⟩
  · rintro ⟨hdoc, hfile⟩
    refine ⟨by simp, by simp, by simpa using hn, ?_, ?_, hfile⟩
    · intro front hfront hf
      cases front with
      | nil => exact hp
      | cons k front =>
        obtain ⟨rfl, hrest⟩ := List.cons_prefix_cons.mp hfront
        rw [List.prefix_nil] at hrest
        exact absurd (by rw [hrest]) hf
    · intro k hk
      obtain rfl : n = k := by simpa using hk
      exact hdoc

/-- The first name on the way to a file found is in the directory. -/
theorem Found.exists_item {depth : Nat} {dir : Step} {n : Bytes} {names : List Bytes}
    (hd : t.Sound dir) (h : t.Found depth dir.path dir.place (n :: names)) :
    ∃ i, t.item? (n :: dir.place) = some i := by
  cases names with
  | cons m names => exact ⟨_, h.directories [n] ⟨m :: names, rfl⟩ (by simp)⟩
  | nil =>
    obtain ⟨p, bytes, hp, -⟩ := isFile_iff.mp h.file
    have hn := h.named n List.mem_cons_self
    obtain ⟨left, hleft⟩ := locate_join_name hn hd.1
    rw [Path.extend_cons, Path.extend_nil, hleft, resolve_name t hn hd.2] at hp
    cases hi : t.item? (n :: dir.place) with
    | none =>
      rw [hi] at hp
      exact absurd hp (by simp)
    | some i => exact ⟨i, rfl⟩

/-- The files are those found below the directory of the step. -/
def Lists (t : Tree) (depth : Nat) (dir : Step) (files : List Bytes) : Prop :=
  ∀ p, p ∈ files ↔
    ∃ names, p = Path.extend dir.path names ∧ t.Found depth dir.path dir.place names

/- What one name adds are the files found on a way that begins with it. -/
theorem visit_direct (hw : t.WellFormed) {depth : Nat} {dir : Step} (hd : t.Sound dir) {n : Bytes}
    {i : Item} (hi : t.item? (n :: dir.place) = some i) {way : List Step}
    {descend : List Step → Except WalkFailure (List Bytes)}
    (hdescend : ∀ sub, t.Sound sub →
      ∃ files, descend (sub :: way) = .ok files ∧ t.Lists depth sub files) :
    ∃ ys, t.visit false descend way dir n i = .ok ys ∧
      ∀ p, p ∈ ys ↔ ∃ names, p = Path.extend dir.path (n :: names) ∧
        t.Found (depth + 1) dir.path dir.place (n :: names) := by
  have hn := hw.isName hi
  by_cases hdir : i = .directory
  · subst hdir
    obtain ⟨ys, hys, hlists⟩ := hdescend _ (hd.child hw hi)
    refine ⟨ys, hys, fun p => ?_⟩
    rw [hlists p]
    constructor
    · rintro ⟨names, rfl, h⟩
      have hne : names ≠ [] := List.ne_nil_of_length_pos h.below
      exact ⟨names, rfl, (found_cons_iff hne hn hd.2).mpr ⟨hi, h⟩⟩
    · rintro ⟨names, rfl, h⟩
      by_cases hne : names = []
      · subst hne
        exact absurd h.file (not_isFile_of_directory (hd.child hw hi).1 hi)
      · exact ⟨names, rfl, ((found_cons_iff hne hn hd.2).mp h).2⟩
  · obtain ⟨ys, hys, hleaf⟩ := @visit_leaf t descend way dir n i hw hd hi hdir
    refine ⟨ys, hys, fun p => ?_⟩
    rw [hleaf p]
    constructor
    · rintro ⟨rfl, hdoc, hf⟩
      exact ⟨[], rfl, (found_singleton_iff hn hd.2).mpr ⟨hdoc, hf⟩⟩
    · rintro ⟨names, rfl, h⟩
      by_cases hne : names = []
      · subst hne
        obtain ⟨hdoc, hf⟩ := (found_singleton_iff hn hd.2).mp h
        exact ⟨rfl, hdoc, hf⟩
      · have hi' := ((found_cons_iff hne hn hd.2).mp h).1
        rw [hi, Option.some.injEq] at hi'
        exact absurd hi' hdir

/-- A walk that does not follow links comes to an end and finds the documents below
its directory, no more and no fewer. -/
theorem walk_direct (hw : t.WellFormed) (depth : Nat) (dir : Step) (above : List Step)
    (hd : t.Sound dir) :
    ∃ files, t.walk false depth (dir :: above) = .ok files ∧ t.Lists depth dir files := by
  induction depth generalizing dir above with
  | zero =>
    refine ⟨[], rfl, fun p => ⟨fun h => absurd h (by simp), ?_⟩⟩
    rintro ⟨names, -, h⟩
    have hbelow := h.below
    have hwithin := h.within
    omega
  | succ depth ih =>
    have hvisit : ∀ n i, (n, i) ∈ t.children dir.place →
        ∃ ys, t.visit false (t.walk false depth) (dir :: above) dir n i = .ok ys ∧
          ∀ p, p ∈ ys ↔ ∃ names, p = Path.extend dir.path (n :: names) ∧
            t.Found (depth + 1) dir.path dir.place (n :: names) := fun n i hmem =>
      visit_direct hw hd (hw.mem_children_iff.mp hmem) fun sub hsub => ih sub (dir :: above) hsub
    obtain ⟨found, hm⟩ := mapM_ok_of_forall fun (e : Bytes × Item) he =>
      (hvisit e.1 e.2 he).imp fun ys h => h.1
    have hok : t.walk false (depth + 1) (dir :: above) = .ok found.flatten := by
      rw [walk_succ, hm]
      rfl
    refine ⟨found.flatten, hok, fun p => ?_⟩
    rw [mem_walk_succ hok p]
    constructor
    · rintro ⟨n, i, ys, hmem, hv, hp⟩
      obtain ⟨zs, hv', hfound⟩ := hvisit n i hmem
      obtain rfl : ys = zs := Except.ok.inj (hv.symm.trans hv')
      obtain ⟨names, hpath, h⟩ := (hfound p).mp hp
      exact ⟨n :: names, hpath, h⟩
    · rintro ⟨names, hpath, h⟩
      obtain ⟨n, names, rfl⟩ :=
        List.exists_cons_of_ne_nil (List.ne_nil_of_length_pos h.below)
      obtain ⟨i, hi⟩ := h.exists_item hd
      have hmem := hw.mem_children_iff.mpr hi
      obtain ⟨ys, hv, hfound⟩ := hvisit n i hmem
      exact ⟨n, i, ys, hmem, hv, (hfound p).mpr ⟨names, hpath, h⟩⟩

end Tree
end Files
end PolicyLint
