/-
What a report holds.

A scan that comes to its end has read every documentation file, one after the other
in the order of their paths, and has checked the blocks of each.  So its outcomes
are those of the blocks of all these files, and whatever is true of the blocks of one
document is true of the outcomes with one file.
-/
import Mathlib.Data.List.Nodup
import PolicyLint.Proofs.Markdown.RegionReading
import PolicyLint.Proofs.Path.Spelling
import PolicyLint.Proofs.Scan.Discovery

namespace PolicyLint

/-- The text of the file that a path leads to. -/
def Files.Tree.textAt? (t : Files.Tree) (path : Bytes) : Option Text :=
  (t.bytesAt? path).bind Text.ofUtf8?

namespace Scan

open Files (Tree)

variable {t : Tree} {c : Config}

/-! ## Reading -/

theorem leading_eq {limit : Nat} {bytes : ByteArray} (hs : bytes.size < countBound)
    (hl : bytes.size ≤ limit) : leading limit bytes = bytes := by
  have hmax : min (limit + 1) (countBound - 1) =
      max (min (limit + 1) (countBound - 1)) bytes.size := by omega
  rw [leading, hmax]
  exact ByteArray.extract_zero_max_size

/-- Reading no further than the limit asks for makes no difference. -/
theorem readFile_eq_decode {path : Bytes} {bytes : ByteArray} (h : t.bytesAt? path = some bytes)
    (hs : bytes.size < countBound) (limit : Nat) :
    readFile t limit path = decode path limit bytes := by
  rw [readFile, Tree.bytesAt?_eq_some_iff.mp h]
  dsimp only
  by_cases hl : bytes.size ≤ limit
  · rw [leading_eq hs hl]
  · have hleading : (leading limit bytes).size = limit + 1 := by
      rw [leading, ByteArray.size_extract]
      omega
    rw [decode, if_pos (by omega), decode, if_pos (by omega)]

theorem textAt?_of_readFile (hw : t.WellFormed) {limit : Nat} {path : Bytes} {x : Text}
    (hf : t.IsFile path) (h : readFile t limit path = .ok x) : t.textAt? path = some x := by
  obtain ⟨p, bytes, hl, hi⟩ := Tree.isFile_iff.mp hf
  have hbytes : t.bytesAt? path = some bytes :=
    Tree.bytesAt?_eq_some_iff.mpr (Tree.contents_eq_ok_iff.mpr ⟨p, hl, hi⟩)
  rw [readFile_eq_decode hbytes (hw.size_lt hi), decode] at h
  rw [Tree.textAt?, hbytes, Option.bind_some]
  split at h
  · exact absurd h (by simp)
  · cases hu : Text.ofUtf8? bytes with
    | none =>
      rw [hu] at h
      exact absurd h (by simp)
    | some y =>
      rw [hu] at h
      rw [Except.ok.inj h]

/-! ## Checking files one after the other -/

/-- A file as shown, with its text. -/
structure Document where
  file : Bytes
  text : Text

/-- The outcomes of the blocks of a document. -/
def Document.outcomes (d : Document) : List Outcome :=
  (Markdown.blocks d.text).map (outcome d.file)

/-- The document that a configuration shows a path as. -/
def Config.document (c : Config) (path : Bytes) (text : Text) : Document :=
  ⟨c.displayPath path, text⟩

theorem checkFiles_ok {paths : List Bytes} {r r' : Report}
    (h : (checkFiles t c r paths).result = .ok r') :
    ∃ texts, List.Forall₂ (fun p x => readFile t c.maxFileSize p = .ok x) paths texts ∧
      r'.scannedFiles = r.scannedFiles + paths.length ∧
      r'.outcomes = r.outcomes ++ (List.zipWith c.document paths texts).flatMap
        Document.outcomes := by
  induction paths generalizing r with
  | nil =>
    obtain rfl : r = r' := Except.ok.inj h
    exact ⟨[], .nil, rfl, by simp⟩
  | cons path paths ih =>
    rw [checkFiles] at h
    cases hread : readFile t c.maxFileSize path with
    | error f =>
      rw [hread] at h
      exact absurd h (by simp)
    | ok x =>
      rw [hread] at h
      obtain ⟨texts, hall, hcount, houtcomes⟩ := ih h
      refine ⟨x :: texts, .cons hread hall, ?_, ?_⟩
      · rw [hcount, List.length_cons]
        show r.scannedFiles + 1 + paths.length = r.scannedFiles + (paths.length + 1)
        omega
      · rw [houtcomes, List.zipWith_cons_cons, List.flatMap_cons, List.append_assoc]
        rfl

/-- Without a file there is no outcome. -/
theorem outcomes_eq_nil {r : Report} (h : (run t c).result = .ok r) (hr : r.scannedFiles = 0) :
    r.outcomes = [] := by
  rw [run] at h
  cases hs : (sourceFiles t c).result with
  | error f =>
    rw [hs] at h
    exact absurd h (by simp)
  | ok paths =>
    rw [hs] at h
    obtain ⟨texts, -, hcount, houtcomes⟩ := checkFiles_ok h
    have hnil : paths = [] := by
      apply List.eq_nil_of_length_eq_zero
      omega
    rw [houtcomes, hnil]
    rfl

/-! ## Outcomes and blocks -/

/-- The outcome tells of the block, in a file shown as `file`. -/
structure Describes (file : Bytes) (b : Block) (o : Outcome) : Prop where
  file_eq : o.file = file
  block_eq : o.block = b.ordinal
  line_eq : o.line = b.line
  format_eq : o.format = b.format
  passed_iff : o.error = none ↔ Policy.validate b.content b.format = .ok ()
  reason : ∀ why, Policy.validate b.content b.format = .error why → o.error = some why.message

theorem describes_outcome (file : Bytes) (b : Block) : Describes file b (outcome file b) := by
  refine ⟨rfl, rfl, rfl, rfl, ?_, ?_⟩
  · rw [outcome]
    cases Policy.validate b.content b.format <;> simp
  · intro why h
    simp only [outcome, h]

/-- The outcomes tell of the blocks of the documents, in order. -/
inductive Tells : List Document → List Outcome → Prop
  | nil : Tells [] []
  | document {d : Document} {ds : List Document} {own rest : List Outcome}
      (h : List.Forall₂ (Describes d.file) (Markdown.blocks d.text) own)
      (hrest : Tells ds rest) : Tells (d :: ds) (own ++ rest)

theorem tells_outcomes (ds : List Document) : Tells ds (ds.flatMap Document.outcomes) := by
  induction ds with
  | nil => exact .nil
  | cons d ds ih =>
    rw [List.flatMap_cons]
    refine .document ?_ ih
    rw [Document.outcomes, List.forall₂_map_right_iff]
    exact List.forall₂_same.mpr fun b _ => describes_outcome d.file b

/-! ## Outcomes of one file -/

/-- The outcomes of every file stand together, are numbered from one without a gap,
and their regions lie three lines apart at least. -/
def Grouped (os : List Outcome) : Prop :=
  ∀ file, ∃ before own after, os = before ++ own ++ after ∧
    (∀ o ∈ own, Path.same o.file file = true) ∧
    (∀ o ∈ before ++ after, Path.same o.file file = false) ∧
    own.map (·.block) = List.range' 1 own.length ∧
    own.Pairwise fun a b => a.line + 3 ≤ b.line

/-- No two of the documents are shown as the same path. -/
def Apart (ds : List Document) : Prop :=
  ds.Pairwise fun d e => Path.components d.file ≠ Path.components e.file

theorem Document.file_of_mem {d : Document} {o : Outcome} (h : o ∈ d.outcomes) :
    o.file = d.file := by
  obtain ⟨b, -, rfl⟩ := List.mem_map.mp h
  rfl

theorem Document.ordinals (d : Document) :
    d.outcomes.map (·.block) = List.range' 1 d.outcomes.length := by
  have h := Markdown.blocks_ordinals d.text
  rw [Document.outcomes, List.map_map, List.length_map, ← h]
  rfl

theorem Document.lines_apart (d : Document) :
    d.outcomes.Pairwise fun a b => a.line + 3 ≤ b.line :=
  List.pairwise_map.mpr (Markdown.blocks_lines_apart d.text)

theorem grouped_outcomes {ds : List Document} (h : Apart ds) :
    Grouped (ds.flatMap Document.outcomes) := by
  intro file
  by_cases hfile : ∃ d ∈ ds, Path.components d.file = Path.components file
  · obtain ⟨d, hd, hsame⟩ := hfile
    obtain ⟨front, back, rfl⟩ := List.append_of_mem hd
    refine ⟨front.flatMap Document.outcomes, d.outcomes, back.flatMap Document.outcomes, ?_,
      fun o ho => ?_, fun o ho => ?_, d.ordinals, d.lines_apart⟩
    · rw [List.flatMap_append, List.flatMap_cons, List.append_assoc]
    · rw [Path.same_iff, Document.file_of_mem ho, hsame]
    · rw [Apart, List.pairwise_append, List.pairwise_cons] at h
      obtain ⟨-, ⟨hback, -⟩, hfront⟩ := h
      rw [Bool.eq_false_iff, ne_eq, Path.same_iff]
      rcases List.mem_append.mp ho with ho | ho
      · obtain ⟨e, he, ho⟩ := List.mem_flatMap.mp ho
        rw [Document.file_of_mem ho, ← hsame]
        exact hfront e he d List.mem_cons_self
      · obtain ⟨e, he, ho⟩ := List.mem_flatMap.mp ho
        rw [Document.file_of_mem ho, ← hsame]
        exact (hback e he).symm
  · refine ⟨[], [], ds.flatMap Document.outcomes, by simp, by simp, fun o ho => ?_, rfl, .nil⟩
    obtain ⟨e, he, ho⟩ := List.mem_flatMap.mp ho
    rw [Bool.eq_false_iff, ne_eq, Path.same_iff, Document.file_of_mem ho]
    exact fun h => hfile ⟨e, he, h⟩

/-- What tells the outcomes of a report apart. -/
def outcomeKey (o : Outcome) : List Path.Component × Nat :=
  (Path.components o.file, o.block)

theorem nodup_outcomes {ds : List Document} (h : Apart ds) :
    ((ds.flatMap Document.outcomes).map outcomeKey).Nodup := by
  rw [List.map_flatMap, List.nodup_flatMap]
  constructor
  · intro d _
    have hnodup : (d.outcomes.map (·.block)).Nodup := by
      rw [d.ordinals]
      exact List.nodup_range'
    refine List.Nodup.of_map Prod.snd ?_
    rw [List.map_map]
    exact hnodup
  · refine h.imp fun {d e} hne => ?_
    intro k hd he
    obtain ⟨o, ho, rfl⟩ := List.mem_map.mp hd
    obtain ⟨o', ho', hk⟩ := List.mem_map.mp he
    have hfile := congrArg Prod.fst hk
    simp only [outcomeKey, Document.file_of_mem ho, Document.file_of_mem ho'] at hfile
    exact hne hfile.symm

/-! ## The documents of a configuration -/

/-- The path is that of a search directory, followed by names. -/
def Config.Reaches (c : Config) (p : Bytes) : Prop :=
  ∃ dir ∈ c.resolvedSearchDirs, ∃ names : List Bytes, names ≠ [] ∧
    (∀ n ∈ names, Path.IsName n) ∧ Path.components p = Path.components dir ++ names.map .name

theorem Config.Reaches.prefix_or_root {p : Bytes} (h : c.Reaches p) :
    Path.components c.root <+: Path.components p ∨ .root ∈ Path.components p := by
  obtain ⟨dir, hdir, names, -, -, hp⟩ := h
  obtain ⟨d, -, rfl⟩ := List.mem_map.mp hdir
  rw [hp]
  rcases Path.components_join_cases c.root d with hbelow | hroot
  · exact .inl (hbelow.trans (List.prefix_append _ _))
  · exact .inr (List.mem_append_left _ hroot)

theorem Config.Reaches.eq_of_displayPath_eq {p q : Bytes} (hp : c.Reaches p) (hq : c.Reaches q)
    (h : Path.components (c.displayPath p) = Path.components (c.displayPath q)) :
    Path.components p = Path.components q :=
  Path.components_eq_of_relative_eq hp.prefix_or_root hq.prefix_or_root h

theorem sourceFiles_sound (hw : t.WellFormed) {paths : List Bytes}
    (h : (sourceFiles t c).result = .ok paths) :
    paths.Pairwise Path.Before ∧ ∀ p ∈ paths, t.IsFile p ∧ c.Reaches p := by
  obtain ⟨found, hs, rfl⟩ := map_eq_ok_iff.mp h
  obtain ⟨hpair, hsub, -⟩ := arrange_spec found
  refine ⟨hpair, fun p hp => ?_⟩
  obtain ⟨hf, dir, hdir, hne, names, hnames, hnamed, rfl⟩ := search_sound hw hs (hsub p hp)
  exact ⟨hf, dir, hdir, names, hnames, hnamed, Path.components_extend hne hnamed⟩

theorem apart_documents {paths : List Bytes} {texts : List Text}
    (hpair : paths.Pairwise Path.Before) (hreaches : ∀ p ∈ paths, c.Reaches p) : Apart (List.zipWith c.document paths texts) := by
  induction paths generalizing texts with
  | nil => exact .nil
  | cons path paths ih =>
    cases texts with
    | nil => exact .nil
    | cons x texts =>
      rw [List.pairwise_cons] at hpair
      rw [List.zipWith_cons_cons, Apart, List.pairwise_cons]
      refine ⟨fun d hd => ?_, ih hpair.2 fun p hp => hreaches p (List.mem_cons_of_mem path hp)⟩
      obtain ⟨p, hp, y, rfl⟩ : ∃ p ∈ paths, ∃ y, d = c.document p y := by
        rw [← List.map_uncurry_zip_eq_zipWith] at hd
        obtain ⟨⟨p, y⟩, hpy, rfl⟩ := List.mem_map.mp hd
        exact ⟨p, (List.of_mem_zip hpy).1, y, rfl⟩
      intro he
      have hsame := (hreaches path List.mem_cons_self).eq_of_displayPath_eq
        (hreaches p (List.mem_cons_of_mem path hp)) he
      exact absurd hsame (ne_of_lt (hpair.1 p hp))

/-- A report tells of every block of every documentation file once: file by file in
the order of their paths, and block by block as they stand in the file. -/
theorem run_report (t : Tree) (c : Config) (r : Report) (hw : t.WellFormed)
    (h : (run t c).result = .ok r) :
    ∃ paths texts, (sourceFiles t c).result = .ok paths ∧ paths.Pairwise Path.Before ∧
      r.scannedFiles = paths.length ∧
      List.Forall₂ (fun p x => t.textAt? p = some x) paths texts ∧
      Tells (List.zipWith c.document paths texts) r.outcomes ∧
      (r.outcomes.map outcomeKey).Nodup ∧ Grouped r.outcomes ∧
      (r.scannedFiles = 0 → r.outcomes = []) := by
  rw [run] at h
  cases hs : (sourceFiles t c).result with
  | error f =>
    rw [hs] at h
    exact absurd h (by simp)
  | ok paths =>
    rw [hs] at h
    obtain ⟨texts, hread, hcount, houtcomes⟩ := checkFiles_ok h
    obtain ⟨hpair, hfiles⟩ := sourceFiles_sound hw hs
    have hapart : Apart (List.zipWith c.document paths texts) :=
      apart_documents hpair fun p hp => (hfiles p hp).2
    have hzero : r.scannedFiles = paths.length := by
      rw [hcount]
      exact Nat.zero_add _
    rw [show Report.empty.outcomes = [] from rfl, List.nil_append] at houtcomes
    refine ⟨paths, texts, rfl, hpair, hzero, ?_, ?_, ?_, ?_, ?_⟩
    · have hmem := List.forall₂_iff_zip.mp hread
      refine List.forall₂_iff_zip.mpr ⟨hmem.1, fun {p x} hpx => ?_⟩
      exact textAt?_of_readFile hw (hfiles p (List.of_mem_zip hpx).1).1 (hmem.2 hpx)
    · rw [houtcomes]
      exact tells_outcomes _
    · rw [houtcomes]
      exact nodup_outcomes hapart
    · rw [houtcomes]
      exact grouped_outcomes hapart
    · intro h0
      have hnil : paths = [] := List.length_eq_zero_iff.mp (hzero.symm.trans h0)
      rw [houtcomes, hnil]
      rfl

/-- The report on `linkedTree`. -/
def linkedReport : Report where
  scannedFiles := 2
  outcomes :=
    [⟨Bytes.of "traffic-policy/a.md", 1, 1, .json, none⟩,
     ⟨Bytes.of "traffic-policy/b.mdx", 1, 1, .json, some Rejection.rootNotObject.message⟩,
     ⟨Bytes.of "traffic-policy/b.mdx", 2, 5, .yaml, none⟩]

theorem sourceFiles_linkedTree :
    (sourceFiles linkedTree linkedConfig).result =
      .ok (["docs/traffic-policy/a.md", "docs/traffic-policy/b.mdx"].map Bytes.of) := by
  let paths := ["docs/traffic-policy/a.md", "docs/traffic-policy/b.mdx"].map Bytes.of
  have hsearch : (search linkedTree linkedConfig linkedConfig.resolvedSearchDirs).result =
      .ok paths := by
    decide +kernel
  have hsorted : paths.mergeSort Path.le = paths := List.mergeSort_of_pairwise (by decide)
  rw [sourceFiles, hsearch, Except.map, arrange, hsorted]
  rfl

theorem run_linkedTree : (run linkedTree linkedConfig).result = .ok linkedReport := by
  have hchecked : (checkFiles linkedTree linkedConfig Report.empty
      (["docs/traffic-policy/a.md", "docs/traffic-policy/b.mdx"].map Bytes.of)).result =
        .ok linkedReport := by
    decide +kernel
  simp only [run, sourceFiles_linkedTree, hchecked]

theorem linkedTree_reported :
    linkedTree.WellFormed ∧ (run linkedTree linkedConfig).result = .ok linkedReport ∧
      (linkedReport.outcomes.map outcomeKey).Nodup ∧ Grouped linkedReport.outcomes := by
  have hw := wellFormed_linkedTree
  obtain ⟨-, -, -, -, -, -, -, hnodup, hgrouped, -⟩ :=
    run_report linkedTree linkedConfig linkedReport hw run_linkedTree
  exact ⟨hw, run_linkedTree, hnodup, hgrouped⟩

end Scan
end PolicyLint
