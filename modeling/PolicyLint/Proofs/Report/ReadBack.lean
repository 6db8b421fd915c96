/-
Reports read back.

A report for programs is one JSON document.  It can be written exactly when the paths that it
shows are texts, and then nothing that it tells gets lost on the way: a decoder that looks the
members up by their keys finds the counts, the verdict and every outcome again.
-/
import PolicyLint.Proofs.Bytes
import PolicyLint.Proofs.Except
import PolicyLint.Proofs.Json.Pretty
import PolicyLint.Proofs.Json.Reading
import PolicyLint.Proofs.Report.Summary
import PolicyLint.Report.Json

namespace PolicyLint

/-! ## Decoding -/

namespace Data

def member? (key : Text) : Data → Option Data
  | mapping bindings => lookup key bindings
  | _ => none

def count? : Data → Option Nat
  | number ⟨false, n, 0⟩ => some n
  | _ => none

def flag? : Data → Option Bool
  | bool b => some b
  | _ => none

def text? : Data → Option Text
  | string s => some s
  | _ => none

/-- A text, or its absence. -/
def optionalText? : Data → Option (Option Text)
  | null => some none
  | string s => some (some s)
  | _ => none

def items? : Data → Option (List Data)
  | list items => some items
  | _ => none

end Data

def Format.ofName (t : Text) : Option Format :=
  [yaml, json].find? (·.name = t)

def Outcome.ofData? (v : Data) : Option Outcome := do
  let file ← (← v.member? "file".toList).text?
  let block ← (← v.member? "block".toList).count?
  let line ← (← v.member? "line".toList).count?
  let format ← Format.ofName (← (← v.member? "format".toList).text?)
  let error ← (← v.member? "error".toList).optionalText?
  return ⟨file.utf8, block, line, format, error⟩

def Summary.ofData? (v : Data) : Option Summary := do
  let total ← (← v.member? "total".toList).count?
  let passed ← (← v.member? "passed".toList).count?
  let failed ← (← v.member? "failed".toList).count?
  return ⟨total, passed, failed⟩

/-- What a report for programs tells. -/
structure Announced where
  scannedFiles : Nat
  ok : Bool
  summary : Summary
  outcomes : List Outcome
deriving DecidableEq, Repr

def Announced.ofData? (v : Data) : Option Announced := do
  let scannedFiles ← (← v.member? "scanned_files".toList).count?
  let ok ← (← v.member? "ok".toList).flag?
  let summary ← Summary.ofData? (← v.member? "summary".toList)
  let outcomes ← (← (← v.member? "blocks".toList).items?).mapM Outcome.ofData?
  return ⟨scannedFiles, ok, summary, outcomes⟩

/-! ## Writing -/

/-- The path of every outcome is a text. -/
def Report.InUnicode (r : Report) : Prop :=
  ∀ o ∈ r.outcomes, ∃ file : Text, o.file = file.utf8

theorem Outcome.write_ok_iff {o : Outcome} {v : Data} :
    o.write = .ok v ↔ ∃ file : Text, o.file = file.utf8 ∧ o.toData file = v := by
  simp only [← Bytes.text?_eq_some_iff]
  rw [write]
  cases o.file.text? <;> simp

theorem Outcome.write_error_iff {o : Outcome} {why : Text} :
    o.write = .error why ↔ (∀ file : Text, o.file ≠ file.utf8) ∧ why = unwritable := by
  simp only [ne_eq, ← Bytes.text?_eq_some_iff]
  rw [write]
  cases o.file.text? <;> simp [eq_comm]

namespace Report

/-- A report can be written when the paths in it are texts. -/
theorem exists_write_iff {r : Report} : (∃ v, r.write = .ok v) ↔ r.InUnicode := by
  constructor
  · intro ⟨v, hv⟩ o ho
    obtain ⟨blocks, hblocks, -⟩ := map_eq_ok_iff.mp hv
    obtain ⟨w, hw⟩ := ok_of_mapM_ok hblocks o ho
    obtain ⟨file, hfile, -⟩ := Outcome.write_ok_iff.mp hw
    exact ⟨file, hfile⟩
  · intro h
    obtain ⟨blocks, hblocks⟩ := mapM_ok_of_forall fun o ho => by
      obtain ⟨file, hfile⟩ := h o ho
      exact ⟨o.toData file, Outcome.write_ok_iff.mpr ⟨file, hfile, rfl⟩⟩
    exact ⟨r.toData blocks, map_eq_ok_iff.mpr ⟨blocks, hblocks, rfl⟩⟩

/-- A report that can be written tells the paths as they are shown. -/
theorem toData_of_write {r : Report} {v : Data} (h : r.write = .ok v) :
    r.toData (r.outcomes.map fun o => o.toData o.file.shown) = v := by
  obtain ⟨blocks, hblocks, rfl⟩ := map_eq_ok_iff.mp h
  have hshown : List.Forall₂ (fun o v => o.toData o.file.shown = v) r.outcomes blocks := by
    refine (forall₂_of_mapM_ok hblocks).imp fun o v hv => ?_
    obtain ⟨file, hfile, rfl⟩ := Outcome.write_ok_iff.mp hv
    rw [hfile, Bytes.shown_utf8]
  rw [← List.forall₂_map_left_iff, List.forall₂_eq_eq_eq] at hshown
  rw [hshown]

theorem write_error {r : Report} {why : Text} (h : r.write = .error why) :
    why = Outcome.unwritable := by
  obtain ⟨o, -, ho⟩ := exists_of_mapM_error (map_eq_error_iff.mp h)
  exact (Outcome.write_error_iff.mp ho).2

end Report

/-! ## Reading -/

theorem Outcome.ofData?_of_write {o : Outcome} {v : Data} (h : o.write = .ok v) :
    Outcome.ofData? v = some o := by
  obtain ⟨file, hfile, rfl⟩ := write_ok_iff.mp h
  obtain ⟨file', block, line, format, error⟩ := o
  obtain rfl : file' = file.utf8 := hfile
  cases format <;> cases error <;> rfl

theorem Outcome.mapM_ofData? {os : List Outcome} {vs : List Data}
    (h : List.Forall₂ (fun o v => o.write = .ok v) os vs) : vs.mapM Outcome.ofData? = some os := by
  induction h with
  | nil => rfl
  | cons ho _ ih =>
    rw [List.mapM_cons, Outcome.ofData?_of_write ho, ih]
    rfl

theorem Announced.ofData?_of_write {r : Report} {v : Data} (h : r.write = .ok v) :
    Announced.ofData? v = some ⟨r.scannedFiles, r.ok, r.summary, r.outcomes⟩ := by
  obtain ⟨blocks, hblocks, rfl⟩ := map_eq_ok_iff.mp h
  have houtcomes := Outcome.mapM_ofData? (forall₂_of_mapM_ok hblocks)
  show (blocks.mapM Outcome.ofData?).bind _ = _
  rw [houtcomes]
  rfl

/-! ## The text -/

/-- The counts of the report are machine words. -/
structure Report.InWords (r : Report) : Prop where
  scannedFiles : r.scannedFiles < Nat.pow 2 64
  total : r.outcomes.length < Nat.pow 2 64
  block : ∀ o ∈ r.outcomes, o.block < Nat.pow 2 64
  line : ∀ o ∈ r.outcomes, o.line < Nat.pow 2 64

namespace Json

theorem Writable.count {nesting n : Nat} (h : n < Nat.pow 2 64) : Writable nesting (.count n) :=
  .number h

theorem writable_outcome {nesting : Nat} {o : Outcome} (hblock : o.block < Nat.pow 2 64)
    (hline : o.line < Nat.pow 2 64) (file : Text) : Writable (nesting + 1) (o.toData file) := by
  refine .mapping ?_
  simp only [List.forall_mem_cons]
  refine ⟨.string _, .count hblock, .count hline, .string _, ?_, List.forall_mem_nil _⟩
  cases o.error with
  | none => exact .null
  | some reason => exact .string reason

theorem writable_summary {nesting : Nat} {s : Summary} (h : s.total < Nat.pow 2 64)
    (hpassed : s.passed ≤ s.total) (hfailed : s.failed ≤ s.total) :
    Writable (nesting + 1) s.toData := by
  refine .mapping ?_
  simp only [List.forall_mem_cons]
  exact ⟨.count h, .count (by omega), .count (by omega), List.forall_mem_nil _⟩

theorem writable_report {nesting : Nat} {r : Report} (h : r.InWords) {document : Data}
    (hwrite : r.write = .ok document) : Writable (nesting + 3) document := by
  rw [← Report.toData_of_write hwrite]
  have htotal : r.summary.total < Nat.pow 2 64 := by
    rw [r.summary_eq]
    exact h.total
  have hsum := r.total_eq
  refine .mapping ?_
  simp only [List.forall_mem_cons]
  refine ⟨.count h.scannedFiles, .bool _, ?_, ?_, List.forall_mem_nil _⟩
  · exact writable_summary htotal (by omega) (by omega)
  · refine .list fun v hv => ?_
    obtain ⟨o, ho, rfl⟩ := List.mem_map.mp hv
    exact writable_outcome (h.block o ho) (h.line o ho) _

end Json

namespace Report

open Json

theorem document_json {r : Report} (h : r.InWords) {v : Data} (hwrite : r.write = .ok v) :
    document (pretty v ++ ['\n']) = .ok v :=
  document_pretty (writable_report h hwrite) (endsNumber_cons (by decide)) (by decide)

theorem getLast?_pretty {r : Report} {v : Data} (h : r.write = .ok v) :
    (pretty v).getLast? = some '\x7d' := by
  rw [← toData_of_write h, pretty, toData, Pretty.value]
  exact List.getLast?_concat

/-- A report for programs is one JSON document and a line end, and everything that it
tells is read back from it. -/
theorem json_read_back (r : Report) (h : r.InWords) (hfiles : r.InUnicode) :
    (∃ body v, r.json = .ok (body ++ ['\n']) ∧ body.getLast? = some '\x7d' ∧
      document body = .ok v ∧ parse (body ++ ['\n']) = .ok v ∧
      Announced.ofData? v = some ⟨r.scannedFiles, r.ok, r.summary, r.outcomes⟩) ∧
    ∀ s : Report, s.InWords → s.json = r.json →
      s.scannedFiles = r.scannedFiles ∧ s.outcomes = r.outcomes := by
  obtain ⟨v, hwrite⟩ := exists_write_iff.mpr hfiles
  have hjson : r.json = .ok (pretty v ++ ['\n']) := map_eq_ok_iff.mpr ⟨v, hwrite, rfl⟩
  constructor
  · have hbody : document (pretty v) = .ok v := by
      have hread := document_pretty (writable_report h hwrite) endsNumber_nil rfl
      rwa [List.append_nil] at hread
    refine ⟨pretty v, v, hjson, getLast?_pretty hwrite, hbody, ?_, ?_⟩
    · exact parse_ok_iff.mpr (document_json h hwrite)
    · exact Announced.ofData?_of_write hwrite
  · -- Equal texts are read as equal documents, and a document tells which report it is of.
    intro s hs hsame
    rw [hjson] at hsame
    obtain ⟨w, hw, htext⟩ := map_eq_ok_iff.mp hsame
    obtain rfl : w = v := by
      have hdocument := document_json hs hw
      rw [htext, document_json h hwrite] at hdocument
      exact (Except.ok.inj hdocument).symm
    have htold := Announced.ofData?_of_write hw
    rw [Announced.ofData?_of_write hwrite, Option.some.injEq, Announced.mk.injEq] at htold
    obtain ⟨hscanned, -, -, houtcomes⟩ := htold
    exact ⟨hscanned.symm, houtcomes.symm⟩

/-- A report with the largest counts, whose texts need every kind of escape. -/
def awkward : Report where
  scannedFiles := Nat.pow 2 64 - 1
  outcomes :=
    [⟨Bytes.of "a \"b\"\\c.md", 1, Nat.pow 2 64 - 1, .json, none⟩,
     ⟨Bytes.of "größe.mdx", 2, 7, .yaml, some "null\n\x00\x7f\u2028".toList⟩,
     ⟨Bytes.of "größe.mdx", 3, 12, .yaml, some []⟩]

theorem awkward_read_back :
    awkward.InWords ∧ awkward.InUnicode ∧ ∃ text v, awkward.json = .ok text ∧
      parse text = .ok v ∧
      Announced.ofData? v = some ⟨Nat.pow 2 64 - 1, false, ⟨3, 1, 2⟩, awkward.outcomes⟩ := by
  have hwords : awkward.InWords := by
    constructor <;> decide
  have hfiles : awkward.InUnicode := by
    simp only [Report.InUnicode, awkward, List.forall_mem_cons, Bytes.of_eq_utf8]
    exact ⟨⟨_, rfl⟩, ⟨_, rfl⟩, ⟨_, rfl⟩, List.forall_mem_nil _⟩
  obtain ⟨⟨body, v, hjson, -, -, hparse, htold⟩, -⟩ := json_read_back awkward hwords hfiles
  exact ⟨hwords, hfiles, _, v, hjson, hparse, htold⟩

end Report
end PolicyLint
