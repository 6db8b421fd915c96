/-
The lines of a report for reading.

A reason takes one line, so the report has a line for each outcome, in order, and the lines of
the summary behind them.  The mark that a line begins with tells whether its block passed, so the
counts of the summary are those of the lines with each mark.
-/
import PolicyLint.Proofs.Bytes
import PolicyLint.Proofs.Policy.Reasons
import PolicyLint.Proofs.Report.Printed
import PolicyLint.Proofs.Scan.Outcomes

namespace PolicyLint

/-! ## The line of an outcome -/

namespace Outcome

theorem begins_pass_iff (o : Outcome) : o.shown.head? = some '✅' ↔ o.passed = true := by
  rw [shown, passed]
  cases o.error with
  | none => exact iff_of_true rfl rfl
  | some reason => exact iff_of_false (show some '❌' ≠ some '✅' by decide) Bool.false_ne_true

theorem begins_fail_iff (o : Outcome) : o.shown.head? = some '❌' ↔ o.failed = true := by
  rw [shown, failed]
  cases o.error with
  | none => exact iff_of_false (show some '✅' ≠ some '❌' by decide) Bool.false_ne_true
  | some reason => exact iff_of_true rfl rfl

theorem not_mem_shown {o : Outcome} (hfile : Bytes.feed ∉ o.file)
    (herror : ∀ reason, o.error = some reason → '\n' ∉ reason) : '\n' ∉ o.shown := by
  have hblock : '\n' ∉ o.file.shown ++ " (block ".toList ++ Text.numeral o.block ++ ")".toList := by
    simp only [List.mem_append, not_or]
    have hshown : '\n' ∉ o.file.shown := fun h => hfile (Bytes.feed_mem_of_shown h)
    exact ⟨⟨⟨hshown, by decide⟩, Text.not_mem_numeral o.block⟩, by decide⟩
  rw [shown]
  cases he : o.error with
  | none => exact List.not_mem_append (by decide) hblock
  | some reason =>
    have hlead := List.not_mem_append (show '\n' ∉ "❌ ".toList by decide) hblock
    exact List.not_mem_append (List.not_mem_append hlead (by decide)) (herror reason he)

end Outcome

/-! ## The whole report -/

namespace Report

/-- How many of the lines begin with the mark. -/
def marked (mark : Char) (ls : List Text) : Nat :=
  ls.countP fun line => line.head? = some mark

/-- The lines of a summary with these counts. -/
def summaryLines (total passed failed : Nat) : List Text :=
  [[], List.replicate 42 '=', "SUMMARY".toList, List.replicate 42 '=',
    "Total: ".toList ++ Text.numeral total ++ " | Passed: ".toList ++ Text.numeral passed
      ++ " | Failed: ".toList ++ Text.numeral failed,
    if failed > 0 then "❌ Some blocks invalid.".toList else "🎉 All valid.".toList]

theorem marked_shown {mark : Char} {p : Outcome → Bool}
    (hmark : ∀ o : Outcome, o.shown.head? = some mark ↔ p o = true) (os : List Outcome) :
    marked mark (os.map Outcome.shown) = os.countP p := by
  rw [marked, List.countP_map]
  refine List.countP_congr fun o _ => ?_
  rw [Function.comp_apply, decide_eq_true_eq, hmark]

theorem humanLines_eq {r : Report} (h : 0 < r.scannedFiles) :
    r.humanLines = r.outcomes.map Outcome.shown ++
      summaryLines r.outcomes.length (marked '✅' (r.outcomes.map Outcome.shown))
        (marked '❌' (r.outcomes.map Outcome.shown)) := by
  rw [humanLines_of_pos h, r.summary_eq, marked_shown Outcome.begins_pass_iff,
    marked_shown Outcome.begins_fail_iff]
  rfl

theorem not_mem_summaryLines {total passed failed : Nat} {line : Text}
    (h : line ∈ summaryLines total passed failed) : '\n' ∉ line := by
  have hcounts : '\n' ∉ "Total: ".toList ++ Text.numeral total ++ " | Passed: ".toList
      ++ Text.numeral passed ++ " | Failed: ".toList ++ Text.numeral failed := by
    simp only [List.mem_append, not_or]
    exact ⟨⟨⟨⟨⟨by decide, Text.not_mem_numeral total⟩, by decide⟩, Text.not_mem_numeral passed⟩,
      by decide⟩, Text.not_mem_numeral failed⟩
  simp only [summaryLines, List.mem_cons, List.not_mem_nil, or_false] at h
  rcases h with rfl | rfl | rfl | rfl | rfl | rfl
  · decide
  · decide
  · decide
  · decide
  · exact hcounts
  · split <;> decide

theorem pieces_human {r : Report} (h : 0 < r.scannedFiles)
    (hshown : ∀ o ∈ r.outcomes, '\n' ∉ o.shown) :
    Text.pieces '\n' r.human = r.humanLines ++ [[]] := by
  rw [human]
  apply Text.pieces_ended
  rw [humanLines_eq h]
  exact List.forall_mem_append.mpr
    ⟨List.forall_mem_map.mpr hshown, fun line hline => not_mem_summaryLines hline⟩

end Report

/-! ## Reports on a tree -/

namespace Scan

theorem oneLine_of_error {file : Bytes} {b : Block} {reason : Text}
    (h : (outcome file b).error = some reason) : Text.OneLine reason := by
  have htold := describes_outcome file b
  cases hv : Policy.validate b.content b.format with
  | ok _ =>
    rw [htold.passed_iff.mpr hv] at h
    exact nomatch h
  | error why =>
    rw [htold.reason why hv] at h
    rw [← Option.some.inj h]
    exact Policy.oneLine_of_validate_error hv

theorem exists_block_of_outcome {t : Files.Tree} {c : Config} {r : Report}
    (h : (run t c).result = .ok r) {o : Outcome} (ho : o ∈ r.outcomes) :
    ∃ file b, o = outcome file b := by
  rw [run] at h
  cases hs : (sourceFiles t c).result with
  | error f =>
    rw [hs] at h
    exact absurd h (by simp)
  | ok paths =>
    rw [hs] at h
    obtain ⟨texts, -, -, houtcomes⟩ := checkFiles_ok h
    rw [houtcomes, show Report.empty.outcomes = [] from rfl, List.nil_append] at ho
    obtain ⟨d, -, hd⟩ := List.mem_flatMap.mp ho
    obtain ⟨b, -, rfl⟩ := List.mem_map.mp hd
    exact ⟨d.file, b, rfl⟩

/-- Why a block is rejected is told in one line.  So the report on a tree, when no path that it
shows has a line feed in it, has exactly one line for every outcome, in order, and the lines of
the summary behind them, whose counts are those of the lines that begin with each mark. -/
theorem human_line_by_line :
    (∀ (content : Text) (declared : Format) (why : Rejection),
      Policy.validate content declared = .error why → Text.OneLine why.message) ∧
    ∀ (t : Files.Tree) (c : Config) (r : Report), (run t c).result = .ok r →
      0 < r.scannedFiles → (∀ o ∈ r.outcomes, Bytes.feed ∉ o.file) →
      Text.pieces '\n' r.human = r.outcomes.map Outcome.shown ++
        Report.summaryLines r.outcomes.length
          (Report.marked '✅' (r.outcomes.map Outcome.shown))
          (Report.marked '❌' (r.outcomes.map Outcome.shown)) ++ [[]] := by
  refine ⟨fun content declared why => Policy.oneLine_of_validate_error, ?_⟩
  intro t c r h hpos hfiles
  have hshown : ∀ o ∈ r.outcomes, '\n' ∉ o.shown := by
    intro o ho
    obtain ⟨file, b, hblock⟩ := exists_block_of_outcome h ho
    refine Outcome.not_mem_shown (hfiles o ho) fun reason hreason => ?_
    rw [hblock] at hreason
    exact (oneLine_of_error hreason).no_feed
  rw [Report.pieces_human hpos hshown, Report.humanLines_eq hpos]

theorem linkedTree_line_by_line :
    (∃ why, Policy.validate "[1,\n2".toList .json = .error why ∧ Text.OneLine why.message) ∧
      (run linkedTree linkedConfig).result = .ok linkedReport ∧ 0 < linkedReport.scannedFiles ∧
      (∀ o ∈ linkedReport.outcomes, Bytes.feed ∉ o.file) ∧
      Text.pieces '\n' linkedReport.human =
        ["✅ traffic-policy/a.md (block 1)".toList,
          "❌ traffic-policy/b.mdx (block 1): root must be an object".toList,
          "✅ traffic-policy/b.mdx (block 2)".toList] ++ Report.summaryLines 3 2 1 ++ [[]] := by
  obtain ⟨hreasons, hreports⟩ := human_line_by_line
  obtain ⟨why, hwhy⟩ : ∃ why, Policy.validate "[1,\n2".toList .json = .error why :=
    ⟨.unreadable "EOF while parsing a list at line 2 column 1".toList, by decide +kernel⟩
  have hpos : 0 < linkedReport.scannedFiles := by decide
  have hfiles : ∀ o ∈ linkedReport.outcomes, Bytes.feed ∉ o.file := by decide
  have hlines := hreports linkedTree linkedConfig linkedReport run_linkedTree hpos hfiles
  refine ⟨⟨why, hwhy, hreasons _ _ _ hwhy⟩, run_linkedTree, hpos, hfiles, ?_⟩
  rw [hlines]
  decide +kernel

end Scan
end PolicyLint
