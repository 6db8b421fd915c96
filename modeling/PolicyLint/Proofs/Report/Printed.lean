/-
What the texts of a report begin and end with.

Both formats tell the counts and the verdict in words of their own.  The words are
written out here, with the outcomes counted one by one, and are found again at the end
of the text for reading and at the beginning of the text for programs.
-/
import PolicyLint.Proofs.Except
import PolicyLint.Proofs.Json.Pretty
import PolicyLint.Proofs.Report.Summary
import PolicyLint.Report.Human
import PolicyLint.Report.Json

namespace PolicyLint
namespace Report

/-- The line with the counts and the closing line, both with their line ends. -/
def closing (r : Report) : Text :=
  "Total: ".toList ++ Text.numeral r.outcomes.length
    ++ " | Passed: ".toList ++ Text.numeral (r.outcomes.countP Outcome.passed)
    ++ " | Failed: ".toList ++ Text.numeral (r.outcomes.countP Outcome.failed) ++ ['\n']
    ++ (if r.ok then "🎉 All valid.".toList else "❌ Some blocks invalid.".toList) ++ ['\n']

/-- The members in front of the blocks, as they are written. -/
def opening (r : Report) : Text :=
  "\x7b\n  \"scanned_files\": ".toList ++ Text.numeral r.scannedFiles
    ++ ",\n  \"ok\": ".toList ++ (if r.ok then "true".toList else "false".toList)
    ++ ",\n  \"summary\": \x7b\n    \"total\": ".toList ++ Text.numeral r.outcomes.length
    ++ ",\n    \"passed\": ".toList ++ Text.numeral (r.outcomes.countP Outcome.passed)
    ++ ",\n    \"failed\": ".toList ++ Text.numeral (r.outcomes.countP Outcome.failed)
    ++ "\n  \x7d,\n  \"blocks\": ".toList

theorem verdict_eq (r : Report) :
    verdict r.summary = if r.ok then "🎉 All valid.".toList else "❌ Some blocks invalid.".toList := by
  by_cases hok : r.ok = true
  · have hzero : ¬ r.summary.failed > 0 := Nat.not_lt.mpr (Nat.le_of_eq (r.ok_iff_failed.mp hok))
    rw [verdict, if_pos hok, if_neg hzero]
  · have hpos : r.summary.failed > 0 := Nat.pos_of_ne_zero fun h => hok (r.ok_iff_failed.mpr h)
    rw [verdict, if_neg hok, if_pos hpos]

theorem humanLines_of_pos {r : Report} (h : 0 < r.scannedFiles) :
    r.humanLines = r.outcomes.map Outcome.shown ++
      [[], banner, "SUMMARY".toList, banner, totals r.summary, verdict r.summary] := by
  rw [humanLines, if_neg (Nat.ne_of_gt h)]

theorem endsWith_closing (r : Report) (h : 0 < r.scannedFiles) : '\n' :: r.closing <:+ r.human := by
  have hclosing : r.closing = totals r.summary ++ ['\n'] ++ (verdict r.summary ++ ['\n']) := by
    rw [verdict_eq, r.summary_eq]
    unfold closing totals
    simp only [List.append_assoc]
  refine ⟨((r.outcomes.map Outcome.shown ++ [[], banner, "SUMMARY".toList]).map
    (· ++ ['\n'])).flatten ++ banner, ?_⟩
  rw [human, humanLines_of_pos h, hclosing]
  simp only [List.map_append, List.flatten_append, List.map_cons, List.map_nil, List.flatten_cons,
    List.flatten_nil, List.append_assoc, List.append_nil, List.cons_append, List.nil_append]

/-- A line end, a key and a colon, as they stand in front of a value. -/
def lead (depth : Nat) (key : Text) : Text :=
  Json.Pretty.newline depth ++ (Json.Quoted.write key ++ ": ".toList)

theorem startsWith_opening {r : Report} {text : Text} (h : r.json = .ok text) :
    r.opening <+: text := by
  obtain ⟨document, hwrite, htext⟩ := map_eq_ok_iff.mp h
  obtain ⟨blocks, -, hdocument⟩ := map_eq_ok_iff.mp hwrite
  -- Every literal is cut where the writer puts a line end, a key or a brace.
  have hfiles : "\x7b\n  \"scanned_files\": ".toList = '\x7b' :: lead 1 "scanned_files".toList := by
    decide
  have hok : ",\n  \"ok\": ".toList = ',' :: lead 1 "ok".toList := by
    decide
  have htotal : ",\n  \"summary\": \x7b\n    \"total\": ".toList =
      ',' :: (lead 1 "summary".toList ++ '\x7b' :: lead 2 "total".toList) := by
    decide
  have hpassed : ",\n    \"passed\": ".toList = ',' :: lead 2 "passed".toList := by
    decide
  have hfailed : ",\n    \"failed\": ".toList = ',' :: lead 2 "failed".toList := by
    decide
  have hblocks : "\n  \x7d,\n  \"blocks\": ".toList =
      Json.Pretty.newline 1 ++ '\x7d' :: ',' :: lead 1 "blocks".toList := by
    decide
  refine ⟨Json.Pretty.value 1 (.list blocks) ++ "\n\x7d\n".toList, ?_⟩
  rw [← htext, ← hdocument, Json.pretty, toData, r.summary_eq, Summary.toData]
  unfold opening
  rw [hfiles, hok, htotal, hpassed, hfailed, hblocks]
  have hend : "\n\x7d\n".toList = Json.Pretty.newline 0 ++ ['\x7d', '\n'] := by
    decide
  rw [hend]
  simp only [Json.Pretty.value, Json.Pretty.members, Data.count, Json.Pretty.number_natural,
    Json.Pretty.value_bool, lead, List.append_assoc, List.cons_append, List.nil_append, Nat.zero_add,
    Nat.reduceAdd]

theorem shown_start (o : Outcome) : ∃ c, o.shown.head? = some c ∧ c ≠ 'N' := by
  rw [Outcome.shown]
  cases o.error with
  | none => exact ⟨'✅', rfl, by decide⟩
  | some reason => exact ⟨'❌', rfl, by decide⟩

theorem not_startsWith_noSources {r : Report} (h : 0 < r.scannedFiles) : ¬ noSources <+: r.human := by
  -- The first line is empty or begins with a mark, never with a letter.
  obtain ⟨c, hstart, hc⟩ : ∃ c, r.human.head? = some c ∧ c ≠ 'N' := by
    rw [human, humanLines_of_pos h]
    cases r.outcomes with
    | nil => exact ⟨'\n', rfl, by decide⟩
    | cons o os =>
      obtain ⟨c, hshown, hc⟩ := shown_start o
      refine ⟨c, ?_, hc⟩
      rw [List.map_cons, List.cons_append, List.map_cons, List.flatten_cons, List.append_assoc,
        List.head?_append, hshown, Option.some_or]
  intro ⟨rest, hrest⟩
  rw [← hrest] at hstart
  exact hc (Option.some.inj hstart).symm

end Report
end PolicyLint
