/-
Reports for reading: a line for every outcome, then the counts and the verdict.
-/
import PolicyLint.Report.Outcome

namespace PolicyLint

/-- The line of an outcome, without a line end. -/
def Outcome.shown (o : Outcome) : Text :=
  let block := o.file.shown ++ " (block ".toList ++ Text.numeral o.block ++ ")".toList
  match o.error with
  | none => "✅ ".toList ++ block
  | some reason => "❌ ".toList ++ block ++ ": ".toList ++ reason

namespace Report

/-- What is printed when there is no documentation file. -/
def noSources : Text := "No source files found.".toList

/-- The rule above and below the heading of the counts. -/
def banner : Text := List.replicate 42 '='

/-- The line with the counts. -/
def totals (s : Summary) : Text :=
  "Total: ".toList ++ Text.numeral s.total ++ " | Passed: ".toList ++ Text.numeral s.passed
    ++ " | Failed: ".toList ++ Text.numeral s.failed

/-- The closing line. -/
def verdict (s : Summary) : Text :=
  if s.failed > 0 then "❌ Some blocks invalid.".toList else "🎉 All valid.".toList

/-- The lines of a report. -/
def humanLines (r : Report) : List Text :=
  if r.scannedFiles = 0 then [noSources]
  else
    r.outcomes.map Outcome.shown ++
      [[], banner, "SUMMARY".toList, banner, totals r.summary, verdict r.summary]

/-- A report as plain text. -/
def human (r : Report) : Text :=
  (r.humanLines.map (· ++ ['\n'])).flatten

end Report
end PolicyLint
