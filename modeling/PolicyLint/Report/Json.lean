/-
Reports for programs: one JSON document.

A document holds texts, so a report with a path that is none cannot be written as one.
-/
import PolicyLint.Json.Pretty
import PolicyLint.Report.Outcome

namespace PolicyLint

/-- A count as a value. -/
def Data.count (n : Nat) : Data :=
  .number ⟨false, n, 0⟩

/-- An outcome with its path as a text. -/
def Outcome.toData (o : Outcome) (file : Text) : Data :=
  .mapping
    [("file".toList, .string file),
     ("block".toList, .count o.block),
     ("line".toList, .count o.line),
     ("format".toList, .string o.format.name),
     ("error".toList, match o.error with | some e => .string e | none => .null)]

def Summary.toData (s : Summary) : Data :=
  .mapping
    [("total".toList, .count s.total),
     ("passed".toList, .count s.passed),
     ("failed".toList, .count s.failed)]

/-- Why an outcome cannot be written. -/
def Outcome.unwritable : Text := "path contains invalid UTF-8 characters".toList

/-- An outcome as it is written. -/
def Outcome.write (o : Outcome) : Except Text Data :=
  match o.file.text? with
  | some file => .ok (o.toData file)
  | none => .error unwritable

namespace Report

/-- A report with its outcomes as they are written. -/
def toData (r : Report) (blocks : List Data) : Data :=
  .mapping
    [("scanned_files".toList, .count r.scannedFiles),
     ("ok".toList, .bool r.ok),
     ("summary".toList, r.summary.toData),
     ("blocks".toList, .list blocks)]

/-- A report as a document, or why there is none. -/
def write (r : Report) : Except Text Data :=
  (r.outcomes.mapM Outcome.write).map r.toData

/-- A report as a JSON text, ended by a line feed. -/
def json (r : Report) : Except Text Text :=
  r.write.map fun document => Json.pretty document ++ ['\n']

end Report
end PolicyLint
