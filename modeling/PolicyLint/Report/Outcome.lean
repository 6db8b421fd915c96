/-
Outcomes and reports.

A report lists the outcome of every block in the order in which they were
checked.  Its counts and its verdict are worked out from that list.
-/
import PolicyLint.Bytes
import PolicyLint.Format

namespace PolicyLint

/-- The outcome of checking one block. -/
structure Outcome where
  /-- The path of the document, as shown. -/
  file : Bytes
  /-- The block's place in its document. -/
  block : Nat
  /-- The line of its opening fence. -/
  line : Nat
  /-- The format that its fence declares. -/
  format : Format
  /-- Why it was rejected; nothing when it passed. -/
  error : Option Text
deriving DecidableEq, Repr

def Outcome.passed (o : Outcome) : Bool :=
  o.error.isNone

/-- How many blocks there are, and how many of them passed and failed. -/
structure Summary where
  total : Nat
  passed : Nat
  failed : Nat
deriving DecidableEq, Repr

/-- The counts with one more outcome. -/
def Summary.add (s : Summary) (o : Outcome) : Summary :=
  if o.passed then ⟨s.total + 1, s.passed + 1, s.failed⟩
  else ⟨s.total + 1, s.passed, s.failed + 1⟩

structure Report where
  /-- How many documentation files were read. -/
  scannedFiles : Nat
  outcomes : List Outcome
deriving DecidableEq, Repr

namespace Report

def empty : Report := ⟨0, []⟩

def summary (r : Report) : Summary :=
  r.outcomes.foldl Summary.add ⟨0, 0, 0⟩

/-- True when every block passed. -/
def ok (r : Report) : Bool :=
  r.outcomes.all Outcome.passed

end Report
end PolicyLint
