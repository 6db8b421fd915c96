/-
Counts and verdict of a report.

The counts are worked out by a fold over the outcomes, the verdict by a test of each
of them.  Both are determined by how many outcomes have an error.
-/
import Mathlib.Data.List.Basic
import PolicyLint.Report.Outcome

namespace PolicyLint

/-- True when the block was rejected. -/
def Outcome.failed (o : Outcome) : Bool :=
  o.error.isSome

theorem Outcome.failed_eq (o : Outcome) : o.failed = !o.passed := by
  rw [failed, passed, Option.not_isNone]

theorem Summary.foldl_add (os : List Outcome) (s : Summary) :
    os.foldl Summary.add s =
      ⟨s.total + os.length, s.passed + os.countP Outcome.passed,
        s.failed + os.countP Outcome.failed⟩ := by
  -- The counts so far are kept general: every step of the fold changes them.
  induction os generalizing s with
  | nil => rfl
  | cons o os ih =>
    rw [List.foldl_cons, ih, Summary.add, List.countP_cons, List.countP_cons, List.length_cons,
      o.failed_eq]
    cases o.passed with
    | true =>
      rw [if_pos rfl, if_pos rfl, if_neg (by decide), Summary.mk.injEq]
      dsimp only
      omega
    | false =>
      rw [if_neg (by decide), if_neg (by decide), if_pos (by decide), Summary.mk.injEq]
      dsimp only
      omega

namespace Report

theorem summary_eq (r : Report) :
    r.summary =
      ⟨r.outcomes.length, r.outcomes.countP Outcome.passed, r.outcomes.countP Outcome.failed⟩ := by
  rw [summary, Summary.foldl_add, Nat.zero_add, Nat.zero_add, Nat.zero_add]

/-- Every block has passed or failed. -/
theorem total_eq (r : Report) : r.summary.total = r.summary.passed + r.summary.failed := by
  rw [r.summary_eq]
  show r.outcomes.length = r.outcomes.countP Outcome.passed + r.outcomes.countP Outcome.failed
  rw [List.length_eq_countP_add_countP Outcome.passed]
  congr 1
  refine List.countP_congr fun o _ => ?_
  rw [decide_eq_true_eq, o.failed_eq, Bool.not_eq_true, Bool.not_eq_true']

theorem ok_iff_failed (r : Report) : r.ok = true ↔ r.summary.failed = 0 := by
  rw [r.summary_eq, ok, List.all_eq_true]
  show _ ↔ r.outcomes.countP Outcome.failed = 0
  rw [List.countP_eq_zero]
  refine forall₂_congr fun o _ => ?_
  rw [o.failed_eq, Bool.not_eq_true', Bool.not_eq_false]

end Report
end PolicyLint
