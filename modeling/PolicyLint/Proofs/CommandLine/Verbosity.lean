/-
What verbosity changes.

The scan does not see how loud it is to be.  That only decides how far the lines of the log
go down in detail, so a louder run tells all that a quieter one does, in the same order.
-/
import Mathlib.Data.List.Flatten
import PolicyLint.Proofs.CommandLine.Verdict

namespace PolicyLint
namespace CommandLine

/-! ## Lines of the log -/

theorem flagRank_eq (n : Nat) : flagRank n = min n 3 + 2 := by
  match n with
  | 0 => rfl
  | 1 => rfl
  | 2 => rfl
  | n + 3 =>
    show Level.trace.rank = min (n + 3) 3 + 2
    rw [Nat.min_eq_right (Nat.le_add_left 3 n)]
    rfl

theorem flagRank_mono {m n : Nat} (h : m ≤ n) : flagRank m ≤ flagRank n := by
  rw [flagRank_eq, flagRank_eq]
  omega

theorem eventLines_sublist {shows shows' : Filter} (h : ∀ e, shows e = true → shows' e = true)
    (events : List Scan.Event) :
    (eventLines shows events).Sublist (eventLines shows' events) := by
  have hevents := List.monotone_filter_right events h
  exact (hevents.map Scan.Event.line).flatMap (Text.pieces '\n')

theorem upTo_mono {m n : Nat} (h : m ≤ n) (e : Scan.Event) (he : Filter.upTo m e = true) :
    Filter.upTo n e = true := by
  rw [Filter.upTo, decide_eq_true_eq] at he ⊢
  omega

/-! ## Scans of one root -/

/-- The lines that stand below the log. -/
def closingLines (o : Options) : Except Scan.Failure Report → List Text
  | .error f => errorLines (failureMessage o.root f)
  | .ok r =>
    match render o.output r with
    | .error why => errorLines why
    | .ok _ => []

section Scan

variable {t : Files.Tree} {environment environment' : Option Filter} {o o' : Options}

theorem stderr_eq : (scan t environment o).stderr =
    eventLines (.inForce environment o.verbosity)
      (.scanning o.root :: (Scan.run t (.forRoot o.root)).events) ++
    closingLines o (Scan.run t (.forRoot o.root)).result := by
  rw [scan]
  cases (Scan.run t (.forRoot o.root)).result with
  | error f => rfl
  | ok r =>
    dsimp only
    rw [closingLines]
    cases render o.output r with
    | error why => rfl
    | ok text => exact (List.append_nil _).symm

theorem stdout_scan (hroot : o'.root = o.root) (houtput : o'.output = o.output) :
    (scan t environment' o').stdout = (scan t environment o).stdout := by
  rw [scan, scan, hroot, houtput]
  cases (Scan.run t (.forRoot o.root)).result with
  | error f => rfl
  | ok r =>
    dsimp only
    cases render o.output r <;> rfl

/-- What stands below the log is told whatever is shown in it, so a run that is left without a
report tells no less either. -/
theorem stderr_sublist (hroot : o'.root = o.root) (houtput : o'.output = o.output)
    (h : ∀ e, Filter.inForce environment o.verbosity e = true →
      Filter.inForce environment' o'.verbosity e = true) :
    (scan t environment o).stderr.Sublist (scan t environment' o').stderr := by
  have hclosing : closingLines o' = closingLines o := by
    funext result
    unfold closingLines
    rw [hroot, houtput]
  rw [stderr_eq, stderr_eq, hroot, hclosing]
  exact (eventLines_sublist h _).append (List.Sublist.refl _)

end Scan

/-- Command lines that differ only in flags for verbosity print the same and end with the same
status, whatever filter the environment sets.  If it sets none, the louder one of them tells
all that the other one does, in the same order. -/
theorem run_verbosity (t : Files.Tree) (environment environment' : Option Filter)
    (args args' : List Bytes) (o o' : Options) (h : request args = .scan o)
    (h' : request args' = .scan o') (hquiet : quiet args' = quiet args) :
    (run t environment' args').stdout = (run t environment args).stdout ∧
      (run t environment' args').status = (run t environment args).status ∧
      (loudness args ≤ loudness args' →
        (run t none args).stderr.Sublist (run t none args').stderr) := by
  obtain ⟨o₀, hscan, ho⟩ := request_quiet h
  obtain ⟨o₁, hscan', ho'⟩ := request_quiet h'
  have hsame : o₁ = o₀ := by
    rw [hquiet, hscan] at hscan'
    exact (Request.scan.inj hscan').symm
  have hroot : o'.root = o.root := by rw [ho, ho', hsame]
  have houtput : o'.output = o.output := by rw [ho, ho', hsame]
  simp only [run_of_request h, run_of_request h']
  refine ⟨stdout_scan hroot houtput, status_scan hroot (.inl houtput), fun hloud => ?_⟩
  apply stderr_sublist hroot houtput
  apply upTo_mono
  apply flagRank_mono
  rw [ho, ho', hsame]
  exact Nat.add_le_add_left hloud _

/-- The same scan, told in more detail by the second command line. -/
theorem linkedTree_louder :
    let args := ["--root", "docs", "-v"].map Bytes.of
    let args' := ["-vv", "--root", "docs"].map Bytes.of
    loudness args = 1 ∧ loudness args' = 2 ∧
      (run Scan.linkedTree (Filter.ofLevel? "off".toList) args').stdout =
        (run Scan.linkedTree none args).stdout ∧
      (run Scan.linkedTree none args).stderr.Sublist (run Scan.linkedTree none args').stderr := by
  intro args args'
  have hrequest : request args = .scan ⟨Bytes.of "docs", .human, 1⟩ := by decide
  have hrequest' : request args' = .scan ⟨Bytes.of "docs", .human, 2⟩ := by decide
  have hquiet : quiet args' = quiet args := by decide
  have hloud : loudness args ≤ loudness args' := by decide
  obtain ⟨hstdout, -, hstderr⟩ := run_verbosity Scan.linkedTree none (Filter.ofLevel? "off".toList)
    args args' _ _ hrequest hrequest' hquiet
  exact ⟨rfl, rfl, hstdout, hstderr hloud⟩

end CommandLine
end PolicyLint
