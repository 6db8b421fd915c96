/-
Roots that are no directory.

A root is looked at only through its search directories, and below what is no directory
there is none.  So a scan of such a root passes over every search directory, finds nothing
and tells what it tells of a tree without documentation.
-/
import PolicyLint.Proofs.CommandLine.Verdict

namespace PolicyLint

namespace Scan

variable {t : Files.Tree} {c : Config}

theorem search_of_missing {dirs : List Bytes} (h : ∀ dir ∈ dirs, t.directoryAt? dir = none) :
    search t c dirs = ⟨dirs.map .missingDirectory, .ok []⟩ := by
  induction dirs with
  | nil => rfl
  | cons dir dirs ih =>
    simp only [search, h dir List.mem_cons_self]
    rw [ih fun d hd => h d (List.mem_cons_of_mem dir hd), List.map_cons]

theorem run_of_missing (h : ∀ dir ∈ c.resolvedSearchDirs, t.directoryAt? dir = none) :
    run t c = ⟨c.resolvedSearchDirs.map .missingDirectory, .ok Report.empty⟩ := by
  have hfiles : sourceFiles t c = ⟨c.resolvedSearchDirs.map .missingDirectory, .ok []⟩ := by
    rw [sourceFiles, search_of_missing h, Except.map, arrange, List.mergeSort_nil]
    rfl
  rw [run, hfiles]
  simp only [checkFiles, List.append_nil]

/- The default search directories are relative.  The one of two names lies below the
directory of its first name. -/
theorem directoryAt?_searchDir {root : Bytes} (hne : root ≠ []) (h : t.directoryAt? root = none) :
    ∀ dir ∈ (Config.forRoot root).resolvedSearchDirs, t.directoryAt? dir = none := by
  have hjoin : ∀ base n, base ≠ [] → Path.IsName n → t.directoryAt? base = none →
      t.directoryAt? (Path.join base n) = none :=
    fun _ _ hbase hn hmissing => Files.Tree.directoryAt?_join_eq_none hn hbase hmissing
  have hname : Path.IsName (Bytes.of "snippets") := by decide
  have hsnippets : Path.join root (Bytes.of "snippets/traffic-policy") =
      Path.join (Path.join root (Bytes.of "snippets")) (Bytes.of "traffic-policy") :=
    (Path.join_join hname rfl).symm
  intro dir hdir
  simp only [Config.resolvedSearchDirs, Config.forRoot, Config.defaultSearchDirs, List.map_cons,
    List.map_nil, List.mem_cons, List.not_mem_nil, or_false] at hdir
  rcases hdir with hdir | hdir | hdir
  · rw [hdir]
    exact hjoin root _ hne (by decide) h
  · rw [hdir, hsnippets]
    exact hjoin _ _ (Path.join_ne_nil hne) (by decide) (hjoin root _ hne hname h)
  · rw [hdir]
    exact hjoin root _ hne (by decide) h

end Scan

namespace CommandLine

/-- The result tells of an error and of nothing else. -/
structure Refuses (out : Result) : Prop where
  status_eq : out.status = 2
  stdout_eq : out.stdout = []
  stderr_ne : out.stderr ≠ []

/-- A report without outcomes can be written in every format. -/
theorem render_empty (output : Output) : ∃ text, render output Report.empty = .ok text :=
  render_ok_iff.mpr fun _ _ ho => absurd ho List.not_mem_nil

/-- A root that is no directory passes: the run ends with the status of success, prints an
empty report in the format asked for, and tells no error, only which search directories are
missing, as far as the log goes down in detail.  The empty root alone is refused. -/
theorem run_missing_root (t : Files.Tree) (environment : Option Filter) (args : List Bytes)
    (o : Options) (h : request args = .scan o) (hroot : t.directoryAt? o.root = none) :
    (∃ text, render o.output Report.empty = .ok text ∧
      run t environment args =
        ⟨0, text, eventLines (.inForce environment o.verbosity)
          (.scanning o.root ::
            (Scan.Config.forRoot o.root).resolvedSearchDirs.map .missingDirectory)⟩) ∧
      ∀ rest, Refuses (run t environment (Bytes.of "--root=" :: rest)) := by
  constructor
  · obtain ⟨text, htext⟩ := render_empty o.output
    refine ⟨text, htext, ?_⟩
    rw [run_of_request h, scan, Scan.run_of_missing
      (Scan.directoryAt?_searchDir (root_ne_nil_of_request h) hroot)]
    dsimp only
    rw [htext]
    rfl
  · intro rest
    have hrequest : request (Bytes.of "--root=" :: rest) = .misuse (.missingValue .root) := rfl
    simp only [run, hrequest]
    exact ⟨rfl, rfl, List.cons_ne_nil _ _⟩

/-- A root that leads nowhere, and one that is a file, in a tree with documentation. -/
theorem linkedTree_missing_root :
    Scan.linkedTree.directoryAt? (Bytes.of "nope") = none ∧
      Scan.linkedTree.directoryAt? (Bytes.of "docs/shared.md") = none ∧
      run Scan.linkedTree none (Options.spelled ⟨Bytes.of "nope", .human, 0⟩) =
        ⟨0, "No source files found.\n".toList, []⟩ ∧
      ∃ text, Report.empty.json = .ok text ∧
        run Scan.linkedTree none (Options.spelled ⟨Bytes.of "docs/shared.md", .json, 1⟩) =
          ⟨0, text, ["INFO scanning documentation root=docs/shared.md".toList]⟩ := by
  have hnope : Scan.linkedTree.directoryAt? (Bytes.of "nope") = none := by decide
  have hfile : Scan.linkedTree.directoryAt? (Bytes.of "docs/shared.md") = none := by decide
  refine ⟨hnope, hfile, ?_, ?_⟩
  · obtain ⟨⟨text, htext, hrun⟩, -⟩ := run_missing_root Scan.linkedTree none _
      ⟨Bytes.of "nope", .human, 0⟩ (request_spelled (by decide)) hnope
    obtain rfl : Report.empty.human = text := Except.ok.inj htext
    rw [hrun]
    decide +kernel
  · obtain ⟨⟨text, htext, hrun⟩, -⟩ := run_missing_root Scan.linkedTree none _
      ⟨Bytes.of "docs/shared.md", .json, 1⟩ (request_spelled (by decide)) hfile
    refine ⟨text, htext, ?_⟩
    rw [hrun, Result.mk.injEq]
    exact ⟨rfl, rfl, by decide +kernel⟩

/-- Not every run of a root that is no directory is refused: one of a root that leads nowhere
ends with the status of success. -/
theorem missing_root_not_refused :
    ¬ ∀ (t : Files.Tree) (environment : Option Filter) (args : List Bytes) (o : Options),
      request args = .scan o → t.directoryAt? o.root = none → Refuses (run t environment args) := by
  intro h
  have hrefuses := h Scan.linkedTree none (["--root", "nope"].map Bytes.of)
    ⟨Bytes.of "nope", .human, 0⟩ (by decide) (by decide)
  have hstatus : (run Scan.linkedTree none (["--root", "nope"].map Bytes.of)).status = 0 := by
    decide +kernel
  rw [hrefuses.status_eq] at hstatus
  exact nomatch hstatus

end CommandLine
end PolicyLint
