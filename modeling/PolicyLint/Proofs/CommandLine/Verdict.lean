/-
What a run tells about its scan.

The verdict of a scan reaches the outside as an exit status, as counts and words in one
of two formats, and as an error line when there is no report or it cannot be written.
All of them are determined by the result of the scan and the format, so none of them can
contradict another.
-/
import PolicyLint.CommandLine.Program
import PolicyLint.Proofs.CommandLine.Arguments
import PolicyLint.Proofs.Report.Printed
import PolicyLint.Proofs.Report.ReadBack
import PolicyLint.Proofs.Scan.Outcomes

namespace PolicyLint
namespace CommandLine

/-! ## What a run leaves behind -/

/-- The line of a scan that failed. -/
def failureLine (o : Options) (f : Scan.Failure) : Text :=
  "Error: Failed to scan ".toList ++ o.root.shown ++ ": ".toList
    ++ Text.join ": ".toList (f.message :: f.causes)

/-- The result tells that the scan failed, and why.  That is one line, unless the root or what is
told of the failure has line feeds in it. -/
structure TellsFailure (o : Options) (f : Scan.Failure) (out : Result) : Prop where
  status_eq : out.status = 2
  stdout_eq : out.stdout = []
  stderr_end : Text.pieces '\n' (failureLine o f) <:+ out.stderr
  stderr_last : '\n' ∉ failureLine o f → out.stderr.getLast? = some (failureLine o f)

/-- The result tells what is in the report. -/
structure TellsReport (o : Options) (r : Report) (out : Result) : Prop where
  status_eq : out.status = if r.ok then 0 else 1
  stdout_eq : render o.output r = .ok out.stdout
  closing : o.output = .human → 0 < r.scannedFiles → '\n' :: r.closing <:+ out.stdout
  opening : o.output = .json → r.opening <+: out.stdout

/-- The result tells that there is a report that cannot be written. -/
structure TellsUnwritable (out : Result) : Prop where
  status_eq : out.status = 2
  stdout_eq : out.stdout = []
  stderr_last : out.stderr.getLast? = some "Error: path contains invalid UTF-8 characters".toList

/-- The report can be written in the format: one for reading always, one for programs when the
paths in it are texts. -/
def Writes (output : Output) (r : Report) : Prop :=
  output = .json → r.InUnicode

theorem render_ok_iff {output : Output} {r : Report} :
    (∃ text, render output r = .ok text) ↔ Writes output r := by
  cases output with
  | human => exact iff_of_true ⟨r.human, rfl⟩ fun h => nomatch h
  | json =>
    show (∃ text, r.json = .ok text) ↔ _
    rw [Writes, imp_iff_right rfl, ← Report.exists_write_iff]
    simp [Report.json, map_eq_ok_iff]

theorem render_error {output : Output} {r : Report} {why : Text}
    (h : render output r = .error why) : why = Outcome.unwritable := by
  cases output with
  | human => exact nomatch h
  | json => exact Report.write_error (map_eq_error_iff.mp h)

section Run

variable {t : Files.Tree} {environment : Option Filter} {o : Options}

theorem run_of_request {args : List Bytes} (h : request args = .scan o) :
    run t environment args = scan t environment o := by
  simp only [run, h]

theorem tellsFailure_scan {f : Scan.Failure}
    (h : (Scan.run t (.forRoot o.root)).result = .error f) :
    TellsFailure o f (scan t environment o) := by
  have hend : Text.pieces '\n' (failureLine o f) <:+ (scan t environment o).stderr := by
    have herror : errorLines (failureMessage o.root f) = Text.pieces '\n' (failureLine o f) := by
      rw [errorLines, messageLines, List.flatMap_singleton]
      rfl
    simp only [scan, h, herror]
    exact List.suffix_append _ _
  refine ⟨?_, ?_, hend, fun hfeed => ?_⟩
  · simp only [scan, h]
  · simp only [scan, h]
  · rw [Text.pieces_of_not_mem hfeed] at hend
    obtain ⟨log, hlog⟩ := hend
    rw [← hlog, List.getLast?_concat]

theorem tellsReport_scan {r : Report} (h : (Scan.run t (.forRoot o.root)).result = .ok r)
    (hw : Writes o.output r) : TellsReport o r (scan t environment o) := by
  obtain ⟨text, htext⟩ := render_ok_iff.mpr hw
  have hscan : (scan t environment o).stdout = text := by
    simp only [scan, h, htext]
  refine ⟨by simp only [scan, h, htext], by rw [hscan, htext], fun houtput hfiles => ?_,
    fun houtput => ?_⟩
  · rw [houtput] at htext
    obtain rfl : r.human = text := Except.ok.inj htext
    rw [hscan]
    exact r.endsWith_closing hfiles
  · rw [houtput] at htext
    rw [hscan]
    exact Report.startsWith_opening htext

theorem tellsUnwritable_scan {r : Report} (h : (Scan.run t (.forRoot o.root)).result = .ok r)
    (hw : ¬Writes o.output r) : TellsUnwritable (scan t environment o) := by
  cases hrender : render o.output r with
  | ok text => exact absurd (render_ok_iff.mp ⟨text, hrender⟩) hw
  | error why =>
    obtain rfl := render_error hrender
    refine ⟨by simp only [scan, h, hrender], by simp only [scan, h, hrender], ?_⟩
    simp only [scan, h, hrender]
    exact List.getLast?_concat

/-- The exit status is determined by the tree, the root and the format, and where the report can be
written in both formats, by the tree and the root. -/
theorem status_scan {environment' : Option Filter} {o' : Options} (hroot : o'.root = o.root)
    (h : o'.output = o.output ∨
      ∀ r, (Scan.run t (.forRoot o.root)).result = .ok r → r.InUnicode) :
    (scan t environment' o').status = (scan t environment o).status := by
  cases hresult : (Scan.run t (.forRoot o.root)).result with
  | error f =>
    rw [(tellsFailure_scan hresult).status_eq, (tellsFailure_scan (hroot.symm ▸ hresult)).status_eq]
  | ok r =>
    have hwrites : Writes o'.output r ↔ Writes o.output r := by
      rcases h with houtput | hunicode
      · rw [houtput]
      · exact iff_of_true (fun _ => hunicode r hresult) fun _ => hunicode r hresult
    have hresult' : (Scan.run t (.forRoot o'.root)).result = .ok r := hroot.symm ▸ hresult
    by_cases hw : Writes o.output r
    · rw [(tellsReport_scan hresult hw).status_eq,
        (tellsReport_scan hresult' (hwrites.mpr hw)).status_eq]
    · rw [(tellsUnwritable_scan hresult hw).status_eq,
        (tellsUnwritable_scan hresult' fun hw' => hw (hwrites.mp hw')).status_eq]

theorem not_startsWith_noSources {r : Report} (h : (Scan.run t (.forRoot o.root)).result = .ok r)
    (hr : r.outcomes ≠ []) : ¬ Report.noSources <+: (scan t environment o).stdout := by
  -- Only a scan without files prints that there are none, and it has no outcomes.
  have hfiles : 0 < r.scannedFiles :=
    Nat.pos_of_ne_zero fun hzero => hr (Scan.outcomes_eq_nil h hzero)
  by_cases hw : Writes o.output r
  · have htells : TellsReport o r (scan t environment o) := tellsReport_scan h hw
    cases houtput : o.output with
    | human =>
      have htext := htells.stdout_eq
      rw [houtput] at htext
      rw [← show r.human = _ from Except.ok.inj htext]
      exact Report.not_startsWith_noSources hfiles
    | json =>
      -- A report for programs begins with a brace.
      intro hstart
      obtain ⟨rest, hrest⟩ := htells.opening houtput
      obtain ⟨rest', hrest'⟩ := hstart
      rw [← hrest'] at hrest
      exact nomatch hrest
  · rw [(tellsUnwritable_scan h hw).stdout_eq]
    exact fun hstart => nomatch List.prefix_nil.mp hstart

end Run

/-- Whatever way a run tells its verdict, it is that of the scan.  There is an error, or a report
that is told completely, or one that cannot be written because it is asked for in JSON and shows a
path that is no text; counts, words and exit status agree with the outcomes in the report.  The exit
status depends on the tree and the root, and on the format only where it decides whether the report
can be written. -/
theorem run_verdict (t : Files.Tree) (environment : Option Filter) (args : List Bytes) (o : Options)
    (h : request args = .scan o) :
    (∀ r : Report, r.summary.total = r.outcomes.length ∧
      r.summary.passed = r.outcomes.countP (·.error.isNone) ∧
      r.summary.failed = r.outcomes.countP (·.error.isSome) ∧
      r.summary.total = r.summary.passed + r.summary.failed ∧
      (r.ok = true ↔ r.summary.failed = 0)) ∧
    Xor
      (∃ f, (Scan.run t (.forRoot o.root)).result = .error f ∧
        TellsFailure o f (run t environment args))
      (∃ r, (Scan.run t (.forRoot o.root)).result = .ok r ∧
        (Writes o.output r → TellsReport o r (run t environment args)) ∧
        (¬Writes o.output r → TellsUnwritable (run t environment args))) ∧
    (∀ environment' args' o', request args' = .scan o' → o'.root = o.root →
      (o'.output = o.output ∨
        ∀ r, (Scan.run t (.forRoot o.root)).result = .ok r → r.InUnicode) →
      (run t environment' args').status = (run t environment args).status) ∧
    ∀ r, (Scan.run t (.forRoot o.root)).result = .ok r → (∃ b ∈ r.outcomes, b.error ≠ none) →
      ¬ "No source files found.".toList <+: (run t environment args).stdout := by
  rw [run_of_request h]
  refine ⟨fun r => ?_, ?_, ?_, ?_⟩
  · have hcounts := r.summary_eq
    refine ⟨?_, ?_, ?_, r.total_eq, r.ok_iff_failed⟩
    · rw [hcounts]
    · rw [hcounts]
      rfl
    · rw [hcounts]
      rfl
  · -- A result is a failure or a report, so the other side has no instance.
    cases hresult : (Scan.run t (.forRoot o.root)).result with
    | error f =>
      refine .inl ⟨⟨f, rfl, tellsFailure_scan hresult⟩, ?_⟩
      intro ⟨r, hr, _⟩
      exact nomatch hr
    | ok r =>
      refine .inr ⟨⟨r, rfl, tellsReport_scan hresult, tellsUnwritable_scan hresult⟩, ?_⟩
      intro ⟨f, hf, _⟩
      exact nomatch hf
  · intro environment' args' o' h' hroot houtput
    rw [run_of_request h']
    exact status_scan hroot houtput
  · intro r hr ⟨b, hb, _⟩
    exact not_startsWith_noSources hr (List.ne_nil_of_mem hb)

/-- Options that scan `linkedTree` for a report for reading. -/
def linkedOptions : Options := ⟨Bytes.of "docs", .human, 2⟩

/-- A tree with one document, in a search directory of its root. -/
def loneTree (name : Bytes) (page : ByteArray) : Files.Tree where
  items :=
    [(["docs"].map Bytes.of, .directory),
     (["traffic-policy", "docs"].map Bytes.of, .directory),
     (name :: ["traffic-policy", "docs"].map Bytes.of, .file page)]
  working := []

/-- The options for that tree. -/
def loneOptions (output : Output) : Options := ⟨Bytes.of "docs", output, 0⟩

/-- A name that is no text. -/
def strayName : Bytes := 0xFF :: Bytes.of ".md"

def strayTree : Files.Tree :=
  loneTree strayName "```yaml\non_tcp_connect: []\n```\n".toUTF8

/-- The report on `strayTree`. -/
def strayReport : Report where
  scannedFiles := 1
  outcomes := [⟨Bytes.of "traffic-policy/" ++ strayName, 1, 1, .yaml, none⟩]

/-- Where the document of a tree is found. -/
def lonePath (name : Bytes) : Bytes :=
  Bytes.of "docs/traffic-policy/" ++ name

theorem run_loneTree {name : Bytes} {page : ByteArray} {result : Except Scan.Failure Report}
    (hfound : (Scan.search (loneTree name page) Scan.linkedConfig
      Scan.linkedConfig.resolvedSearchDirs).result = .ok [lonePath name])
    (hchecked : (Scan.checkFiles (loneTree name page) Scan.linkedConfig Report.empty
      [lonePath name]).result = result) :
    (Scan.run (loneTree name page) Scan.linkedConfig).result = result := by
  have hfiles : (Scan.sourceFiles (loneTree name page) Scan.linkedConfig).result =
      .ok [lonePath name] := by
    rw [Scan.sourceFiles, hfound, Except.map, Scan.arrange, List.mergeSort_singleton]
    rfl
  simp only [Scan.run, hfiles, hchecked]

theorem run_strayTree : (Scan.run strayTree Scan.linkedConfig).result = .ok strayReport :=
  run_loneTree (by decide +kernel) (by decide +kernel)

theorem not_writes_strayReport : ¬Writes .json strayReport := by
  intro h
  obtain ⟨file, hfile⟩ := h rfl _ List.mem_cons_self
  have hnone : (Bytes.of "traffic-policy/" ++ strayName).text? = none := by
    decide +kernel
  rw [← Bytes.text?_eq_some_iff, hnone] at hfile
  exact nomatch hfile

theorem linkedTree_verdict :
    request linkedOptions.spelled = .scan linkedOptions ∧
      TellsReport linkedOptions Scan.linkedReport
        (run Scan.linkedTree none linkedOptions.spelled) ∧
      (run Scan.linkedTree none linkedOptions.spelled).status = 1 ∧
      TellsUnwritable (run strayTree none (loneOptions .json).spelled) := by
  have hrequest : request linkedOptions.spelled = .scan linkedOptions :=
    request_spelled (by decide)
  obtain ⟨-, htold, -, -⟩ :=
    run_verdict Scan.linkedTree none linkedOptions.spelled linkedOptions hrequest
  obtain ⟨-, hstray, -, -⟩ :=
    run_verdict strayTree none (loneOptions .json).spelled _ (request_spelled (by decide))
  have hreport : TellsReport linkedOptions Scan.linkedReport
      (run Scan.linkedTree none linkedOptions.spelled) := by
    rcases htold with ⟨⟨f, hf, -⟩, -⟩ | ⟨⟨r, hr, htells, -⟩, -⟩
    · exact nomatch Scan.run_linkedTree.symm.trans hf
    · obtain rfl := Except.ok.inj (Scan.run_linkedTree.symm.trans hr)
      exact htells fun hjson => nomatch hjson
  have hunwritable : TellsUnwritable (run strayTree none (loneOptions .json).spelled) := by
    rcases hstray with ⟨⟨f, hf, -⟩, -⟩ | ⟨⟨r, hr, -, htells⟩, -⟩
    · exact nomatch run_strayTree.symm.trans hf
    · obtain rfl := Except.ok.inj (run_strayTree.symm.trans hr)
      exact htells not_writes_strayReport
  have hok : Scan.linkedReport.ok = false := by
    decide
  refine ⟨hrequest, hreport, ?_, hunwritable⟩
  rw [hreport.status_eq, hok]
  rfl

/-- A tree with one document, which cannot be decoded and has a line feed in its name. -/
def feedTree : Files.Tree :=
  loneTree (Bytes.of "a\nb.md") ⟨#[0xFF]⟩

theorem run_feedTree : (Scan.run feedTree Scan.linkedConfig).result =
    .error (.notUtf8 (lonePath (Bytes.of "a\nb.md"))) :=
  run_loneTree (by decide +kernel) (by decide +kernel)

/-- Not every run tells of a failed scan or of a report, the format can decide the status, and what
is told of a failed scan is not always one line. -/
theorem verdict_told_otherwise :
    (¬∀ (t : Files.Tree) (environment : Option Filter) (args : List Bytes) (o : Options),
      request args = .scan o →
        Xor
          (∃ f, (Scan.run t (.forRoot o.root)).result = .error f ∧
            TellsFailure o f (run t environment args))
          (∃ r, (Scan.run t (.forRoot o.root)).result = .ok r ∧
            TellsReport o r (run t environment args))) ∧
    (¬∀ (t : Files.Tree) (environment : Option Filter) (args args' : List Bytes) (o o' : Options),
      request args = .scan o → request args' = .scan o' → o'.root = o.root →
        (run t environment args').status = (run t environment args).status) ∧
    ¬∀ (t : Files.Tree) (environment : Option Filter) (args : List Bytes) (o : Options)
      (f : Scan.Failure), request args = .scan o →
        (Scan.run t (.forRoot o.root)).result = .error f →
          (run t environment args).stderr.getLast? = some (failureLine o f) := by
  have hrequest : ∀ output, request (loneOptions output).spelled = .scan (loneOptions output) :=
    fun output => request_spelled (show Bytes.of "docs" ≠ [] by decide)
  have hjson : (run strayTree none (loneOptions .json).spelled).status = 2 := by
    rw [run_of_request (hrequest .json)]
    exact (tellsUnwritable_scan (o := loneOptions .json) run_strayTree
      not_writes_strayReport).status_eq
  have hhuman : (run strayTree none (loneOptions .human).spelled).status = 0 := by
    rw [run_of_request (hrequest .human)]
    exact (tellsReport_scan (o := loneOptions .human) run_strayTree fun h => nomatch h).status_eq
  refine ⟨fun h => ?_, fun h => ?_, fun h => ?_⟩
  · rcases h strayTree none _ _ (hrequest .json) with ⟨⟨f, hf, -⟩, -⟩ | ⟨⟨r, hr, htells⟩, -⟩
    · exact nomatch run_strayTree.symm.trans hf
    · obtain rfl := Except.ok.inj (run_strayTree.symm.trans hr)
      have hstatus := htells.status_eq
      rw [hjson] at hstatus
      exact absurd hstatus (by decide)
  · have hstatus := h strayTree none _ _ _ _ (hrequest .human) (hrequest .json) rfl
    rw [hjson, hhuman] at hstatus
    exact nomatch hstatus
  · -- The line has a line feed, so it is told as two lines.
    have hlast := h feedTree none _ _ _ (hrequest .human) run_feedTree
    rw [run_of_request (hrequest .human)] at hlast
    have hfailed : TellsFailure (loneOptions .human) (.notUtf8 (lonePath (Bytes.of "a\nb.md")))
        (scan feedTree none (loneOptions .human)) := tellsFailure_scan run_feedTree
    obtain ⟨log, hlog⟩ := hfailed.stderr_end
    have hpieces : Text.pieces '\n'
        (failureLine (loneOptions .human) (.notUtf8 (lonePath (Bytes.of "a\nb.md")))) =
          ["Error: Failed to scan docs: docs/traffic-policy/a".toList,
            "b.md is not valid UTF-8".toList] := by
      decide +kernel
    rw [← hlog, hpieces, List.getLast?_append, List.getLast?_cons_cons, List.getLast?_singleton,
      Option.some_or] at hlast
    exact absurd hlast (by decide +kernel)

end CommandLine
end PolicyLint
