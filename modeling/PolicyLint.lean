import PolicyLint.CommandLine.Program
import PolicyLint.Main
import PolicyLint.Proofs.Markdown.RegionReading
import PolicyLint.Proofs.Path.Components
import PolicyLint.Proofs.Path.Order
import PolicyLint.Proofs.Path.Relative
import PolicyLint.Proofs.Files.Resolve
import PolicyLint.Proofs.Files.Walk
import PolicyLint.Proofs.Scan.Discovery
import PolicyLint.Proofs.Scan.Outcomes
import PolicyLint.Proofs.Files.Put
import PolicyLint.Proofs.Json.Document
import PolicyLint.Proofs.Policy.CloudEnvelope
import PolicyLint.Proofs.Policy.DeclaredFormat
import PolicyLint.Proofs.Policy.Candidates
import PolicyLint.Proofs.Json.Numeral
import PolicyLint.Proofs.Json.Pretty
import PolicyLint.Proofs.Report.Summary
import PolicyLint.Proofs.Report.ReadBack
import PolicyLint.Proofs.CommandLine.Verdict
import PolicyLint.Proofs.Text.Line
import PolicyLint.Proofs.Markdown.Appended
import PolicyLint.Proofs.Markdown.RoundTrip
import PolicyLint.Proofs.Scan.Failures
import PolicyLint.Proofs.CommandLine.Verbosity
import PolicyLint.Proofs.CommandLine.MissingRoot
import PolicyLint.Proofs.Text.Edited
import PolicyLint.Proofs.Markdown.Idle
import PolicyLint.Proofs.Markdown.Exempted
import PolicyLint.Proofs.Markdown.Notices
import PolicyLint.Proofs.Markdown.Calls
import PolicyLint.Proofs.Scan.Events
import PolicyLint.Proofs.Path.Spelling
import PolicyLint.Proofs.Files.Spelling
import PolicyLint.Proofs.Scan.SearchOrder
import PolicyLint.Proofs.Scan.Labels
import PolicyLint.Proofs.Scan.BoundedRead
import PolicyLint.Proofs.Json.Spacing
import PolicyLint.Proofs.Json.Spacing.Document
import PolicyLint.Proofs.Policy.Indentation
import PolicyLint.Proofs.Policy.Resolution
import PolicyLint.Proofs.Policy.Acceptance
import PolicyLint.Proofs.Policy.Hollow
import PolicyLint.Proofs.Yaml.Document
import PolicyLint.Proofs.Policy.Emptiness
import PolicyLint.Proofs.Markdown.Mentions
import PolicyLint.Proofs.Markdown.Spelling
import PolicyLint.Proofs.Policy.Reasons
import PolicyLint.Proofs.Report.HumanLines
