/-
Fence lines of a Markdown document.

A line is a fence when it begins with three backticks, white space aside.  What
follows them is its info string.  Only fences whose info string declares a format
open a region; only bare fences close one.
-/
import PolicyLint.Format
import PolicyLint.Text.Blank
import PolicyLint.Text.Lowercase

namespace PolicyLint
namespace Markdown

/-- Three backticks. -/
def fence : Text := "```".toList

/-- The info string of a fence line, in lower case and without white space
around it. -/
def info (line : Text) : Option Text :=
  let body := Text.trim line
  if fence.isPrefixOf body then some (Text.lower (Text.trim (body.drop fence.length))) else none

/-- True for a bare fence. -/
def closes (line : Text) : Bool :=
  Text.trim line = fence

/-- The words in an info string that take a region out of the check. -/
def exemptions : List Text :=
  ["skip-validation", "skip_validation"].map String.toList

/-- What a line that opens a region says about it. -/
structure Opening where
  format : Format
  exempt : Bool
deriving DecidableEq, Repr

/-- The opening that a line makes, if it makes one. -/
def opening (line : Text) : Option Opening := do
  let i ← info line
  let format ← Format.ofInfo i
  some ⟨format, exemptions.any fun w => Text.mentions w i⟩

end Markdown
end PolicyLint
