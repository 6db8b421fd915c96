/-
Why a text is not a YAML document, and where.

A mark is a place in the text; a fault is a cause at a mark.  The causes are
listed in the order of the stages that find them: tokens, nodes, then the values
of the nodes.
-/
import PolicyLint.Text.Basic

namespace PolicyLint
namespace Yaml

/-- A place in a text: characters before it, lines before it counted from one,
and characters before it on its line. -/
structure Mark where
  index : Nat
  line : Nat
  column : Nat
deriving DecidableEq, Repr

/-- The place before the first character. -/
def Mark.start : Mark := ⟨0, 1, 0⟩

/-- The characters that no plain scalar may begin with and that begin nothing
else. -/
inductive Reserved where
  | percent
  | atSign
  | backtick
deriving DecidableEq, Repr

namespace Reserved

def ofChar? (c : Char) : Option Reserved :=
  if c = '%' then some percent
  else if c = '@' then some atSign
  else if c = '\x60' then some backtick
  else none

def text : Reserved → String
  | percent => "%"
  | atSign => "@"
  | backtick => "`"

end Reserved

inductive Cause where
  -- indentation and simple keys
  | invalidIndentation
  | tabInIndentation
  | keyExpected
  | keyWithoutColon
  | unexpectedCharacter (c : Reserved)
  | commentNotSeparated
  | contentAfterDocumentEnd
  -- directives
  | directiveWithoutName
  | directiveNameCharacter
  | directiveTrailing
  | versionMissing
  | versionTooLong
  | versionWithoutPoint
  | tagDirectiveHandle
  | tagDirectiveTrailing
  | tagLeadInvalid
  -- tags, anchors and aliases
  | tagWithoutMark
  | tagUnclosed
  | tagEmpty
  | tagTrailing
  | escapeInvalid
  | escapeLeadingByte
  | escapeTrailingByte
  | escapeCodepoint
  | anchorEmpty
  | anchorIndentation
  -- collections
  | flowTooDeep
  | entryInFlow
  | entryNotAllowed
  | entryTab
  | explicitKeyNotAllowed
  | explicitKeySpace
  | explicitKeyTab
  | valueNotAllowed
  | valueTab
  | valueBeforeFlow
  | valueOnOtherLine
  -- scalars
  | blockZeroIndent
  | blockHeaderTrailing
  | blockStartsWithTab
  | blockLineIndent
  | flowIndentation
  | plainDashFlow
  | plainTab
  | plainEmpty
  | quotedDocumentIndicator
  | quotedUnclosed
  | quotedIndentation
  | quotedTabIndent
  | quotedEscapeUnknown
  | quotedEscapeDigits
  | quotedEscapeCode
  | quotedTrailing
  -- nodes
  | documentStartExpected
  | duplicateVersion
  | directiveWithoutEnd
  | unknownAnchor
  | undeclaredHandle
  | nodeExpected
  | blockMappingKey
  | blockSequenceEntry
  | flowMappingSeparator
  | flowSequenceSeparator
  | openAnchor (id : Nat)
  | severalDocuments
  | aliasesPerAnchor (aliases anchors : Nat)
  -- values
  | nullKey
  | collectionKey
  | taggedScalar
  | binaryBase64
  | binaryUtf8
  | mergeValue
deriving DecidableEq, Repr

namespace Cause

def message : Cause → String
  | invalidIndentation => "invalid indentation"
  | tabInIndentation => "tabs disallowed within this context (block indentation)"
  | keyExpected => "simple key expected"
  | keyWithoutColon => "simple key expect ':'"
  | unexpectedCharacter c => "unexpected character: `" ++ c.text ++ "'"
  | commentNotSeparated => "comments must be separated from other tokens by whitespace"
  | contentAfterDocumentEnd => "invalid content after document end marker"
  | directiveWithoutName =>
    "while scanning a directive, could not find expected directive name"
  | directiveNameCharacter =>
    "while scanning a directive, found unexpected non-alphabetical character"
  | directiveTrailing =>
    "while scanning a directive, did not find expected comment or line break"
  | versionMissing =>
    "while scanning a YAML directive, did not find expected version number"
  | versionTooLong => "while scanning a YAML directive, found extremely long version number"
  | versionWithoutPoint =>
    "while scanning a YAML directive, did not find expected digit or '.' character"
  | tagDirectiveHandle => "while parsing a tag directive, did not find expected '!'"
  | tagDirectiveTrailing =>
    "while scanning TAG, did not find expected whitespace or line break"
  | tagLeadInvalid => "invalid global tag character"
  | tagWithoutMark => "while scanning a tag, did not find expected '!'"
  | tagUnclosed => "while scanning a verbatim tag, did not find the expected '>'"
  | tagEmpty => "while parsing a tag, did not find expected tag URI"
  | tagTrailing => "while scanning a tag, did not find expected whitespace or line break"
  | escapeInvalid => "while parsing a tag, found an invalid escape sequence"
  | escapeLeadingByte => "while parsing a tag, found an incorrect leading UTF-8 byte"
  | escapeTrailingByte => "while parsing a tag, found an incorrect trailing UTF-8 byte"
  | escapeCodepoint => "while parsing a tag, found an invalid UTF-8 codepoint"
  | anchorEmpty =>
    "while scanning an anchor or alias, did not find expected alphabetic or numeric character"
  | anchorIndentation => "invalid indentation for anchor"
  | flowTooDeep => "recursion limit exceeded"
  | entryInFlow => "\"-\" is only valid inside a block"
  | entryNotAllowed => "block sequence entries are not allowed in this context"
  | entryTab => "'-' must be followed by a valid YAML whitespace"
  | explicitKeyNotAllowed => "mapping keys are not allowed in this context"
  | explicitKeySpace => "expected whitespace"
  | explicitKeyTab => "tabs disallowed in this context"
  | valueNotAllowed => "mapping values are not allowed in this context"
  | valueTab => "':' must be followed by a valid YAML whitespace"
  | valueBeforeFlow => "':' may not precede any of `[\x7b` in flow mapping"
  | valueOnOtherLine => "illegal placement of ':' indicator"
  | blockZeroIndent =>
    "while scanning a block scalar, found an indentation indicator equal to 0"
  | blockHeaderTrailing =>
    "while scanning a block scalar, did not find expected comment or line break"
  | blockStartsWithTab => "a block scalar content cannot start with a tab"
  | blockLineIndent => "wrongly indented line in block scalar"
  | flowIndentation => "invalid indentation in flow construct"
  | plainDashFlow => "plain scalar cannot start with '-' followed by ,[]\x7b\x7d"
  | plainTab => "while scanning a plain scalar, found a tab"
  | plainEmpty => "unexpected end of plain scalar"
  | quotedDocumentIndicator =>
    "while scanning a quoted scalar, found unexpected document indicator"
  | quotedUnclosed => "while scanning a quoted scalar, found unexpected end of stream"
  | quotedIndentation => "invalid indentation in quoted scalar"
  | quotedTabIndent => "tab cannot be used as indentation"
  | quotedEscapeUnknown => "while parsing a quoted scalar, found unknown escape character"
  | quotedEscapeDigits =>
    "while parsing a quoted scalar, did not find expected hexadecimal number"
  | quotedEscapeCode =>
    "while parsing a quoted scalar, found invalid Unicode character escape code"
  | quotedTrailing => "invalid trailing content after double-quoted scalar"
  | documentStartExpected => "did not find expected <document start>"
  | duplicateVersion => "duplicate version directive"
  | directiveWithoutEnd => "missing explicit document end marker before directive"
  | unknownAnchor => "while parsing node, found unknown anchor"
  | undeclaredHandle => "the handle wasn't declared"
  | nodeExpected => "while parsing a node, did not find expected node content"
  | blockMappingKey => "while parsing a block mapping, did not find expected key"
  | blockSequenceEntry =>
    "while parsing a block collection, did not find expected '-' indicator"
  | flowMappingSeparator =>
    "while parsing a flow mapping, did not find expected ',' or '\x7d'"
  | flowSequenceSeparator => "while parsing a flow sequence, expected ',' or ']'"
  | openAnchor id => "alias references unknown anchor id " ++ String.ofList (Text.numeral id)
  | severalDocuments =>
    "multiple YAML documents detected; use from_multiple or from_multiple_with_options"
  | aliasesPerAnchor aliases anchors =>
    "YAML budget breached: AliasAnchorRatio \x7b aliases: "
      ++ String.ofList (Text.numeral aliases) ++ ", anchors: "
      ++ String.ofList (Text.numeral anchors) ++ " \x7d"
  | nullKey => "cannot deserialize null into string; use Option<String>"
  | collectionKey => "unexpected event: expected string scalar"
  | taggedScalar => "cannot deserialize scalar tagged into string"
  | binaryBase64 => "invalid !!binary base64"
  | binaryUtf8 => "!!binary scalar is not valid UTF-8"
  | mergeValue => "YAML merge value must be mapping or sequence of mappings"

end Cause

structure Fault where
  cause : Cause
  mark : Mark
deriving DecidableEq, Repr

namespace Fault

/-- The cause with its place, line and column both counted from one. -/
def message (f : Fault) : Text :=
  f.cause.message.toList ++ " at line ".toList ++ Text.numeral f.mark.line
    ++ ", column ".toList ++ Text.numeral (f.mark.column + 1)

end Fault

/-- Stop with a cause at a mark. -/
def fail (cause : Cause) (mark : Mark) : Except Fault α :=
  .error ⟨cause, mark⟩

end Yaml
end PolicyLint
