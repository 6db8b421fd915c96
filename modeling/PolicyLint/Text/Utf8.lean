/-
Texts from bytes.
-/
import PolicyLint.Text.Basic

namespace PolicyLint
namespace Text

/-- The text that the bytes encode, if they are well-formed UTF-8. -/
def ofUtf8? (bytes : ByteArray) : Option Text :=
  (String.fromUTF8? bytes).map String.toList

end Text
end PolicyLint
