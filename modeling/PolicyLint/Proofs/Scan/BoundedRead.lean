/-
Reading no more of a file than its size may be.

One byte beyond the limit is enough to see that a file is too large, and it is looked for
before the bytes are taken for text.  So a read that stops there says of every file what
reading all of it would say, also where it stops inside a character.
-/
import PolicyLint.Proofs.Bytes
import PolicyLint.Proofs.Scan.Failures

namespace PolicyLint

namespace Scan

open Files (Tree)

theorem size_leading_le (limit : Nat) (bytes : ByteArray) :
    (leading limit bytes).size ≤ limit + 1 := by
  rw [leading, ByteArray.size_extract]
  omega

/-- What is said of bytes of which all have been read. -/
theorem decode_spec (path : Bytes) (limit : Nat) (bytes : ByteArray) :
    (decode path limit bytes = .error (.tooLarge path limit) ↔ limit < bytes.size) ∧
    (decode path limit bytes = .error (.notUtf8 path) ↔
      bytes.size ≤ limit ∧ ¬bytes.IsValidUTF8) ∧
    ∀ x, decode path limit bytes = .ok x ↔ bytes.size ≤ limit ∧ x.utf8Encode = bytes := by
  rw [decode, ← ofUtf8?_eq_none_iff]
  simp only [← Text.ofUtf8?_eq_some_iff]
  by_cases hsize : limit < bytes.size
  · have hnot : ¬bytes.size ≤ limit := Nat.not_le_of_lt hsize
    simp [hsize, hnot]
  · have hle : bytes.size ≤ limit := Nat.le_of_not_lt hsize
    rw [if_neg hsize]
    cases Text.ofUtf8? bytes with
    | none => simp [hsize, hle]
    | some y => simp [hsize, hle]

/-- A read stops one byte beyond the limit, and says what reading the whole file would say:
that it is too large exactly when it is, otherwise that it is no UTF-8 exactly when it is
not, and otherwise the text that all of its bytes encode. -/
theorem readFile_whole (t : Tree) (limit : Nat) (path : Bytes) (bytes : ByteArray)
    (h : t.bytesAt? path = some bytes) (hs : bytes.size < countBound) :
    (leading limit bytes).size ≤ limit + 1 ∧
    readFile t limit path = decode path limit bytes ∧
    (readFile t limit path = .error (.tooLarge path limit) ↔ limit < bytes.size) ∧
    (readFile t limit path = .error (.notUtf8 path) ↔
      bytes.size ≤ limit ∧ ¬bytes.IsValidUTF8) ∧
    ∀ x, readFile t limit path = .ok x ↔ bytes.size ≤ limit ∧ x.utf8Encode = bytes := by
  have hread := readFile_eq_decode h hs limit
  refine ⟨size_leading_le limit bytes, hread, ?_⟩
  rw [hread]
  exact decode_spec path limit bytes

/-- Two letters in three bytes. -/
def accent : String := "n\u00e9"

/-- A tree with `accent` in one file, and with bytes that are no UTF-8 in another one. -/
def accentTree : Tree where
  items := [([Bytes.of "a.md"], .file accent.toUTF8), ([Bytes.of "b.md"], .file ⟨#[0x61, 0xFF]⟩)]
  working := []

theorem accentTree_read :
    accentTree.bytesAt? (Bytes.of "a.md") = some accent.toUTF8 ∧ accent.toUTF8.size < countBound ∧
      readFile accentTree 1 (Bytes.of "a.md") = .error (.tooLarge (Bytes.of "a.md") 1) ∧
      readFile accentTree 3 (Bytes.of "a.md") = .ok accent.toList ∧
      readFile accentTree (countBound - 1) (Bytes.of "a.md") = .ok accent.toList ∧
      readFile accentTree 1 (Bytes.of "b.md") = .error (.tooLarge (Bytes.of "b.md") 1) ∧
      readFile accentTree 2 (Bytes.of "b.md") = .error (.notUtf8 (Bytes.of "b.md")) := by
  have ha : accentTree.bytesAt? (Bytes.of "a.md") = some accent.toUTF8 := rfl
  have hb : accentTree.bytesAt? (Bytes.of "b.md") = some ⟨#[0x61, 0xFF]⟩ := rfl
  have hsize : accent.toUTF8.size < countBound := by decide
  have htext : accent.toList.utf8Encode = accent.toUTF8 := String.utf8Encode_toList
  -- The limit of one byte cuts the second letter of the first file in two.
  obtain ⟨-, -, hcut, -⟩ := readFile_whole accentTree 1 _ _ ha hsize
  obtain ⟨-, -, -, -, hfits⟩ := readFile_whole accentTree 3 _ _ ha hsize
  obtain ⟨-, -, -, -, hroomy⟩ := readFile_whole accentTree (countBound - 1) _ _ ha hsize
  obtain ⟨-, -, hlarge, -⟩ := readFile_whole accentTree 1 _ _ hb (by decide)
  obtain ⟨-, -, -, hbroken, -⟩ := readFile_whole accentTree 2 _ _ hb (by decide)
  exact ⟨ha, hsize, hcut.mpr (by decide), (hfits _).mpr ⟨by decide, htext⟩,
    (hroomy _).mpr ⟨by decide, htext⟩, hlarge.mpr (by decide), hbroken.mpr ⟨by decide, by decide⟩⟩

end Scan
end PolicyLint
