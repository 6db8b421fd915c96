/-
Texts as bytes.

The bytes of a text are read as that text, and shown as it.  Whatever bytes are shown, a line
feed is seen only where they have one.
-/
import PolicyLint.Bytes

namespace PolicyLint

/-! ## Reading -/

/-- Bytes are read as the text whose encoding they are. -/
theorem Text.ofUtf8?_eq_some_iff {bytes : ByteArray} {x : Text} :
    Text.ofUtf8? bytes = some x ↔ x.utf8Encode = bytes := by
  rw [Text.ofUtf8?, Option.map_eq_some_iff, String.fromUTF8?]
  constructor
  · rintro ⟨s, hs, rfl⟩
    split at hs
    next hvalid =>
      obtain rfl := Option.some.inj hs
      rw [String.utf8Encode_toList]
      rfl
    next => exact absurd hs (by simp)
  · rintro rfl
    have hvalid : x.utf8Encode.IsValidUTF8 := ByteArray.isValidUTF8_utf8Encode
    have htext : String.fromUTF8 x.utf8Encode hvalid = String.ofList x := by
      rw [← String.toByteArray_inj, String.toByteArray_ofList]
      rfl
    exact ⟨_, dif_pos hvalid, by rw [htext, String.toList_ofList]⟩

namespace Bytes

theorem toByteArray_inj {a b : Bytes} : a.toByteArray = b.toByteArray ↔ a = b := by
  refine ⟨fun h => ?_, fun h => h ▸ rfl⟩
  have hdata := congrArg (·.data.toList) h
  simpa using hdata

theorem text?_eq_some_iff {b : Bytes} {t : Text} : b.text? = some t ↔ b = t.utf8 := by
  rw [text?, Text.ofUtf8?_eq_some_iff, eq_comm (a := b)]
  exact toByteArray_inj

theorem of_eq_utf8 (s : String) : of s = Text.utf8 s.toList := by
  rw [← toByteArray_inj]
  show s.toByteArray.data.toList.toByteArray = s.toList.utf8Encode
  rw [String.utf8Encode_toList]
  exact ByteArray.ext (by simp)

/-! ## Showing -/

theorem first?_append (c : Char) (rest : Bytes) :
    first? (String.utf8EncodeChar c ++ rest) = some c := by
  have hlength : (String.utf8EncodeChar c).length ≤ 4 := by
    rw [String.length_utf8EncodeChar]
    exact c.utf8Size_le_four
  rw [first?, List.take_append, List.take_of_length_le hlength, List.toByteArray_append]
  exact ByteArray.utf8DecodeChar?_utf8EncodeChar_append

theorem exists_of_first? {b : Bytes} {c : Char} (h : first? b = some c) :
    ∃ rest, b = String.utf8EncodeChar c ++ rest := by
  obtain ⟨l, hl⟩ := ByteArray.exists_of_utf8DecodeChar?_eq_some h
  have hfront : b.take 4 = String.utf8EncodeChar c ++ l.data.toList := by
    have hdata := congrArg (·.data.toList) hl
    simpa using hdata
  refine ⟨l.data.toList ++ b.drop 4, ?_⟩
  rw [← List.append_assoc, ← hfront, List.take_append_drop]

theorem shown.go_length (front rest : Bytes) :
    shown.go front.length (front ++ rest) = shown.go 0 rest := by
  induction front with
  | nil => rfl
  | cons b front ih => exact ih

/-- A text is shown as it is. -/
theorem shown_utf8 (t : Text) : Bytes.shown t.utf8 = t := by
  induction t with
  | nil => rfl
  | cons c t ih =>
    have hencoded : Text.utf8 (c :: t) = String.utf8EncodeChar c ++ Text.utf8 t := rfl
    have hfirst := first?_append c (Text.utf8 t)
    cases he : String.utf8EncodeChar c with
    | nil => exact absurd he String.utf8EncodeChar_ne_nil
    | cons b inner =>
      have hinner : c.utf8Size - 1 = inner.length := by
        rw [← String.length_utf8EncodeChar, he]
        rfl
      rw [he, List.cons_append] at hfirst hencoded
      rw [hencoded, shown, shown.go, hfirst]
      dsimp only
      rw [hinner, shown.go_length]
      exact congrArg (c :: ·) ih

/-- The line feed. -/
def feed : UInt8 := 0x0A

theorem shown.feed_mem {n : Nat} {b : Bytes} (h : '\n' ∈ shown.go n b) : feed ∈ b := by
  induction b generalizing n with
  | nil => cases n <;> exact absurd h List.not_mem_nil
  | cons x rest ih =>
    cases n with
    | succ n => exact List.mem_cons_of_mem x (ih h)
    | zero =>
      rw [shown.go] at h
      cases hfirst : first? (x :: rest) with
      | none =>
        rw [hfirst] at h
        rcases List.mem_cons.mp h with hmark | h
        · exact absurd hmark (by decide)
        · exact List.mem_cons_of_mem x (ih h)
      | some c =>
        rw [hfirst] at h
        rcases List.mem_cons.mp h with hc | h
        · obtain ⟨l, hl⟩ := exists_of_first? hfirst
          rw [hl, ← hc]
          exact List.mem_append_left l (by decide)
        · exact List.mem_cons_of_mem x (ih h)

theorem feed_mem_of_shown {b : Bytes} (h : '\n' ∈ b.shown) : feed ∈ b :=
  shown.feed_mem h

end Bytes
end PolicyLint
