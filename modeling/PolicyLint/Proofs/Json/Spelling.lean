/-
Strings written without unicode escapes.

A short escape stands for one of eight characters, so every other character of a string
stands for itself.  A run of such characters in the string is therefore the same run in
the literal that it is read from.
-/
import PolicyLint.Proofs.Json.Source

namespace PolicyLint
namespace Json

/-- A backslash and a `u` stand next to each other. -/
def HasUnicodeEscape (t : Text) : Prop :=
  ['\\', 'u'] <:+: t

instance (t : Text) : Decidable (HasUnicodeEscape t) :=
  decidable_of_iff (Text.mentions ['\\', 'u'] t = true) Text.mentions_iff

theorem not_hasUnicodeEscape_of_suffix {t u : Text} (h : ¬HasUnicodeEscape t) (hu : u <:+ t) :
    ¬HasUnicodeEscape u :=
  fun hescape => h (hescape.trans hu.isInfix)

namespace Quoted

/-- The short escapes, each a letter and the character that it stands for. -/
def shortEscapes : List (Char × Char) :=
  [('"', '"'), ('\\', '\\'), ('/', '/'), ('b', '\x08'), ('f', '\x0c'), ('n', '\n'), ('r', '\r'),
   ('t', '\t')]

/-- No short escape stands for the character. -/
def IsLiteral (c : Char) : Prop :=
  ∀ p ∈ shortEscapes, p.2 ≠ c

instance (c : Char) : Decidable (IsLiteral c) :=
  inferInstanceAs (Decidable (∀ p ∈ shortEscapes, p.2 ≠ c))

/-- What stands between the quotes of a literal, without unicode escapes, and the string
that it stands for. -/
inductive Written : (source s : Text) → Prop
  | nil : Written [] []
  | plain {c : Char} {source s : Text} (hbackslash : c ≠ '\\') (h : Written source s) :
      Written (c :: source) (c :: s)
  | short {e c : Char} {source s : Text} (he : (e, c) ∈ shortEscapes) (h : Written source s) :
      Written ('\\' :: e :: source) (c :: s)

/-! ## Literals that are read -/

theorem escaped_ok {t rest : Text} {c : Char} (h : escaped t = .ok (c, rest)) :
    (∃ e, (e, c) ∈ shortEscapes ∧ t = e :: rest) ∨ ∃ more, t = 'u' :: more := by
  rw [escaped.eq_def] at h
  split at h
  next => exact absurd h failAt_ne_ok
  next => cases h; exact .inl ⟨'"', by decide, rfl⟩
  next => cases h; exact .inl ⟨'\\', by decide, rfl⟩
  next => cases h; exact .inl ⟨'/', by decide, rfl⟩
  next => cases h; exact .inl ⟨'b', by decide, rfl⟩
  next => cases h; exact .inl ⟨'f', by decide, rfl⟩
  next => cases h; exact .inl ⟨'n', by decide, rfl⟩
  next => cases h; exact .inl ⟨'r', by decide, rfl⟩
  next => cases h; exact .inl ⟨'t', by decide, rfl⟩
  next more => exact .inr ⟨more, rfl⟩
  next => exact absurd h failAt_ne_ok

theorem collect_written {fuel done t s rest : Text} (h : collect done fuel t = .ok (s, rest))
    (ht : ¬HasUnicodeEscape t) :
    ∃ source s', Written source s' ∧ s = done.reverse ++ s' ∧ t = source ++ '"' :: rest := by
  induction fuel generalizing done t with
  | nil => cases t <;> exact absurd h failAt_ne_ok
  | cons f fuel ih =>
    cases t with
    | nil => exact absurd h failAt_ne_ok
    | cons c t =>
      rw [collect] at h
      split at h
      next hquote =>
        obtain ⟨rfl, rfl⟩ := Prod.mk.inj (Except.ok.inj h)
        exact ⟨[], [], .nil, (List.append_nil _).symm, by rw [hquote, List.nil_append]⟩
      next =>
        split at h
        next hbackslash =>
          subst hbackslash
          cases hescaped : escaped t with
          | error failure =>
            rw [hescaped] at h
            exact absurd h (by simp)
          | ok p =>
            obtain ⟨e, more⟩ := p
            rw [hescaped] at h
            rcases escaped_ok hescaped with ⟨l, hl, rfl⟩ | ⟨after, rfl⟩
            · have hmore : ¬HasUnicodeEscape more :=
                not_hasUnicodeEscape_of_suffix ht ⟨['\\', l], rfl⟩
              obtain ⟨source, s', hw, hs, rfl⟩ := ih h hmore
              refine ⟨'\\' :: l :: source, e :: s', .short hl hw, ?_, rfl⟩
              rw [hs, List.reverse_cons, List.append_assoc, List.singleton_append]
            · exact absurd ⟨[], after, rfl⟩ ht
        next hbackslash =>
          split at h
          next => exact absurd h failAt_ne_ok
          next =>
            obtain ⟨source, s', hw, hs, rfl⟩ :=
              ih h (not_hasUnicodeEscape_of_suffix ht (List.suffix_cons c t))
            refine ⟨c :: source, c :: s', .plain hbackslash hw, ?_, rfl⟩
            rw [hs, List.reverse_cons, List.append_assoc, List.singleton_append]

/-- A literal without unicode escapes is written with short escapes alone. -/
theorem read_written {t s rest : Text} (h : read t = .ok (s, rest)) (ht : ¬HasUnicodeEscape t) :
    ∃ source, Written source s ∧ t = source ++ '"' :: rest := by
  obtain ⟨source, s', hw, hs, ht⟩ := collect_written h ht
  rw [List.reverse_nil, List.nil_append] at hs
  exact ⟨source, hs ▸ hw, ht⟩

/-! ## Runs of literal characters -/

theorem Written.of_literal {w s source : Text} (hw : ∀ c ∈ w, IsLiteral c)
    (h : Written source (w ++ s)) : ∃ source', source = w ++ source' ∧ Written source' s := by
  induction w generalizing source with
  | nil => exact ⟨source, rfl, h⟩
  | cons c w ih =>
    have hrest : ∀ d ∈ w, IsLiteral d := fun d hd => hw d (List.mem_cons_of_mem c hd)
    cases h with
    | plain hbackslash h =>
      obtain ⟨source', rfl, h'⟩ := ih hrest h
      exact ⟨source', rfl, h'⟩
    | short he _ => exact absurd rfl (hw c List.mem_cons_self _ he)

/-- A run of literal characters in the string is the same run in its source. -/
theorem Written.infix_source {w s source : Text} (hw : ∀ c ∈ w, IsLiteral c)
    (h : Written source s) (hin : w <:+: s) : w <:+: source := by
  induction h with
  | nil => exact hin
  | @plain c source s hbackslash h ih =>
    rcases List.infix_cons_iff.mp hin with ⟨after, hprefix⟩ | hin
    · have hall : Written (c :: source) (w ++ after) := hprefix ▸ .plain hbackslash h
      obtain ⟨source', hsource, -⟩ := hall.of_literal hw
      exact ⟨[], source', hsource.symm⟩
    · exact (ih hin).trans (List.suffix_cons c source).isInfix
  | @short e c source s he h ih =>
    rcases List.infix_cons_iff.mp hin with ⟨after, hprefix⟩ | hin
    · have hall : Written ('\\' :: e :: source) (w ++ after) := hprefix ▸ .short he h
      obtain ⟨source', hsource, -⟩ := hall.of_literal hw
      exact ⟨[], source', hsource.symm⟩
    · exact (ih hin).trans ⟨['\\', e], [], List.append_nil _⟩

-- The string may have a backslash before a `u`, but then the source has two of them.
theorem Written.not_hasUnicodeEscape {s source : Text} (h : Written source s)
    (hsource : ¬HasUnicodeEscape source) : ¬HasUnicodeEscape s := by
  induction h with
  | nil => exact hsource
  | @plain c source s hbackslash h ih =>
    intro hin
    rcases List.infix_cons_iff.mp hin with ⟨after, hprefix⟩ | hin
    · exact hbackslash (List.cons.inj hprefix).1.symm
    · exact ih (not_hasUnicodeEscape_of_suffix hsource (List.suffix_cons c source)) hin
  | @short e c source s he h ih =>
    intro hin
    rcases List.infix_cons_iff.mp hin with ⟨after, hprefix⟩ | hin
    · obtain ⟨hc, hs⟩ := List.cons.inj hprefix
      have hbackslash : ∀ p ∈ shortEscapes, p.2 = '\\' → p.1 = '\\' := by decide
      have hletter : e = '\\' := hbackslash (e, c) he hc.symm
      have hu : IsLiteral 'u' := by decide
      obtain ⟨source', rfl, -⟩ := Written.of_literal (List.forall_mem_singleton.mpr hu) (hs ▸ h)
      rw [hletter] at hsource
      exact hsource ⟨['\\'], source', rfl⟩
    · exact ih (not_hasUnicodeEscape_of_suffix hsource ⟨['\\', e], rfl⟩) hin

end Quoted

/-! ## Documents -/

section Documents

variable {t s w : Text} {v : Data}

/-- The strings of a document without unicode escapes have none either. -/
theorem not_hasUnicodeEscape_of_spells (ht : ¬HasUnicodeEscape t) (hdoc : document t = .ok v)
    (hs : v.Spells s) : ¬HasUnicodeEscape s := by
  obtain ⟨u, rest, hu, hread⟩ := sources_document hdoc s hs
  obtain ⟨source, hw, rfl⟩ := Quoted.read_written hread (not_hasUnicodeEscape_of_suffix ht hu)
  refine hw.not_hasUnicodeEscape fun hescape => ht ?_
  exact (hescape.trans (List.prefix_append _ _).isInfix).trans hu.isInfix

/-- What is literal in a string of a document stands in the text of the document. -/
theorem infix_of_spells (ht : ¬HasUnicodeEscape t) (hdoc : document t = .ok v)
    (hs : v.Spells s) (hliteral : ∀ c ∈ w, Quoted.IsLiteral c) (hin : w <:+: s) : w <:+: t := by
  obtain ⟨u, rest, hu, hread⟩ := sources_document hdoc s hs
  obtain ⟨source, hw, rfl⟩ := Quoted.read_written hread (not_hasUnicodeEscape_of_suffix ht hu)
  have hsource : w <:+: source := hw.infix_source hliteral hin
  exact (hsource.trans (List.prefix_append _ _).isInfix).trans hu.isInfix

end Documents
end Json
end PolicyLint
