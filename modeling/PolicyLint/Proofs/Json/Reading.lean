/-
What a reading that succeeds has done.

Each lemma takes apart one reader of the grammar of documents: from its success
follow the readings that it is made of.  Proofs about documents use these lemmas and
open no reader.
-/
import PolicyLint.Json.Document
import PolicyLint.Proofs.Except

namespace PolicyLint

/-- A value without texts in it and without parts. -/
inductive Data.IsAtom : Data → Prop
  | null : IsAtom .null
  | bool (b : Bool) : IsAtom (.bool b)
  | number (n : Decimal) : IsAtom (.number n)

namespace Json

theorem failAt_ne_ok {α : Type} {cause : Cause} {rest : Text} {x : α} : failAt cause rest ≠ .ok x := by
  intro h
  exact absurd h (by simp [failAt])

section Collections

variable {read : Text → Read Data} {t rest : Text} {v : Data}

/-- One round over the elements of a list: an element, and then the end of the list or
a comma and another round. -/
theorem elements_ok {done : List Data} {fuel : Text}
    (h : elements read done fuel t = .ok (v, rest)) :
    ∃ item mid, read t = .ok (item, mid) ∧
      ((skipSpace mid = ']' :: rest ∧ v = .list (item :: done).reverse) ∨
        ∃ f fuel' more, fuel = f :: fuel' ∧ skipSpace mid = ',' :: more ∧
          elements read (item :: done) fuel' (skipSpace more) = .ok (v, rest)) := by
  cases fuel with
  | nil => exact absurd h failAt_ne_ok
  | cons f fuel =>
    obtain ⟨⟨item, mid⟩, hread, h⟩ := bind_eq_ok_iff.mp h
    refine ⟨item, mid, hread, ?_⟩
    dsimp only at h
    split at h
    next => exact absurd h failAt_ne_ok
    next after hmid =>
      obtain ⟨rfl, rfl⟩ := Prod.mk.inj (Except.ok.inj h)
      exact .inl ⟨hmid, rfl⟩
    next more hmid =>
      split at h
      next => exact absurd h failAt_ne_ok
      next => exact absurd h failAt_ne_ok
      next => exact .inr ⟨f, fuel, more, rfl, hmid, h⟩
    next => exact absurd h failAt_ne_ok

theorem list_ok (h : list read t = .ok (v, rest)) :
    (skipSpace t = ']' :: rest ∧ v = .list []) ∨ elements read [] t (skipSpace t) = .ok (v, rest) := by
  rw [list] at h
  split at h
  next => exact absurd h failAt_ne_ok
  next after ht =>
    obtain ⟨rfl, rfl⟩ := Prod.mk.inj (Except.ok.inj h)
    exact .inl ⟨ht, rfl⟩
  next => exact .inr h

theorem memberValue_ok (h : memberValue read t = .ok (v, rest)) :
    ∃ more, skipSpace t = ':' :: more ∧ read more = .ok (v, rest) := by
  rw [memberValue] at h
  split at h
  next => exact absurd h failAt_ne_ok
  next more ht => exact ⟨more, ht, h⟩
  next => exact absurd h failAt_ne_ok

/-- One round over the members of an object: a key and its value, and then the end of
the object or a comma, a quote and another round. -/
theorem members_ok {done : List (Text × Data)} {fuel : Text}
    (h : members read done fuel t = .ok (v, rest)) :
    ∃ key colon u mid, Quoted.read t = .ok (key, colon) ∧
      memberValue read colon = .ok (u, mid) ∧
      ((skipSpace mid = '\x7d' :: rest ∧ v = .mapping ((key, u) :: done).reverse) ∨
        ∃ f fuel' more after, fuel = f :: fuel' ∧ skipSpace mid = ',' :: more ∧
          skipSpace more = '"' :: after ∧
          members read ((key, u) :: done) fuel' after = .ok (v, rest)) := by
  cases fuel with
  | nil => exact absurd h failAt_ne_ok
  | cons f fuel =>
    obtain ⟨⟨key, colon⟩, hkey, h⟩ := bind_eq_ok_iff.mp h
    obtain ⟨⟨u, mid⟩, hvalue, h⟩ := bind_eq_ok_iff.mp h
    refine ⟨key, colon, u, mid, hkey, hvalue, ?_⟩
    dsimp only at h
    split at h
    next => exact absurd h failAt_ne_ok
    next after hmid =>
      obtain ⟨rfl, rfl⟩ := Prod.mk.inj (Except.ok.inj h)
      exact .inl ⟨hmid, rfl⟩
    next more hmid =>
      split at h
      next => exact absurd h failAt_ne_ok
      next => exact absurd h failAt_ne_ok
      next after hmore => exact .inr ⟨f, fuel, more, after, rfl, hmid, hmore, h⟩
      next => exact absurd h failAt_ne_ok
    next => exact absurd h failAt_ne_ok

theorem object_ok (h : object read t = .ok (v, rest)) :
    (skipSpace t = '\x7d' :: rest ∧ v = .mapping []) ∨
      ∃ more, skipSpace t = '"' :: more ∧ members read [] t more = .ok (v, rest) := by
  rw [object] at h
  split at h
  next => exact absurd h failAt_ne_ok
  next after ht =>
    obtain ⟨rfl, rfl⟩ := Prod.mk.inj (Except.ok.inj h)
    exact .inl ⟨ht, rfl⟩
  next more ht => exact .inr ⟨more, ht, h⟩
  next => exact absurd h failAt_ne_ok

end Collections

/-! ## Values -/

theorem word_ok {value v : Data} {letters t rest : Text} (h : word value letters t = .ok (v, rest)) :
    v = value ∧ t = letters ++ rest := by
  induction letters generalizing t with
  | nil =>
    obtain ⟨rfl, rfl⟩ := Prod.mk.inj (Except.ok.inj h)
    exact ⟨rfl, rfl⟩
  | cons l letters ih =>
    cases t with
    | nil => exact absurd h failAt_ne_ok
    | cons c t =>
      rw [word] at h
      split at h
      next hc =>
        obtain ⟨rfl, rfl⟩ := ih h
        exact ⟨rfl, by rw [hc, List.cons_append]⟩
      next => exact absurd h failAt_ne_ok

/-- A value that is no collection is a string, a number or a fixed word. -/
theorem scalar_ok {t rest : Text} {v : Data} (h : scalar t = .ok (v, rest)) :
    (∃ s more, t = '"' :: more ∧ v = .string s ∧ Quoted.read more = .ok (s, rest)) ∨
      (∃ n, v = .number n ∧ Number.read t = .ok (n, rest)) ∨
      ∃ letters, v.IsAtom ∧ t = letters ++ rest := by
  rw [scalar.eq_def] at h
  split at h
  next => exact absurd h failAt_ne_ok
  next more =>
    obtain ⟨rfl, rfl⟩ := word_ok h
    exact .inr (.inr ⟨"null".toList, .null, rfl⟩)
  next more =>
    obtain ⟨rfl, rfl⟩ := word_ok h
    exact .inr (.inr ⟨"true".toList, .bool true, rfl⟩)
  next more =>
    obtain ⟨rfl, rfl⟩ := word_ok h
    exact .inr (.inr ⟨"false".toList, .bool false, rfl⟩)
  next more =>
    obtain ⟨⟨s, after⟩, hread, h⟩ := map_eq_ok_iff.mp h
    obtain ⟨rfl, rfl⟩ := Prod.mk.inj h
    exact .inl ⟨s, more, rfl, rfl, hread⟩
  next c more _ _ _ _ =>
    split at h
    next =>
      obtain ⟨⟨n, after⟩, hread, h⟩ := map_eq_ok_iff.mp h
      obtain ⟨rfl, rfl⟩ := Prod.mk.inj h
      exact .inr (.inl ⟨n, rfl, hread⟩)
    next => exact absurd h failAt_ne_ok

/-- A value is a list after a bracket, an object after a brace, or no collection. -/
theorem value_ok {depth : Nat} {t rest : Text} {v : Data} (h : value depth t = .ok (v, rest)) :
    (∃ d more, depth = d + 1 ∧ skipSpace t = '[' :: more ∧ list (value d) more = .ok (v, rest)) ∨
      (∃ d more, depth = d + 1 ∧ skipSpace t = '\x7b' :: more ∧
        object (value d) more = .ok (v, rest)) ∨
      scalar (skipSpace t) = .ok (v, rest) := by
  cases depth with
  | zero =>
    simp only [value] at h
    split at h
    next => exact absurd h failAt_ne_ok
    next => exact absurd h failAt_ne_ok
    next => exact .inr (.inr h)
  | succ depth =>
    simp only [value] at h
    split at h
    next more ht => exact .inl ⟨depth, more, rfl, ht, h⟩
    next more ht => exact .inr (.inl ⟨depth, more, rfl, ht, h⟩)
    next => exact .inr (.inr h)

theorem document_ok {t : Text} {v : Data} (h : document t = .ok v) :
    ∃ rest, value maxNesting t = .ok (v, rest) ∧ skipSpace rest = [] := by
  obtain ⟨⟨u, rest⟩, hvalue, h⟩ := bind_eq_ok_iff.mp h
  dsimp only at h
  split at h
  next hrest =>
    obtain rfl := Except.ok.inj h
    exact ⟨rest, hvalue, hrest⟩
  next => exact absurd h failAt_ne_ok

theorem parse_ok_iff {t : Text} {v : Data} : parse t = .ok v ↔ document t = .ok v := by
  rw [parse]
  exact mapError_eq_ok_iff

/-! ## Where objects are -/

theorem elements_list {read : Text → Read Data} {done : List Data} {fuel t rest : Text} {v : Data}
    (h : elements read done fuel t = .ok (v, rest)) : ∃ items, v = .list items := by
  induction fuel generalizing done t with
  | nil => exact absurd h failAt_ne_ok
  | cons f fuel ih =>
    obtain ⟨item, mid, -, ⟨-, hv⟩ | ⟨_, _, more, he, -, hnext⟩⟩ := elements_ok h
    · exact ⟨_, hv⟩
    · obtain ⟨-, rfl⟩ := List.cons.inj he
      exact ih hnext

/-- Only a brace begins an object. -/
theorem value_mapping {depth : Nat} {t rest : Text} {bindings : List (Text × Data)}
    (h : value depth t = .ok (.mapping bindings, rest)) : ∃ more, skipSpace t = '\x7b' :: more := by
  rcases value_ok h with ⟨d, more, -, -, hlist⟩ | ⟨d, more, -, ht, -⟩ | hscalar
  · rcases list_ok hlist with ⟨-, hv⟩ | helements
    · exact absurd hv (by simp)
    · obtain ⟨items, hv⟩ := elements_list helements
      exact absurd hv (by simp)
  · exact ⟨more, ht⟩
  · rcases scalar_ok hscalar with ⟨s, more, -, hv, -⟩ | ⟨n, hv, -⟩ | ⟨letters, hatom, -⟩
    · exact absurd hv (by simp)
    · exact absurd hv (by simp)
    · cases hatom

end Json
end PolicyLint
