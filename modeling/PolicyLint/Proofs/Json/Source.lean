/-
Where the texts of a document come from.

A reader goes forward only: what it leaves is a suffix of what it was given.  So every
key and every string of a document was read from a string literal that stands in the
text of the document.
-/
import PolicyLint.Proofs.Json.Reading

namespace PolicyLint

/-- The text is a key or a string somewhere in the value. -/
inductive Data.Spells (s : Text) : Data → Prop
  | string : Spells s (.string s)
  | element {items : List Data} {item : Data} (hmem : item ∈ items) (h : Spells s item) :
      Spells s (.list items)
  | key {bindings : List (Text × Data)} {v : Data} (hmem : (s, v) ∈ bindings) :
      Spells s (.mapping bindings)
  | bound {bindings : List (Text × Data)} {k : Text} {v : Data} (hmem : (k, v) ∈ bindings)
      (h : Spells s v) : Spells s (.mapping bindings)

theorem Data.not_spells_atom {s : Text} {v : Data} (h : v.IsAtom) : ¬v.Spells s := by
  intro hs
  cases h <;> cases hs

namespace Json

/-! ## What readers leave -/

/-- If the reading succeeds, what it leaves is a suffix of `t`. -/
def Leaves {α : Type} (t : Text) (r : Read α) : Prop :=
  ∀ x rest, r = .ok (x, rest) → rest <:+ t

section Leaves

variable {α : Type} {t u : Text}

theorem Leaves.failAt {cause : Cause} {rest : Text} : Leaves (α := α) t (failAt cause rest) := by
  intro x rest h
  exact absurd h failAt_ne_ok

theorem Leaves.failBefore {cause : Cause} {rest : Text} :
    Leaves (α := α) t (failBefore cause rest) := by
  intro x rest h
  exact absurd h (by simp [Json.failBefore])

theorem Leaves.ok {x : α} {rest : Text} (h : rest <:+ t) : Leaves t (.ok (x, rest)) := by
  intro y after hy
  obtain ⟨-, rfl⟩ := Prod.mk.inj (Except.ok.inj hy)
  exact h

theorem Leaves.mono {r : Read α} (h : Leaves u r) (hu : u <:+ t) : Leaves t r :=
  fun x rest hr => (h x rest hr).trans hu

end Leaves

theorem skipSpace_suffix (t : Text) : skipSpace t <:+ t :=
  List.dropWhile_suffix isSpace

/-! ## Numbers -/

namespace Number

theorem leaves_build (negative : Bool) (m : Nat) (e : Int) (t : Text) :
    Leaves t (build negative m e t) := by
  rw [build]
  split
  · exact .failBefore
  · exact .ok (List.suffix_refl t)

theorem leaves_exponentDigits (negative : Bool) (m : Nat) (e : Int) (down : Bool) (t : Text) :
    ∀ x, Leaves t (exponentDigits negative m e down x t) := by
  induction t with
  | nil => intro x; exact leaves_build _ _ _ _
  | cons c t ih =>
    intro x
    rw [exponentDigits]
    split
    · dsimp only
      split
      · exact (ih _).mono (List.suffix_cons c t)
      · split
        · exact .failBefore
        · exact .ok ((List.dropWhile_suffix isDigit).trans (List.suffix_cons c t))
    · exact leaves_build _ _ _ _

theorem leaves_exponentStart (negative : Bool) (m : Nat) (e : Int) (down : Bool) (t : Text) :
    Leaves t (exponentStart negative m e down t) := by
  cases t with
  | nil => exact .failAt
  | cons c t =>
    rw [exponentStart]
    split
    · exact (leaves_exponentDigits _ _ _ _ _ _).mono (List.suffix_cons c t)
    · exact .failAt

theorem leaves_exponentPart (negative : Bool) (m : Nat) (e : Int) (t : Text) :
    Leaves t (exponentPart negative m e t) := by
  cases t with
  | nil => exact leaves_build _ _ _ _
  | cons c t =>
    rw [exponentPart.eq_def]
    dsimp only
    split
    · split
      next rest =>
        exact (leaves_exponentStart _ _ _ _ _).mono
          ((List.suffix_cons '+' rest).trans (List.suffix_cons c _))
      next rest =>
        exact (leaves_exponentStart _ _ _ _ _).mono
          ((List.suffix_cons '-' rest).trans (List.suffix_cons c _))
      next => exact (leaves_exponentStart _ _ _ _ _).mono (List.suffix_cons c t)
    · exact leaves_build _ _ _ _

theorem leaves_fractionDigits (negative : Bool) (t : Text) :
    ∀ m e seen, Leaves t (fractionDigits negative m e seen t) := by
  induction t with
  | nil =>
    intro m e seen
    rw [fractionDigits]
    split
    · exact leaves_exponentPart _ _ _ _
    · exact .failAt
  | cons c t ih =>
    intro m e seen
    rw [fractionDigits]
    split
    · dsimp only
      split
      · exact (ih _ _ _).mono (List.suffix_cons c t)
      · exact (leaves_exponentPart _ _ _ _).mono
          ((List.dropWhile_suffix isDigit).trans (List.suffix_cons c t))
    · split
      · exact leaves_exponentPart _ _ _ _
      · exact .failAt

theorem leaves_afterInteger (negative : Bool) (m : Nat) (e : Int) (t : Text) :
    Leaves t (afterInteger negative m e t) := by
  rw [afterInteger.eq_def]
  split
  next rest => exact (leaves_fractionDigits _ _ _ _ _).mono (List.suffix_cons '.' rest)
  next => exact leaves_exponentPart _ _ _ _

theorem leaves_integerDigits (negative : Bool) (t : Text) :
    ∀ m, Leaves t (integerDigits negative m t) := by
  induction t with
  | nil => intro m; exact leaves_afterInteger _ _ _ _
  | cons c t ih =>
    intro m
    rw [integerDigits]
    split
    · dsimp only
      split
      · exact (ih _).mono (List.suffix_cons c t)
      · exact (leaves_afterInteger _ _ _ _).mono (List.dropWhile_suffix isDigit)
    · exact leaves_afterInteger _ _ _ _

theorem leaves_integerStart (negative : Bool) (t : Text) : Leaves t (integerStart negative t) := by
  cases t with
  | nil => exact .failAt
  | cons c t =>
    have hrest : ∀ m e, Leaves (c :: t) (afterInteger negative m e t) :=
      fun m e => (leaves_afterInteger _ _ _ _).mono (List.suffix_cons c t)
    rw [integerStart.eq_def]
    dsimp only
    split
    · split
      next => split
              · exact .failAt
              · exact hrest _ _
      next => exact hrest _ _
    · split
      · exact (leaves_integerDigits _ _ _).mono (List.suffix_cons c t)
      · exact .failAt

theorem leaves_read (t : Text) : Leaves t (Number.read t) := by
  rw [Number.read.eq_def]
  split
  next rest => exact (leaves_integerStart _ _).mono (List.suffix_cons '-' rest)
  next => exact leaves_integerStart _ _

end Number

/-! ## Strings -/

namespace Quoted

theorem unit_suffix {t rest : Text} {u : Nat} (h : unit t = .ok (u, rest)) : rest <:+ t := by
  rw [unit.eq_def] at h
  split at h
  next a b c d rest' =>
    split at h
    next =>
      obtain ⟨-, rfl⟩ := Prod.mk.inj (Except.ok.inj h)
      exact ⟨[a, b, c, d], rfl⟩
    next => exact absurd h (by simp)
  next =>
    split at h
    · exact absurd h (by simp)
    · exact absurd h (by simp)

theorem leaves_secondUnit (lead : Nat) (t : Text) : Leaves t (secondUnit lead t) := by
  rw [secondUnit.eq_def]
  split
  next => exact .failAt
  next => exact .failAt
  next rest =>
    intro x after h
    obtain ⟨⟨trail, rest'⟩, hunit, h⟩ := bind_eq_ok_iff.mp h
    dsimp only at h
    split at h
    · obtain ⟨-, rfl⟩ := Prod.mk.inj (Except.ok.inj h)
      exact (unit_suffix hunit).trans ⟨['\\', 'u'], rfl⟩
    · exact absurd h (by simp [failBefore])
  next => exact .failAt
  next => exact .failAt

theorem leaves_escaped (t : Text) : Leaves t (escaped t) := by
  rw [escaped.eq_def]
  split
  next => exact .failAt
  next rest => exact .ok (List.suffix_cons _ rest)
  next rest => exact .ok (List.suffix_cons _ rest)
  next rest => exact .ok (List.suffix_cons _ rest)
  next rest => exact .ok (List.suffix_cons _ rest)
  next rest => exact .ok (List.suffix_cons _ rest)
  next rest => exact .ok (List.suffix_cons _ rest)
  next rest => exact .ok (List.suffix_cons _ rest)
  next rest => exact .ok (List.suffix_cons _ rest)
  next rest =>
    intro x after h
    obtain ⟨⟨u, rest'⟩, hunit, h⟩ := bind_eq_ok_iff.mp h
    have hrest : rest' <:+ 'u' :: rest := (unit_suffix hunit).trans (List.suffix_cons 'u' rest)
    dsimp only at h
    split at h
    · exact absurd h (by simp [failBefore])
    · split at h
      · exact (leaves_secondUnit u rest').mono hrest x after h
      · obtain ⟨-, rfl⟩ := Prod.mk.inj (Except.ok.inj h)
        exact hrest
  next => exact .failAt

theorem leaves_collect (fuel : Text) : ∀ done t, Leaves t (collect done fuel t) := by
  induction fuel with
  | nil =>
    intro done t
    cases t with
    | nil => exact .failAt
    | cons c t => exact .failAt
  | cons f fuel ih =>
    intro done t
    cases t with
    | nil => exact .failAt
    | cons c t =>
      rw [collect]
      split
      · exact .ok (List.suffix_cons c t)
      · split
        · cases hescaped : escaped t with
          | error failure => intro x rest h; exact absurd h (by simp)
          | ok p =>
            obtain ⟨e, rest⟩ := p
            have hrest : rest <:+ t := leaves_escaped t e rest hescaped
            exact (ih _ _).mono (hrest.trans (List.suffix_cons c t))
        · split
          · exact .failAt
          · exact (ih _ _).mono (List.suffix_cons c t)

theorem leaves_read (t : Text) : Leaves t (Quoted.read t) :=
  leaves_collect t [] t

end Quoted

/-! ## Values -/

/-- Every key and every string of the value is read from a literal that stands in `t`. -/
def Sources (t : Text) (v : Data) : Prop :=
  ∀ s, v.Spells s → ∃ u rest, u <:+ t ∧ Quoted.read u = .ok (s, rest)

theorem Sources.mono {t u : Text} {v : Data} (h : Sources u v) (hu : u <:+ t) : Sources t v := by
  intro s hs
  obtain ⟨w, rest, hw, hread⟩ := h s hs
  exact ⟨w, rest, hw.trans hu, hread⟩

/-- Readings go forward, and what they read stands in the text. -/
def Forward (read : Text → Read Data) : Prop :=
  ∀ t v rest, read t = .ok (v, rest) → rest <:+ t ∧ Sources t v

theorem scalar_forward : Forward scalar := by
  intro t v rest h
  rcases scalar_ok h with ⟨s, more, rfl, rfl, hread⟩ | ⟨n, rfl, hread⟩ | ⟨letters, hatom, rfl⟩
  · have hmore : more <:+ '"' :: more := List.suffix_cons '"' more
    refine ⟨(Quoted.leaves_read more s rest hread).trans hmore, fun s' hs => ?_⟩
    cases hs
    exact ⟨more, rest, hmore, hread⟩
  · exact ⟨Number.leaves_read t n rest hread, fun s hs => absurd hs (Data.not_spells_atom (.number n))⟩
  · exact ⟨List.suffix_append letters rest, fun s hs => absurd hs (Data.not_spells_atom hatom)⟩

section Collections

variable {read : Text → Read Data} {whole t rest : Text} {v : Data}

theorem sources_list {items : List Data} (h : ∀ i ∈ items, Sources t i) :
    Sources t (.list items) := by
  intro s hs
  cases hs with
  | element hmem hs => exact h _ hmem s hs

theorem sources_mapping {bindings : List (Text × Data)}
    (hkeys : ∀ e ∈ bindings, ∃ u rest, u <:+ t ∧ Quoted.read u = .ok (e.1, rest))
    (hvalues : ∀ e ∈ bindings, Sources t e.2) : Sources t (.mapping bindings) := by
  intro s hs
  cases hs with
  | key hmem => exact hkeys _ hmem
  | bound hmem hs => exact hvalues _ hmem s hs

/-- The elements read so far stand in `whole`, of which `t` is what remains. -/
theorem elements_forward (hread : Forward read) {fuel : Text} {done : List Data}
    (h : elements read done fuel t = .ok (v, rest)) (ht : t <:+ whole)
    (hdone : ∀ i ∈ done, Sources whole i) : rest <:+ whole ∧ Sources whole v := by
  induction fuel generalizing done t with
  | nil => exact absurd h failAt_ne_ok
  | cons f fuel ih =>
    obtain ⟨item, mid, hitem, hnext⟩ := elements_ok h
    obtain ⟨hmid, hsources⟩ := hread t item mid hitem
    have hspace : skipSpace mid <:+ whole := (skipSpace_suffix mid).trans (hmid.trans ht)
    have hall : ∀ i ∈ item :: done, Sources whole i := by
      intro i hi
      rcases List.mem_cons.mp hi with rfl | hi
      · exact hsources.mono ht
      · exact hdone i hi
    rcases hnext with ⟨hclose, rfl⟩ | ⟨_, _, more, he, hcomma, hmore⟩
    · rw [hclose] at hspace
      exact ⟨(List.suffix_cons ']' rest).trans hspace,
        sources_list fun i hi => hall i (List.mem_reverse.mp hi)⟩
    · obtain ⟨-, rfl⟩ := List.cons.inj he
      rw [hcomma] at hspace
      exact ih hmore ((skipSpace_suffix more).trans ((List.suffix_cons ',' more).trans hspace)) hall

theorem list_forward (hread : Forward read) (h : list read t = .ok (v, rest)) :
    rest <:+ t ∧ Sources t v := by
  have hspace := skipSpace_suffix t
  rcases list_ok h with ⟨hclose, rfl⟩ | helements
  · rw [hclose] at hspace
    exact ⟨(List.suffix_cons ']' rest).trans hspace, sources_list (by simp)⟩
  · exact elements_forward hread helements hspace (by simp)

/-- The members read so far stand in `whole`, of which `t` is what remains. -/
theorem members_forward (hread : Forward read) {fuel : Text} {done : List (Text × Data)}
    (h : members read done fuel t = .ok (v, rest)) (ht : t <:+ whole)
    (hkeys : ∀ e ∈ done, ∃ u rest, u <:+ whole ∧ Quoted.read u = .ok (e.1, rest))
    (hvalues : ∀ e ∈ done, Sources whole e.2) : rest <:+ whole ∧ Sources whole v := by
  induction fuel generalizing done t with
  | nil => exact absurd h failAt_ne_ok
  | cons f fuel ih =>
    obtain ⟨key, colon, u, mid, hkey, hvalue, hnext⟩ := members_ok h
    obtain ⟨start, hcolon, hstart⟩ := memberValue_ok hvalue
    obtain ⟨hmid, hsources⟩ := hread start u mid hstart
    have hcolonwhole : colon <:+ whole := (Quoted.leaves_read t key colon hkey).trans ht
    have hstartwhole : start <:+ whole := by
      have hspace := (skipSpace_suffix colon).trans hcolonwhole
      rw [hcolon] at hspace
      exact (List.suffix_cons ':' start).trans hspace
    have hspace : skipSpace mid <:+ whole := (skipSpace_suffix mid).trans (hmid.trans hstartwhole)
    have hkeys' : ∀ e ∈ (key, u) :: done, ∃ w rest, w <:+ whole ∧ Quoted.read w = .ok (e.1, rest) := by
      intro e he
      rcases List.mem_cons.mp he with rfl | he
      · exact ⟨t, colon, ht, hkey⟩
      · exact hkeys e he
    have hvalues' : ∀ e ∈ (key, u) :: done, Sources whole e.2 := by
      intro e he
      rcases List.mem_cons.mp he with rfl | he
      · exact hsources.mono hstartwhole
      · exact hvalues e he
    rcases hnext with ⟨hclose, rfl⟩ | ⟨_, _, more, after, he, hcomma, hquote, hmore⟩
    · rw [hclose] at hspace
      exact ⟨(List.suffix_cons '\x7d' rest).trans hspace,
        sources_mapping (fun e he => hkeys' e (List.mem_reverse.mp he))
          fun e he => hvalues' e (List.mem_reverse.mp he)⟩
    · obtain ⟨-, rfl⟩ := List.cons.inj he
      rw [hcomma] at hspace
      have hafter := (skipSpace_suffix more).trans ((List.suffix_cons ',' more).trans hspace)
      rw [hquote] at hafter
      exact ih hmore ((List.suffix_cons '"' after).trans hafter) hkeys' hvalues'

theorem object_forward (hread : Forward read) (h : object read t = .ok (v, rest)) :
    rest <:+ t ∧ Sources t v := by
  have hspace := skipSpace_suffix t
  rcases object_ok h with ⟨hclose, rfl⟩ | ⟨more, hquote, hmembers⟩
  · rw [hclose] at hspace
    exact ⟨(List.suffix_cons '\x7d' rest).trans hspace, sources_mapping (by simp) (by simp)⟩
  · rw [hquote] at hspace
    exact members_forward hread hmembers ((List.suffix_cons '"' more).trans hspace) (by simp)
      (by simp)

end Collections

theorem value_forward (depth : Nat) : Forward (value depth) := by
  induction depth with
  | zero =>
    intro t v rest h
    rcases value_ok h with ⟨d, more, hd, -⟩ | ⟨d, more, hd, -⟩ | hscalar
    · exact absurd hd (Nat.succ_ne_zero d).symm
    · exact absurd hd (Nat.succ_ne_zero d).symm
    · obtain ⟨hrest, hsources⟩ := scalar_forward _ v rest hscalar
      exact ⟨hrest.trans (skipSpace_suffix t), hsources.mono (skipSpace_suffix t)⟩
  | succ depth ih =>
    intro t v rest h
    have hspace := skipSpace_suffix t
    rcases value_ok h with ⟨d, more, hd, hopen, hlist⟩ | ⟨d, more, hd, hopen, hobject⟩ | hscalar
    · obtain rfl := Nat.succ.inj hd
      rw [hopen] at hspace
      have hmore := (List.suffix_cons '[' more).trans hspace
      obtain ⟨hrest, hsources⟩ := list_forward ih hlist
      exact ⟨hrest.trans hmore, hsources.mono hmore⟩
    · obtain rfl := Nat.succ.inj hd
      rw [hopen] at hspace
      have hmore := (List.suffix_cons '\x7b' more).trans hspace
      obtain ⟨hrest, hsources⟩ := object_forward ih hobject
      exact ⟨hrest.trans hmore, hsources.mono hmore⟩
    · obtain ⟨hrest, hsources⟩ := scalar_forward _ v rest hscalar
      exact ⟨hrest.trans hspace, hsources.mono hspace⟩

/-- Every key and every string of a document stands in its text as a literal. -/
theorem sources_document {t : Text} {v : Data} (h : document t = .ok v) : Sources t v := by
  obtain ⟨rest, hvalue, -⟩ := document_ok h
  exact (value_forward maxNesting t v rest hvalue).2

end Json
end PolicyLint
