/-
Results that may be failures.

A computation in steps succeeds when all of its steps do; otherwise the first step that
fails decides why it fails.
-/
import Mathlib.Data.List.Forall2

namespace PolicyLint

variable {ε α β : Type}

theorem map_eq_ok_iff {f : α → β} {x : Except ε α} {y : β} :
    x.map f = .ok y ↔ ∃ a, x = .ok a ∧ f a = y := by
  cases x <;> simp [Except.map]

theorem bind_eq_ok_iff {f : α → Except ε β} {x : Except ε α} {y : β} :
    x.bind f = .ok y ↔ ∃ a, x = .ok a ∧ f a = .ok y := by
  cases x <;> simp [Except.bind]

theorem bind_eq_error_iff {f : α → Except ε β} {x : Except ε α} {e : ε} :
    x.bind f = .error e ↔ x = .error e ∨ ∃ a, x = .ok a ∧ f a = .error e := by
  cases x <;> simp [Except.bind]

theorem mapError_eq_ok_iff {ε' : Type} {f : ε → ε'} {x : Except ε α} {y : α} :
    x.mapError f = .ok y ↔ x = .ok y := by
  cases x with
  | error e =>
    show Except.error (f e) = .ok y ↔ Except.error e = .ok y
    simp only [reduceCtorEq]
  | ok a =>
    show (Except.ok a : Except ε' α) = .ok y ↔ (Except.ok a : Except ε α) = .ok y
    rw [Except.ok.injEq, Except.ok.injEq]

theorem mapError_eq_error_iff {ε' : Type} {f : ε → ε'} {x : Except ε α} {e' : ε'} :
    x.mapError f = .error e' ↔ ∃ e, x = .error e ∧ f e = e' := by
  cases x with
  | error e =>
    show Except.error (f e) = .error e' ↔ _
    simp only [Except.error.injEq, exists_eq_left']
  | ok a =>
    show (Except.ok a : Except ε' α) = .error e' ↔ _
    simp only [reduceCtorEq, false_and, exists_false]

theorem map_eq_error_iff {f : α → β} {x : Except ε α} {e : ε} :
    x.map f = .error e ↔ x = .error e := by
  cases x <;> simp [Except.map]

/-- Of the things in a list the first that fails does so for the reason `why`. -/
def FirstToFail (fails : α → β → Prop) (xs : List α) (why : β) : Prop :=
  ∃ front x back, xs = front ++ x :: back ∧ (∀ y ∈ front, ∀ w, ¬fails y w) ∧ fails x why

section FirstToFail

variable {fails : α → β → Prop} {x : α} {xs : List α} {why : β}

theorem not_firstToFail_nil : ¬FirstToFail fails [] why := by
  intro ⟨front, x, back, hxs, _, _⟩
  cases front <;> exact nomatch hxs

theorem firstToFail_cons_iff :
    FirstToFail fails (x :: xs) why ↔
      fails x why ∨ (∀ w, ¬fails x w) ∧ FirstToFail fails xs why := by
  constructor
  · intro ⟨front, y, back, hxs, hfront, hy⟩
    cases front with
    | nil =>
      left
      rw [(List.cons.inj hxs).1]
      exact hy
    | cons z front =>
      obtain ⟨hz, hxs⟩ := List.cons.inj hxs
      right
      rw [hz]
      exact ⟨hfront z List.mem_cons_self, front, y, back, hxs,
        fun w hw => hfront w (List.mem_cons_of_mem z hw), hy⟩
  · intro h
    rcases h with hx | ⟨hx, front, y, back, hxs, hfront, hy⟩
    · exact ⟨[], x, xs, rfl, fun z hz => absurd hz List.not_mem_nil, hx⟩
    · refine ⟨x :: front, y, back, by rw [hxs, List.cons_append], fun z hz => ?_, hy⟩
      rcases List.mem_cons.mp hz with h | h
      · rw [h]
        exact hx
      · exact hfront z h

theorem exists_firstToFail (h : ∃ x ∈ xs, ∃ w, fails x w) : ∃ why, FirstToFail fails xs why := by
  induction xs with
  | nil =>
    obtain ⟨x, hx, -⟩ := h
    exact absurd hx List.not_mem_nil
  | cons y xs ih =>
    by_cases hy : ∃ w, fails y w
    · obtain ⟨w, hw⟩ := hy
      exact ⟨w, firstToFail_cons_iff.mpr (.inl hw)⟩
    · obtain ⟨x, hx, hfails⟩ := h
      have hrest : x ∈ xs := by
        rcases List.mem_cons.mp hx with hxy | hx
        · rw [hxy] at hfails
          exact absurd hfails hy
        · exact hx
      obtain ⟨why, hwhy⟩ := ih ⟨x, hrest, hfails⟩
      exact ⟨why, firstToFail_cons_iff.mpr (.inr ⟨fun w hw => hy ⟨w, hw⟩, hwhy⟩)⟩

theorem FirstToFail.congr {fails' : α → β → Prop} (h : ∀ x ∈ xs, ∀ w, fails x w ↔ fails' x w)
    (hfirst : FirstToFail fails xs why) : FirstToFail fails' xs why := by
  obtain ⟨front, x, back, hxs, hfront, hx⟩ := hfirst
  have hmem : x ∈ xs := by
    rw [hxs]
    exact List.mem_append_right front List.mem_cons_self
  refine ⟨front, x, back, hxs, fun y hy w hw => ?_, (h x hmem why).mp hx⟩
  have hy' : y ∈ xs := by
    rw [hxs]
    exact List.mem_append_left _ hy
  exact hfront y hy w ((h y hy' w).mpr hw)

theorem FirstToFail.eq_of_head {w : β} (hx : fails x w) (hunique : ∀ a b, fails x a → fails x b → a = b)
    (h : FirstToFail fails (x :: xs) why) : why = w := by
  rcases firstToFail_cons_iff.mp h with hwhy | ⟨hnone, -⟩
  · exact hunique why w hwhy hx
  · exact absurd hx (hnone w)

end FirstToFail

variable {f : α → Except ε β}

theorem mapM_ok_of_forall {xs : List α} (h : ∀ x ∈ xs, ∃ y, f x = .ok y) :
    ∃ ys, xs.mapM f = .ok ys := by
  induction xs with
  | nil => exact ⟨[], rfl⟩
  | cons x xs ih =>
    obtain ⟨y, hy⟩ := h x List.mem_cons_self
    obtain ⟨ys, hys⟩ := ih fun z hz => h z (List.mem_cons_of_mem x hz)
    refine ⟨y :: ys, ?_⟩
    rw [List.mapM_cons, hy, hys]
    rfl

theorem forall₂_of_mapM_ok {xs : List α} {ys : List β} (h : xs.mapM f = .ok ys) :
    List.Forall₂ (fun x y => f x = .ok y) xs ys := by
  induction xs generalizing ys with
  | nil =>
    obtain rfl : [] = ys := Except.ok.inj h
    exact .nil
  | cons x xs ih =>
    rw [List.mapM_cons] at h
    obtain ⟨y, hy, hrest⟩ := bind_eq_ok_iff.mp h
    obtain ⟨zs, hzs, hys⟩ := bind_eq_ok_iff.mp hrest
    obtain rfl : y :: zs = ys := Except.ok.inj hys
    exact .cons hy (ih hzs)

theorem mem_of_mapM_ok {xs : List α} {ys : List β} (h : xs.mapM f = .ok ys) (y : β) :
    y ∈ ys ↔ ∃ x ∈ xs, f x = .ok y := by
  have hall := forall₂_of_mapM_ok h
  clear h
  induction hall with
  | nil => simp
  | cons hx _ ih => simp [ih, hx, eq_comm]

theorem ok_of_mapM_ok {xs : List α} {ys : List β} (h : xs.mapM f = .ok ys) :
    ∀ x ∈ xs, ∃ y, f x = .ok y := by
  have hall := forall₂_of_mapM_ok h
  clear h
  induction hall with
  | nil => exact fun x hx => absurd hx List.not_mem_nil
  | cons hy _ ih => exact List.forall_mem_cons.mpr ⟨⟨_, hy⟩, ih⟩

theorem exists_of_mapM_error {xs : List α} {e : ε} (h : xs.mapM f = .error e) :
    ∃ x ∈ xs, f x = .error e := by
  induction xs with
  | nil => exact absurd h (by simp [pure, Except.pure])
  | cons x xs ih =>
    rw [List.mapM_cons] at h
    rcases bind_eq_error_iff.mp h with hx | ⟨y, -, hrest⟩
    · exact ⟨x, List.mem_cons_self, hx⟩
    · rcases bind_eq_error_iff.mp hrest with hxs | ⟨ys, -, hys⟩
      · obtain ⟨z, hz, he⟩ := ih hxs
        exact ⟨z, List.mem_cons_of_mem x hz, he⟩
      · exact absurd hys (by simp [pure, Except.pure])

/-! ## Two results compared -/

/-- Both results are failures, and alike as such, or both are values, and alike as such. -/
inductive Agree {ε' β : Type} (failing : ε → ε' → Prop) (values : α → β → Prop) :
    Except ε α → Except ε' β → Prop
  | error {e : ε} {e' : ε'} (h : failing e e') : Agree failing values (.error e) (.error e')
  | ok {a : α} {b : β} (h : values a b) : Agree failing values (.ok a) (.ok b)

section Agree

variable {ε' α' β' : Type} {failing : ε → ε' → Prop} {values : α → α' → Prop}
  {values' : β → β' → Prop} {x : Except ε α} {x' : Except ε' α'}

theorem Agree.bind_of_ok {f : α → Except ε β} {f' : α' → Except ε' β'}
    (hx : Agree failing values x x')
    (hf : ∀ a a', x = .ok a → x' = .ok a' → values a a' → Agree failing values' (f a) (f' a')) :
    Agree failing values' (x.bind f) (x'.bind f') := by
  cases hx with
  | error h => exact .error h
  | ok h => exact hf _ _ rfl rfl h

theorem Agree.bind {f : α → Except ε β} {f' : α' → Except ε' β'}
    (hx : Agree failing values x x') (hf : ∀ a a', values a a' → Agree failing values' (f a) (f' a')) :
    Agree failing values' (x.bind f) (x'.bind f') :=
  hx.bind_of_ok fun a a' _ _ => hf a a'

theorem Agree.map {f : α → β} {f' : α' → β'} (hx : Agree failing values x x')
    (hf : ∀ a a', values a a' → values' (f a) (f' a')) :
    Agree failing values' (x.map f) (x'.map f') := by
  cases hx with
  | error h => exact .error h
  | ok h => exact .ok (hf _ _ h)

/-- Passes over the same list agree when they do so at each of its elements. -/
theorem agree_mapM {γ : Type} {f : γ → Except ε α} {f' : γ → Except ε' α'} {xs : List γ}
    (h : ∀ x ∈ xs, Agree failing values (f x) (f' x)) :
    Agree failing (List.Forall₂ values) (xs.mapM f) (xs.mapM f') := by
  induction xs with
  | nil => exact .ok .nil
  | cons x xs ih =>
    have hrest := ih fun y hy => h y (List.mem_cons_of_mem x hy)
    rw [List.mapM_cons, List.mapM_cons]
    refine (h x List.mem_cons_self).bind fun a a' ha => ?_
    exact hrest.bind fun as as' has => .ok (.cons ha has)

end Agree

end PolicyLint
