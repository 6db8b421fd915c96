/-
More white space in a document.

White space may be put in front of a text, behind any of its line feeds, and behind its end.
A line feed inside a token is a fault whatever follows it, so the readers do step by step the
same with both texts.  Only where the first text ends inside a token do they notice: a string
or a value that is cut off there goes on with white space in the second text, which is a fault
of another name.
-/
import Mathlib.Data.List.TakeWhile
import PolicyLint.Proofs.Except
import PolicyLint.Proofs.Json.Document

namespace PolicyLint

theorem Text.byteLength_cons (c : Char) (t : Text) :
    byteLength (c :: t) = c.utf8Size + byteLength t := by
  have hadd : ∀ n, t.foldl (fun n c => n + c.utf8Size) n = n + byteLength t := by
    induction t with
    | nil => exact fun n => rfl
    | cons d t ih =>
      intro n
      rw [byteLength, List.foldl_cons, List.foldl_cons, ih, ih (0 + d.utf8Size)]
      omega
  rw [byteLength, List.foldl_cons, hadd, Nat.zero_add]

theorem Text.byteLength_append (s t : Text) : byteLength (s ++ t) = byteLength s + byteLength t := by
  induction s with
  | nil => exact (Nat.zero_add _).symm
  | cons c s ih => rw [List.cons_append, byteLength_cons, byteLength_cons, ih, Nat.add_assoc]

namespace Json

/-- The second text is the first with white space behind some of its line feeds and behind its
end. -/
inductive Spaced : Text → Text → Prop
  | finish {w : Text} (hw : ∀ c ∈ w, isSpace c = true) : Spaced [] w
  | feed {w t u : Text} (hw : ∀ c ∈ w, isSpace c = true) (h : Spaced t u) :
      Spaced ('\n' :: t) ('\n' :: (w ++ u))
  | keep {c : Char} {t u : Text} (h : Spaced t u) : Spaced (c :: t) (c :: u)

/-- No character of the kind stands at the beginning. -/
def Stops (p : Char → Bool) (t : Text) : Prop :=
  ∀ c rest, t = c :: rest → p c = false

theorem stops_nil {p : Char → Bool} : Stops p [] := by
  intro c rest h
  exact absurd h (by simp)

theorem stops_cons {p : Char → Bool} {c : Char} (h : p c = false) (t : Text) : Stops p (c :: t) := by
  intro d rest hd
  rw [← (List.cons.inj hd).1]
  exact h

theorem Stops.takeWhile {p : Char → Bool} {t : Text} (h : Stops p t) : t.takeWhile p = [] := by
  cases t with
  | nil => rfl
  | cons c t => exact List.takeWhile_cons_of_neg (by simp [h c t rfl])

theorem Stops.dropWhile {p : Char → Bool} {t : Text} (h : Stops p t) : t.dropWhile p = t := by
  cases t with
  | nil => rfl
  | cons c t => exact List.dropWhile_cons_of_neg (by simp [h c t rfl])

/-- No white space is of this kind. -/
def Spaceless (p : Char → Bool) : Prop :=
  ∀ c, isSpace c = true → p c = false

theorem spaceless_iff {p : Char → Bool} :
    Spaceless p ↔ [' ', '\t', '\n', '\r'].all (!p ·) = true := by
  simp only [Spaceless, isSpace, Bool.or_eq_true, decide_eq_true_eq, List.all_cons, List.all_nil,
    Bool.and_eq_true, Bool.not_eq_true']
  constructor
  · intro h
    exact ⟨h _ (by simp), h _ (by simp), h _ (by simp), h _ (by simp), trivial⟩
  · rintro ⟨hblank, htab, hfeed, hreturn, -⟩ c (((rfl | rfl) | rfl) | rfl)
    · exact hblank
    · exact htab
    · exact hfeed
    · exact hreturn

instance (p : Char → Bool) : Decidable (Spaceless p) :=
  decidable_of_iff _ spaceless_iff.symm

namespace Spaced

variable {t u w : Text}

theorem ne_nil (h : Spaced t u) (ht : t ≠ []) : u ≠ [] := by
  cases h with
  | finish hw => exact absurd rfl ht
  | feed hw h => exact List.cons_ne_nil _ _
  | keep h => exact List.cons_ne_nil _ _

theorem append_space (h : Spaced t u) (hw : ∀ c ∈ w, isSpace c = true) : Spaced t (u ++ w) := by
  induction h with
  | finish hv =>
    refine .finish fun c hc => ?_
    rcases List.mem_append.mp hc with hc | hc
    · exact hv c hc
    · exact hw c hc
  | feed hv h ih =>
    rw [List.cons_append, List.append_assoc]
    exact .feed hv ih
  | keep h ih => exact .keep ih

/-- Both texts go on with the same character of a kind without white space, or neither of them
goes on with such a character. -/
theorem next (h : Spaced t u) {p : Char → Bool} (hp : Spaceless p) :
    (∃ c t' u', t = c :: t' ∧ u = c :: u' ∧ p c = true ∧ Spaced t' u') ∨
      (Stops p t ∧ Stops p u) := by
  cases h with
  | finish hw =>
    refine .inr ⟨stops_nil, fun c rest hc => hp c (hw c ?_)⟩
    rw [hc]
    exact List.mem_cons_self
  | feed hw h =>
    have hfeed : p '\n' = false := hp '\n' (by decide)
    exact .inr ⟨stops_cons hfeed _, stops_cons hfeed _⟩
  | @keep c t u h =>
    cases hc : p c with
    | true => exact .inl ⟨c, t, u, rfl, rfl, hc, h⟩
    | false => exact .inr ⟨stops_cons hc t, stops_cons hc u⟩

/-- An induction over the characters of a kind that both texts begin with. -/
theorem induction_on_run {p : Char → Bool} (hp : Spaceless p)
    {motive : (t u : Text) → Spaced t u → Prop}
    (step : ∀ (c : Char) (t u : Text) (h : Spaced t u), p c = true → motive t u h →
      motive (c :: t) (c :: u) (.keep h))
    (stop : ∀ (t u : Text) (h : Spaced t u), Stops p t → Stops p u → motive t u h)
    {t u : Text} (h : Spaced t u) : motive t u h := by
  induction t generalizing u with
  | nil =>
    obtain ⟨ht, hu⟩ := (h.next hp).resolve_left (by simp)
    exact stop [] u h ht hu
  | cons c t ih =>
    rcases h.next hp with ⟨d, t', u', ht, rfl, hd, h'⟩ | ⟨ht, hu⟩
    · obtain ⟨rfl, rfl⟩ := List.cons.inj ht
      exact step c t u' h' hd (ih h')
    · exact stop _ u h ht hu

/-- What the one text begins with, without white space, the other one begins with as well. -/
theorem of_append {p : Char → Bool} (hp : Spaceless p) {front : Text}
    (hfront : ∀ c ∈ front, p c = true) (h : Spaced (front ++ t) u) :
    ∃ u', u = front ++ u' ∧ Spaced t u' := by
  induction front generalizing u with
  | nil => exact ⟨u, rfl, h⟩
  | cons c front ih =>
    rcases h.next hp with ⟨d, t', u', ht, rfl, -, h'⟩ | ⟨ht, -⟩
    · obtain ⟨rfl, rfl⟩ := List.cons.inj ht
      obtain ⟨u, rfl, hu⟩ := ih (fun d hd => hfront d (List.mem_cons_of_mem c hd)) h'
      exact ⟨u, rfl, hu⟩
    · have hc := ht c (front ++ t) rfl
      rw [hfront c List.mem_cons_self] at hc
      exact absurd hc (by decide)

theorem of_append_right {p : Char → Bool} (hp : Spaceless p) {front : Text}
    (hfront : ∀ c ∈ front, p c = true) (h : Spaced t (front ++ u)) :
    ∃ t', t = front ++ t' ∧ Spaced t' u := by
  induction front generalizing t with
  | nil => exact ⟨t, rfl, h⟩
  | cons c front ih =>
    rcases h.next hp with ⟨d, t', u', rfl, hu, -, h'⟩ | ⟨-, hu⟩
    · obtain ⟨rfl, rfl⟩ := List.cons.inj hu
      obtain ⟨t, rfl, ht⟩ := ih (fun d hd => hfront d (List.mem_cons_of_mem c hd)) h'
      exact ⟨t, rfl, ht⟩
    · have hc := hu c (front ++ u) rfl
      rw [hfront c List.mem_cons_self] at hc
      exact absurd hc (by decide)

/-- Behind white space both texts are at their end, or go on with the same character. -/
theorem skipSpace_cases (h : Spaced t u) :
    (skipSpace t = [] ∧ skipSpace u = []) ∨
      ∃ c t' u', skipSpace t = c :: t' ∧ skipSpace u = c :: u' ∧ Spaced t' u' := by
  induction h with
  | @finish w hw =>
    left
    exact ⟨rfl, List.dropWhile_eq_nil_iff.mpr hw⟩
  | @feed w t u hw h ih =>
    have ht : skipSpace ('\n' :: t) = skipSpace t := List.dropWhile_cons_of_pos (by decide)
    have hu : skipSpace ('\n' :: (w ++ u)) = skipSpace u := by
      rw [← skipSpace_append hw u]
      exact List.dropWhile_cons_of_pos (by decide)
    rw [ht, hu]
    exact ih
  | @keep c t u h ih =>
    cases hc : isSpace c with
    | true =>
      have hskip : ∀ rest, skipSpace (c :: rest) = skipSpace rest :=
        fun rest => List.dropWhile_cons_of_pos hc
      rw [hskip, hskip]
      exact ih
    | false => exact .inr ⟨c, t, u, skipSpace_cons hc t, skipSpace_cons hc u, h⟩

theorem run (h : Spaced t u) {p : Char → Bool} (hp : Spaceless p) :
    t.takeWhile p = u.takeWhile p ∧ Spaced (t.dropWhile p) (u.dropWhile p) := by
  induction h using induction_on_run hp with
  | step c t u h hc ih =>
    obtain ⟨htake, hdrop⟩ := ih
    rw [List.takeWhile_cons_of_pos hc, List.takeWhile_cons_of_pos hc,
      List.dropWhile_cons_of_pos hc, List.dropWhile_cons_of_pos hc, htake]
    exact ⟨rfl, hdrop⟩
  | stop t u h ht hu =>
    rw [ht.takeWhile, hu.takeWhile, ht.dropWhile, hu.dropWhile]
    exact ⟨rfl, h⟩

theorem byteLength_le (h : Spaced t u) : t.byteLength ≤ u.byteLength := by
  induction h with
  | finish hw => exact Nat.zero_le _
  | feed hw h ih =>
    rw [Text.byteLength_cons, Text.byteLength_cons, Text.byteLength_append]
    omega
  | keep h ih =>
    rw [Text.byteLength_cons, Text.byteLength_cons]
    omega

end Spaced

/-- How a fault may be named when white space follows: as before, and where the text ended
inside a string or a value also by what is wrong with the white space there. -/
inductive Cause.Reworded : Cause → Cause → Prop
  | same {cause : Cause} : Reworded cause cause
  | number : Reworded .endInValue .invalidNumber
  | word : Reworded .endInValue .expectedIdent
  | control : Reworded .endInString .controlCharacter
  | escape : Reworded .endInString .invalidEscape
  | pair : Reworded .endInString .unfinishedSurrogatePair

/-- The second failure is the first one, as far as its name goes, or a rewording of it. -/
def Failure.Reworded (f f' : Failure) : Prop :=
  f.cause.Reworded f'.cause

/-- Both readings give the same and leave texts that are alike but for white space, or both
fail, and the second failure may be reworded. -/
def Alike {α : Type} (r r' : Read α) : Prop :=
  Agree Failure.Reworded (fun p p' => p.1 = p'.1 ∧ Spaced p.2 p'.2) r r'

/-- More white space makes no difference to the reader. -/
def IgnoresSpacing {α : Type} (read : Text → Read α) : Prop :=
  ∀ ⦃t u⦄, Spaced t u → Alike (read t) (read u)

section Alike

variable {α β : Type} {t u : Text}

theorem Alike.ok (x : α) (h : Spaced t u) : Alike (.ok (x, t)) (.ok (x, u)) :=
  Agree.ok ⟨rfl, h⟩

theorem Alike.failAt {cause : Cause} : Alike (α := α) (failAt cause t) (failAt cause u) :=
  Agree.error .same

theorem Alike.failBefore {cause : Cause} : Alike (α := α) (failBefore cause t) (failBefore cause u) :=
  Agree.error .same

theorem Alike.bind {r r' : Read α} {values : β → β → Prop} {f f' : α × Text → Except Failure β}
    (h : Alike r r')
    (hf : ∀ x t u, r = .ok (x, t) → r' = .ok (x, u) → Spaced t u →
      Agree Failure.Reworded values (f (x, t)) (f' (x, u))) :
    Agree Failure.Reworded values (r.bind f) (r'.bind f') := by
  refine Agree.bind_of_ok h fun p p' hp hp' hrest => ?_
  obtain ⟨x, t⟩ := p
  obtain ⟨y, u⟩ := p'
  obtain ⟨rfl, hrest⟩ := hrest
  exact hf x t u hp hp' hrest

/-- A token is cut off at the end of the text, or goes on with what it must not. -/
def stuck (atEnd otherwise : Cause) (t : Text) : Except Failure α :=
  Json.failAt (if t = [] then atEnd else otherwise) t

theorem ignoresSpacing_stuck {atEnd otherwise : Cause} (hcause : atEnd.Reworded otherwise) :
    IgnoresSpacing (α := α) (stuck atEnd otherwise) := by
  intro t u h
  rw [stuck, stuck]
  by_cases ht : t = []
  · rw [if_pos ht]
    split
    · exact Agree.error .same
    · exact Agree.error hcause
  · rw [if_neg ht, if_neg (h.ne_nil ht)]
    exact Alike.failAt

end Alike
end Json
end PolicyLint
