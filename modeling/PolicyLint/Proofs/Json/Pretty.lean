/-
Written documents read back.

A value that is written, with every member and element on a line of its own, is read
again as the same value.  The induction is on how the value is built; what comes after
the value in the text is kept general, because inside a collection a comma or a line end
follows.  Only a number could run on into what follows it.
-/
import PolicyLint.Json.Pretty
import PolicyLint.Proofs.Json.Document
import PolicyLint.Proofs.Json.Numeral

namespace PolicyLint
namespace Json

/-- The value has at most `nesting` collections inside one another, and its numbers are
natural numbers that fit a significand. -/
inductive Writable : (nesting : Nat) → Data → Prop
  | null {nesting : Nat} : Writable nesting .null
  | bool {nesting : Nat} (b : Bool) : Writable nesting (.bool b)
  | string {nesting : Nat} (s : Text) : Writable nesting (.string s)
  | number {nesting n : Nat} (h : n < Number.significandBound) :
      Writable nesting (.number ⟨false, n, 0⟩)
  | list {nesting : Nat} {items : List Data} (h : ∀ i ∈ items, Writable nesting i) :
      Writable (nesting + 1) (.list items)
  | mapping {nesting : Nat} {bindings : List (Text × Data)}
      (h : ∀ e ∈ bindings, Writable nesting e.2) : Writable (nesting + 1) (.mapping bindings)

theorem Number.isSpace_of_isDigit {c : Char} (h : isDigit c = true) : isSpace c = false := by
  rw [Bool.eq_false_iff]
  intro hspace
  simp only [isSpace, Bool.or_eq_true, decide_eq_true_eq] at hspace
  rcases hspace with ((rfl | rfl) | rfl) | rfl <;> exact absurd h (by decide)

namespace Pretty

/-! ## Between values -/

theorem skipSpace_newline (depth : Nat) (t : Text) : skipSpace (newline depth ++ t) = skipSpace t := by
  refine skipSpace_append (fun c hc => ?_) t
  rcases List.mem_cons.mp hc with rfl | hc
  · decide
  · rw [List.eq_of_mem_replicate hc]
    decide

theorem skipSpace_newline_cons {c : Char} (h : isSpace c = false) (depth : Nat) (t : Text) :
    skipSpace (newline depth ++ c :: t) = c :: t := by
  rw [skipSpace_newline]
  exact skipSpace_cons h t

theorem endsNumber_newline (depth : Nat) (t : Text) : EndsNumber (newline depth ++ t) :=
  endsNumber_cons (by decide)

theorem endsNumber_comma (t : Text) : EndsNumber (',' :: t) :=
  endsNumber_cons (by decide)

theorem number_natural (n : Nat) : number ⟨false, n, 0⟩ = Text.numeral n :=
  rfl

theorem value_bool (depth : Nat) (b : Bool) :
    value depth (.bool b) = if b then "true".toList else "false".toList := by
  cases b <;> rw [value] <;> rfl

/-- What is written begins neither with white space nor like the end of a list. -/
theorem value_start {nesting : Nat} {v : Data} (h : Writable nesting v) (depth : Nat) :
    ∃ c more, Pretty.value depth v = c :: more ∧ isSpace c = false ∧ c ≠ ']' := by
  cases h with
  | null => exact ⟨'n', "ull".toList, by rw [value]; rfl, by decide, by decide⟩
  | bool b =>
    cases b with
    | true => exact ⟨'t', "rue".toList, by rw [value]; rfl, by decide, by decide⟩
    | false => exact ⟨'f', "alse".toList, by rw [value]; rfl, by decide, by decide⟩
  | string s => exact ⟨'"', Quoted.escape s ++ ['"'], by rw [value]; rfl, by decide, by decide⟩
  | @number _ n _ =>
    obtain ⟨c, ds, hnumeral⟩ := List.exists_cons_of_ne_nil
      (show Text.numeral n ≠ [] from Nat.toDigits_ne_nil)
    have hdigit : Number.isDigit c = true :=
      Number.isDigit_of_mem_numeral (hnumeral ▸ List.mem_cons_self)
    refine ⟨c, ds, ?_, Number.isSpace_of_isDigit hdigit, ?_⟩
    · rw [value, number_natural, hnumeral]
    · rintro rfl
      exact absurd hdigit (by decide)
  | @list _ items _ =>
    cases items with
    | nil => exact ⟨'[', [']'], by rw [value]; rfl, by decide, by decide⟩
    | cons v vs => exact ⟨'[', _, by rw [value]; rfl, by decide, by decide⟩
  | @mapping _ bindings _ =>
    cases bindings with
    | nil => exact ⟨'\x7b', ['\x7d'], by rw [value], by decide, by decide⟩
    | cons e es =>
      obtain ⟨k, v⟩ := e
      exact ⟨'\x7b', _, by rw [value]; rfl, by decide, by decide⟩

/-! ## Collections -/

/-- The value is read wherever it is written. -/
def ReadsBack (nesting : Nat) (v : Data) : Prop :=
  ∀ depth t, EndsNumber t → Json.value nesting (Pretty.value depth v ++ t) = .ok (v, t)

theorem length_le_elements (depth : Nat) (vs : List Data) :
    vs.length ≤ (elements depth vs).length := by
  induction vs with
  | nil => exact Nat.zero_le _
  | cons v vs ih =>
    simp only [elements, List.length_append, List.length_cons]
    omega

theorem length_le_members (depth : Nat) (ms : List (Text × Data)) :
    ms.length ≤ (members depth ms).length := by
  induction ms with
  | nil => exact Nat.zero_le _
  | cons m ms ih =>
    obtain ⟨k, v⟩ := m
    simp only [members, List.length_append, List.length_cons]
    omega

section Collections

variable {nesting : Nat}

theorem elements_read {vs : List Data} {v : Data}
    (hwritable : ∀ i ∈ v :: vs, Writable nesting i) (hread : ∀ i ∈ v :: vs, ReadsBack nesting i)
    {fuel : Text} (hfuel : vs.length < fuel.length) (depth : Nat) (done : List Data) (t : Text) :
    Json.elements (Json.value nesting) done fuel
        (Pretty.value (depth + 1) v ++
          (Pretty.elements (depth + 1) vs ++ (newline depth ++ ']' :: t))) =
      .ok (.list (done.reverse ++ v :: vs), t) := by
  have hne : fuel ≠ [] := List.length_pos_iff.mp (by omega)
  have hv := hread v List.mem_cons_self (depth + 1)
  -- What has been read already, and the fuel that is left, change from element to element.
  induction vs generalizing v done fuel with
  | nil =>
    rw [Pretty.elements, List.nil_append]
    have hclose : skipSpace (newline depth ++ ']' :: t) = ']' :: t :=
      skipSpace_newline_cons (by decide) depth t
    rw [elements_last hne (hv _ (endsNumber_newline depth _)) hclose, List.reverse_cons]
  | cons w ws ih =>
    obtain ⟨c, more, hstart, hspace, hbracket⟩ :=
      value_start (hwritable w (by simp)) (depth + 1)
    rw [Pretty.elements, List.cons_append, List.cons_append, List.cons_append]
    have hcomma : ∀ u, skipSpace (',' :: u) = ',' :: u := fun u => skipSpace_cons (by decide) u
    have hnext : ∀ u, skipSpace (newline (depth + 1) ++ Pretty.value (depth + 1) w ++ u) =
        c :: (more ++ u) := by
      intro u
      rw [List.append_assoc, hstart]
      exact skipSpace_newline_cons hspace (depth + 1) (more ++ u)
    rw [List.append_assoc (newline (depth + 1) ++ Pretty.value (depth + 1) w),
      elements_next hne (hv _ (endsNumber_comma _)) (hcomma _) (hnext _) hbracket,
      ← List.cons_append, ← hstart]
    have htail : ws.length < fuel.tail.length := by
      rw [List.length_cons] at hfuel
      rw [List.length_tail]
      omega
    rw [ih (fun i hi => hwritable i (List.mem_cons_of_mem v hi))
      (fun i hi => hread i (List.mem_cons_of_mem v hi)) htail (v :: done)
      (List.length_pos_iff.mp (by omega)) (hread w (by simp) (depth + 1))]
    rw [List.reverse_cons, List.append_assoc, List.singleton_append]

/-- A key, a colon and a space, as they stand in front of a value. -/
theorem write_key (k t : Text) :
    Quoted.write k ++ (": ".toList ++ t) = '"' :: (Quoted.escape k ++ '"' :: ':' :: ' ' :: t) := by
  rw [Quoted.write, List.append_assoc]
  rfl

theorem skipSpace_newline_key (depth : Nat) (k t : Text) :
    skipSpace (newline depth ++ (Quoted.write k ++ (": ".toList ++ t))) =
      '"' :: (Quoted.escape k ++ '"' :: ':' :: ' ' :: t) := by
  rw [write_key]
  exact skipSpace_newline_cons (by decide) depth _

theorem members_read {ms : List (Text × Data)} {k : Text} {v : Data}
    (hread : ∀ e ∈ (k, v) :: ms, ReadsBack nesting e.2) {fuel : Text}
    (hfuel : ms.length < fuel.length) (depth : Nat) (done : List (Text × Data)) (t : Text) :
    Json.members (Json.value nesting) done fuel
        (Quoted.escape k ++ '"' :: ':' :: ' ' :: (Pretty.value (depth + 1) v ++
          (Pretty.members (depth + 1) ms ++ (newline depth ++ '\x7d' :: t)))) =
      .ok (.mapping (done.reverse ++ (k, v) :: ms), t) := by
  have hne : fuel ≠ [] := List.length_pos_iff.mp (by omega)
  have hv : ∀ u, EndsNumber u →
      Json.value nesting (' ' :: (Pretty.value (depth + 1) v ++ u)) = .ok (v, u) := by
    intro u hu
    rw [value_space]
    exact hread (k, v) List.mem_cons_self (depth + 1) u hu
  induction ms generalizing k v done fuel with
  | nil =>
    rw [Pretty.members, List.nil_append]
    have hclose : skipSpace (newline depth ++ '\x7d' :: t) = '\x7d' :: t :=
      skipSpace_newline_cons (by decide) depth t
    rw [members_last hne (hv _ (endsNumber_newline depth _)) hclose, List.reverse_cons]
  | cons m ms ih =>
    obtain ⟨k', v'⟩ := m
    have hcomma : ∀ u, skipSpace (',' :: u) = ',' :: u := fun u => skipSpace_cons (by decide) u
    have htail : ms.length < fuel.tail.length := by
      rw [List.length_cons] at hfuel
      rw [List.length_tail]
      omega
    have hv' : ∀ u, EndsNumber u →
        Json.value nesting (' ' :: (Pretty.value (depth + 1) v' ++ u)) = .ok (v', u) := by
      intro u hu
      rw [value_space]
      exact hread (k', v') (by simp) (depth + 1) u hu
    simp only [Pretty.members, List.cons_append, List.append_assoc]
    rw [members_next hne (hv _ (endsNumber_comma _)) (hcomma _) (skipSpace_newline_key (depth + 1) k' _),
      ih (fun e he => hread e (List.mem_cons_of_mem _ he)) htail ((k, v) :: done)
        (List.length_pos_iff.mp (by omega)) hv',
      List.reverse_cons, List.append_assoc, List.singleton_append]

end Collections

/-! ## Values -/

theorem readsBack_number {nesting n : Nat} (hn : n < Number.significandBound) :
    ReadsBack nesting (.number ⟨false, n, 0⟩) := by
  intro depth t ht
  obtain ⟨c, ds, hnumeral⟩ := List.exists_cons_of_ne_nil
    (show Text.numeral n ≠ [] from Nat.toDigits_ne_nil)
  have hdigit : Number.isDigit c = true :=
    Number.isDigit_of_mem_numeral (hnumeral ▸ List.mem_cons_self)
  have hspace : isSpace c = false := Number.isSpace_of_isDigit hdigit
  have hbracket : c ≠ '[' := by
    rintro rfl
    exact absurd hdigit (by decide)
  have hbrace : c ≠ '\x7b' := by
    rintro rfl
    exact absurd hdigit (by decide)
  rw [value, number_natural, hnumeral, List.cons_append,
    value_scalar nesting (skipSpace_cons hspace _) hbracket hbrace, scalar_digit hdigit,
    ← List.cons_append, ← hnumeral, Number.read_numeral hn ht]
  rfl

theorem readsBack_list {nesting : Nat} {items : List Data}
    (hwritable : ∀ i ∈ items, Writable nesting i) (hread : ∀ i ∈ items, ReadsBack nesting i) :
    ReadsBack (nesting + 1) (.list items) := by
  intro depth t _
  cases items with
  | nil =>
    rw [value]
    show Json.value (nesting + 1) ('[' :: ']' :: t) = _
    have hbracket : skipSpace ('[' :: ']' :: t) = '[' :: ']' :: t := skipSpace_cons (by decide) _
    have hclose : skipSpace (']' :: t) = ']' :: t := skipSpace_cons (by decide) t
    simp only [Json.value, hbracket, Json.list, hclose]
  | cons v vs =>
    obtain ⟨c, more, hstart, hspace, hbracket⟩ :=
      value_start (hwritable v List.mem_cons_self) (depth + 1)
    have hskip : ∀ u, skipSpace (newline (depth + 1) ++ (Pretty.value (depth + 1) v ++ u)) =
        c :: (more ++ u) := by
      intro u
      rw [hstart]
      exact skipSpace_newline_cons hspace (depth + 1) (more ++ u)
    have hfuel : ∀ u w : Text, vs.length <
        (newline (depth + 1) ++ (u ++ (Pretty.elements (depth + 1) vs ++ w))).length := by
      intro u w
      have hlength := length_le_elements (depth + 1) vs
      simp only [newline, List.length_append, List.length_cons]
      omega
    simp only [value, List.cons_append, List.append_assoc]
    have hback : ∀ u, c :: (more ++ u) = Pretty.value (depth + 1) v ++ u := by
      intro u
      rw [hstart, List.cons_append]
    rw [value_list (hskip _) hbracket, hback]
    exact elements_read hwritable hread (hfuel _ _) depth [] t

theorem readsBack_mapping {nesting : Nat} {bindings : List (Text × Data)}
    (hread : ∀ e ∈ bindings, ReadsBack nesting e.2) :
    ReadsBack (nesting + 1) (.mapping bindings) := by
  intro depth t _
  cases bindings with
  | nil =>
    rw [value]
    show Json.value (nesting + 1) ('\x7b' :: '\x7d' :: t) = _
    have hbrace : skipSpace ('\x7b' :: '\x7d' :: t) = '\x7b' :: '\x7d' :: t :=
      skipSpace_cons (by decide) _
    have hclose : skipSpace ('\x7d' :: t) = '\x7d' :: t := skipSpace_cons (by decide) t
    simp only [Json.value, hbrace, Json.object, hclose]
  | cons e ms =>
    obtain ⟨k, v⟩ := e
    have hfuel : ∀ u w x y : Text, ms.length < (newline (depth + 1) ++ (u ++ (w ++ (x ++
        (Pretty.members (depth + 1) ms ++ y))))).length := by
      intro u w x y
      have hlength := length_le_members (depth + 1) ms
      simp only [newline, List.length_append, List.length_cons]
      omega
    simp only [value, List.cons_append, List.append_assoc]
    rw [value_object (skipSpace_newline_key (depth + 1) k _)]
    exact members_read hread (hfuel _ _ _ _) depth [] t

theorem readsBack {nesting : Nat} {v : Data} (h : Writable nesting v) : ReadsBack nesting v := by
  induction h with
  | null =>
    intro depth t _
    rw [value]
    exact value_scalar _ (skipSpace_cons (by decide) _) (by decide) (by decide)
  | bool b =>
    intro depth t _
    cases b with
    | true =>
      rw [value]
      exact value_scalar _ (skipSpace_cons (by decide) _) (by decide) (by decide)
    | false =>
      rw [value]
      exact value_scalar _ (skipSpace_cons (by decide) _) (by decide) (by decide)
  | string s =>
    intro depth t _
    rw [value]
    exact value_write _ s t
  | number h => exact readsBack_number h
  | list h ih => exact readsBack_list h ih
  | mapping _ ih => exact readsBack_mapping ih

end Pretty

/-- A value that is written reads back, also with white space after it. -/
theorem document_pretty {v : Data} (h : Writable maxNesting v) {t : Text} (ht : EndsNumber t)
    (hspace : skipSpace t = []) : document (pretty v ++ t) = .ok v :=
  document_of_value (Pretty.readsBack h 0 t ht) hspace

end Json
end PolicyLint
