/-
Reading what stands between the brackets of a list and the braces of an object.

Each lemma says what one round of the reader does when a value that can be read stands
in front, in an object behind a written key.
-/
import PolicyLint.Json.Document
import PolicyLint.Proofs.Json.Quoted

namespace PolicyLint
namespace Json

theorem skipSpace_cons {c : Char} (h : isSpace c = false) (t : Text) :
    skipSpace (c :: t) = c :: t := by
  rw [skipSpace, List.dropWhile_cons_of_neg (by simp [h])]

theorem skipSpace_append {w : Text} (hw : ∀ c ∈ w, isSpace c = true) (t : Text) :
    skipSpace (w ++ t) = skipSpace t :=
  List.dropWhile_append_of_pos hw

theorem value_congr {t u : Text} (h : skipSpace t = skipSpace u) (depth : Nat) :
    value depth t = value depth u := by
  cases depth <;> simp only [value, h]

/-- White space in front of a value makes no difference. -/
theorem value_space (depth : Nat) (t : Text) : value depth (' ' :: t) = value depth t :=
  value_congr (List.dropWhile_cons_of_pos (by decide)) depth

theorem scalar_write (s rest : Text) :
    scalar (Quoted.write s ++ rest) = .ok (.string s, rest) := by
  have hread := Quoted.read_escape s rest
  rw [Quoted.write, List.append_assoc]
  show (Quoted.read (Quoted.escape s ++ '"' :: rest)).map _ = _
  rw [hread]
  rfl

/-- Where neither a list nor an object begins, a value is a scalar. -/
theorem value_scalar (depth : Nat) {t more : Text} {c : Char} (ht : skipSpace t = c :: more)
    (hbracket : c ≠ '[') (hbrace : c ≠ '\x7b') : value depth t = scalar (c :: more) := by
  cases depth with
  | zero =>
    simp only [value, ht]
    split
    next h => exact absurd (List.cons.inj h).1 hbracket
    next h => exact absurd (List.cons.inj h).1 hbrace
    next => rfl
  | succ depth =>
    simp only [value, ht]
    split
    next h => exact absurd (List.cons.inj h).1 hbracket
    next h => exact absurd (List.cons.inj h).1 hbrace
    next => rfl

theorem value_write (depth : Nat) (s rest : Text) :
    value depth (Quoted.write s ++ rest) = .ok (.string s, rest) := by
  have hskip : skipSpace (Quoted.write s ++ rest) = '"' :: (Quoted.escape s ++ ['"'] ++ rest) :=
    skipSpace_cons (by decide) _
  rw [value_scalar depth hskip (by decide) (by decide)]
  exact scalar_write s rest

/-- What begins neither a word nor a string is a number or nothing. -/
theorem scalar_plain {c : Char} (hn : c ≠ 'n') (ht : c ≠ 't') (hf : c ≠ 'f') (hquote : c ≠ '"')
    (t : Text) :
    scalar (c :: t) = if c = '-' || Number.isDigit c then
      (Number.read (c :: t)).map fun p => (.number p.1, p.2) else failAt .expectedValue (c :: t) := by
  rw [scalar.eq_def]
  split
  next h => exact absurd h (by simp)
  next h => exact absurd (List.cons.inj h).1 hn
  next h => exact absurd (List.cons.inj h).1 ht
  next h => exact absurd (List.cons.inj h).1 hf
  next h => exact absurd (List.cons.inj h).1 hquote
  next d more _ _ _ _ h =>
    obtain ⟨rfl, rfl⟩ := List.cons.inj h
    rfl

theorem scalar_digit {c : Char} (hc : Number.isDigit c = true) (t : Text) :
    scalar (c :: t) = (Number.read (c :: t)).map fun p => (.number p.1, p.2) := by
  have hne : ∀ d, Number.isDigit d = false → c ≠ d := by
    rintro d hd rfl
    rw [hc] at hd
    exact absurd hd (by decide)
  rw [scalar_plain (hne _ (by decide)) (hne _ (by decide)) (hne _ (by decide)) (hne _ (by decide)),
    hc, Bool.or_true, if_pos rfl]

theorem memberValue_colon (read : Text → Read Data) (t : Text) :
    memberValue read (':' :: t) = read t := by
  have hskip : skipSpace (':' :: t) = ':' :: t := skipSpace_cons (by decide) t
  simp only [memberValue, hskip]

section Elements

variable {read : Text → Read Data} {done : List Data} {fuel t rest : Text} {v : Data}

theorem elements_last {after : Text} (hfuel : fuel ≠ []) (hv : read t = .ok (v, rest))
    (hclose : skipSpace rest = ']' :: after) :
    elements read done fuel t = .ok (.list (v :: done).reverse, after) := by
  obtain ⟨f, fuel, rfl⟩ := List.exists_cons_of_ne_nil hfuel
  rw [elements, hv]
  simp only [bind, Except.bind, hclose]

theorem elements_next {more after : Text} {c : Char} (hfuel : fuel ≠ [])
    (hv : read t = .ok (v, rest)) (hcomma : skipSpace rest = ',' :: more)
    (hmore : skipSpace more = c :: after) (hc : c ≠ ']') :
    elements read done fuel t = elements read (v :: done) fuel.tail (c :: after) := by
  obtain ⟨f, fuel, rfl⟩ := List.exists_cons_of_ne_nil hfuel
  rw [elements, hv]
  simp only [bind, Except.bind, hcomma, hmore, List.tail_cons]
  split
  next h => exact absurd h (by simp)
  next h => exact absurd (List.cons.inj h).1 hc
  next => rfl

end Elements

section Members

variable {read : Text → Read Data} {done : List (Text × Data)} {fuel key t rest : Text} {v : Data}

theorem members_last {after : Text} (hfuel : fuel ≠ []) (hv : read t = .ok (v, rest))
    (hclose : skipSpace rest = '\x7d' :: after) :
    members read done fuel (Quoted.escape key ++ '"' :: ':' :: t) =
      .ok (.mapping ((key, v) :: done).reverse, after) := by
  obtain ⟨f, fuel, rfl⟩ := List.exists_cons_of_ne_nil hfuel
  rw [members, Quoted.read_escape]
  show ((memberValue read (':' :: t)).bind fun p => _) = _
  rw [memberValue_colon, hv]
  simp only [Except.bind, hclose]

theorem members_next {more after : Text} (hfuel : fuel ≠ []) (hv : read t = .ok (v, rest))
    (hcomma : skipSpace rest = ',' :: more) (hquote : skipSpace more = '"' :: after) :
    members read done fuel (Quoted.escape key ++ '"' :: ':' :: t) =
      members read ((key, v) :: done) fuel.tail after := by
  obtain ⟨f, fuel, rfl⟩ := List.exists_cons_of_ne_nil hfuel
  rw [members, Quoted.read_escape]
  show ((memberValue read (':' :: t)).bind fun p => _) = _
  rw [memberValue_colon, hv]
  simp only [Except.bind, hcomma, hquote, List.tail_cons]

end Members

/-! ## Whole documents -/

theorem value_object {depth : Nat} {t more : Text} (ht : skipSpace t = '"' :: more) :
    value (depth + 1) ('\x7b' :: t) = members (value depth) [] t more := by
  have hbrace : skipSpace ('\x7b' :: t) = '\x7b' :: t := skipSpace_cons (by decide) t
  simp only [value, hbrace, object, ht]

theorem value_list {depth : Nat} {t more : Text} {c : Char} (ht : skipSpace t = c :: more)
    (hc : c ≠ ']') : value (depth + 1) ('[' :: t) = elements (value depth) [] t (c :: more) := by
  have hbracket : skipSpace ('[' :: t) = '[' :: t := skipSpace_cons (by decide) t
  simp only [value, hbracket, list, ht]
  split
  next h => exact absurd h (by simp)
  next h => exact absurd (List.cons.inj h).1 hc
  next => rfl

theorem document_congr {t u : Text} (h : skipSpace t = skipSpace u) : document t = document u := by
  rw [document, value_congr h, document]

theorem document_of_value {t rest : Text} {v : Data} (hv : value maxNesting t = .ok (v, rest))
    (hrest : skipSpace rest = []) : document t = .ok v := by
  simp only [document, hv, bind, Except.bind, hrest]

/-! ## Texts that no value begins -/

/-- The characters that values begin with. -/
def beginsValue (c : Char) : Bool :=
  "[\x7bntf\"-".toList.contains c || Number.isDigit c

theorem document_of_value_error {t : Text} {f : Failure} (h : value maxNesting t = .error f) :
    document t = .error f := by
  rw [document, h]
  rfl

theorem document_blank {t : Text} (ht : skipSpace t = []) : document t = failAt .endInValue [] := by
  refine document_of_value_error ?_
  rw [maxNesting]
  simp only [value, ht]
  rfl

theorem document_of_not_beginsValue {t more : Text} {c : Char} (ht : skipSpace t = c :: more)
    (hc : beginsValue c = false) : document t = failAt .expectedValue (c :: more) := by
  rw [beginsValue, Bool.or_eq_false_iff] at hc
  have hne : ∀ d ∈ "[\x7bntf\"-".toList, c ≠ d := by
    rintro d hd rfl
    rw [List.contains_eq_mem, decide_eq_false_iff_not] at hc
    exact hc.1 hd
  have hnumber : ¬(c = '-' || Number.isDigit c) = true := by
    rw [hc.2, Bool.or_false, decide_eq_true_eq]
    exact hne '-' (by decide)
  refine document_of_value_error ?_
  rw [value_scalar _ ht (hne _ (by decide)) (hne _ (by decide)),
    scalar_plain (hne _ (by decide)) (hne _ (by decide)) (hne _ (by decide)) (hne _ (by decide)),
    if_neg hnumber]
  rfl

/- A number has one sign only. -/
theorem document_two_signs {t more : Text} (ht : skipSpace t = '-' :: '-' :: more) :
    document t = failAt .invalidNumber ('-' :: more) := by
  refine document_of_value_error ?_
  rw [value_scalar _ ht (by decide) (by decide)]
  rfl

end Json
end PolicyLint
