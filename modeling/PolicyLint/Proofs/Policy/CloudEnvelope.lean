/-
Request bodies that create cloud endpoints.

Such a body carries its policy as a JSON text in a string.  The body itself can be
read whatever that text is, because a written string reads back, and it has neither
a policy key nor endpoints.  So the verdict on the body is the verdict on the text
inside.
-/
import PolicyLint.Policy
import PolicyLint.Proofs.Json.Document
import PolicyLint.Proofs.Text.Blank

namespace PolicyLint
namespace Policy

open Json.Quoted (write escape)

/-- The text that creates a cloud endpoint with a policy. -/
def cloudBody (policy : Text) : Text :=
  "\x7b\"traffic_policy\": ".toList ++ write policy ++ ", \"type\": \"cloud\"\x7d".toList

/-- The text is a JSON object that binds a policy key. -/
def IsPolicyObject (t : Text) : Prop :=
  ∃ bindings, Json.document t = .ok (.mapping bindings) ∧
    ∃ k ∈ keys, Data.binds k bindings = true

theorem isPolicyText_iff {t : Text} : isPolicyText t = true ↔ IsPolicyObject t := by
  unfold isPolicyText IsPolicyObject
  constructor
  · intro h
    split at h
    next bindings hdoc => exact ⟨bindings, hdoc, List.any_eq_true.mp h⟩
    next => exact absurd h (by simp)
  · rintro ⟨bindings, hdoc, hkeys⟩
    rw [hdoc]
    exact List.any_eq_true.mpr hkeys

/- A brace in front decides the format, whatever is declared. -/
theorem resolve_brace (rest : Text) (declared : Format) :
    resolve ('\x7b' :: rest) declared = .json := by
  have hhead := Text.head?_trim (c := '\x7b') (by decide) rest
  rw [resolve]
  exact if_pos hhead

/-! ## Reading a body -/

/-- The bindings of a body. -/
def cloudBindings (policy : Text) : List (Text × Data) :=
  [("traffic_policy".toList, .string policy), ("type".toList, .string "cloud".toList)]

theorem document_cloudBody (policy : Text) :
    Json.document (cloudBody policy) = .ok (.mapping (cloudBindings policy)) := by
  have hkind : Json.value 126 " \"cloud\"\x7d".toList = .ok (.string "cloud".toList, ['\x7d']) :=
    (Json.value_space 126 _).trans (Json.value_write 126 "cloud".toList ['\x7d'])
  have hpolicy : Json.value 126 (' ' :: (write policy ++ ", \"type\": \"cloud\"\x7d".toList)) =
      .ok (.string policy, ", \"type\": \"cloud\"\x7d".toList) :=
    (Json.value_space 126 _).trans (Json.value_write 126 policy _)
  have hcomma : Json.skipSpace ", \"type\": \"cloud\"\x7d".toList =
      ',' :: " \"type\": \"cloud\"\x7d".toList := rfl
  have hquote : Json.skipSpace " \"type\": \"cloud\"\x7d".toList =
      '"' :: (escape "type".toList ++ '"' :: ':' :: " \"cloud\"\x7d".toList) := rfl
  have hbody : cloudBody policy = '\x7b' :: '"' :: (escape "traffic_policy".toList ++
      '"' :: ':' :: ' ' :: (write policy ++ ", \"type\": \"cloud\"\x7d".toList)) := rfl
  have hvalue : Json.value Json.maxNesting (cloudBody policy) =
      .ok (.mapping (cloudBindings policy), []) := by
    rw [hbody, Json.maxNesting, Json.value_object (Json.skipSpace_cons (by decide) _),
      Json.members_next (by simp) hpolicy hcomma hquote]
    exact Json.members_last (by simp) hkind rfl
  exact Json.document_of_value hvalue rfl

/-! ## The verdict -/

theorem accept_cloudBindings (policy : Text) :
    accept (.mapping (cloudBindings policy)) =
      if isPolicyText policy then .ok () else .error .missingPolicyKey := by
  have hkeys : hasKey (cloudBindings policy) = false := rfl
  have hendpoints : wrapsEndpoints (cloudBindings policy) = false := rfl
  have hcloud : wrapsCloudEndpoint (cloudBindings policy) = isPolicyText policy := rfl
  rw [accept, hkeys, hendpoints, hcloud, Bool.false_or, Bool.false_or]

/-- A body is accepted exactly when the text inside is a JSON object that binds a
policy key.  Whatever else the text is, the one fault found is the missing key. -/
theorem validate_cloudBody (policy : Text) (declared : Format) :
    (validate (cloudBody policy) declared = .ok () ↔ IsPolicyObject policy) ∧
      (¬IsPolicyObject policy →
        validate (cloudBody policy) declared = .error .missingPolicyKey) := by
  have hresolve : resolve (cloudBody policy) declared = .json := resolve_brace _ declared
  have hread : read (cloudBody policy) .json = .ok (.mapping (cloudBindings policy)) := by
    rw [read, Json.parse, document_cloudBody]
    rfl
  have hvalidate : validate (cloudBody policy) declared =
      if isPolicyText policy then .ok () else .error .missingPolicyKey := by
    rw [validate, hresolve, hread, ← accept_cloudBindings]
    rfl
  rw [hvalidate, ← isPolicyText_iff]
  cases isPolicyText policy <;> simp

end Policy
end PolicyLint
