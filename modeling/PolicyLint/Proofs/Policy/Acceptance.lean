/-
What acceptance depends on.

An object is accepted for one of three things that it carries: a policy key, an endpoint with a
policy, or the text of a policy in the request body of a cloud endpoint.  None of the three is
lost by an edit elsewhere, and of a policy only its key is looked at, not what the key is bound
to.
-/
import Mathlib.Logic.Relation
import PolicyLint.Proofs.Policy.CloudEnvelope

namespace PolicyLint
namespace Policy

/-- An object's bindings. -/
abbrev Bindings := List (Text × Data)

def BindsKey (m : Bindings) : Prop :=
  ∃ k ∈ keys, Data.binds k m = true

/-- What an object is accepted for. -/
inductive Carries (m : Bindings) : Prop
  | key (h : BindsKey m) : Carries m
  | endpoint {endpoints : List Data} {endpoint policy : Bindings}
      (hendpoints : Data.lookup "endpoints".toList m = some (.list endpoints))
      (hmem : .mapping endpoint ∈ endpoints)
      (hpolicy : Data.lookup "traffic_policy".toList endpoint = some (.mapping policy))
      (h : BindsKey policy) : Carries m
  | cloud {policy : Text}
      (hpolicy : Data.lookup "traffic_policy".toList m = some (.string policy))
      (hkind : Data.lookup "type".toList m = some (.string "cloud".toList))
      (h : IsPolicyObject policy) : Carries m

theorem hasKey_iff {m : Bindings} : hasKey m = true ↔ BindsKey m :=
  List.any_eq_true

theorem isPolicyEndpoint_iff {d : Data} :
    isPolicyEndpoint d = true ↔ ∃ endpoint policy, d = .mapping endpoint ∧
      Data.lookup "traffic_policy".toList endpoint = some (.mapping policy) ∧ BindsKey policy := by
  unfold isPolicyEndpoint
  constructor
  · intro h
    split at h
    next endpoint =>
      split at h
      next policy hpolicy => exact ⟨endpoint, policy, rfl, hpolicy, hasKey_iff.mp h⟩
      next => exact absurd h (by simp)
    next => exact absurd h (by simp)
  · rintro ⟨endpoint, policy, rfl, hpolicy, h⟩
    simp only [hpolicy]
    exact hasKey_iff.mpr h

theorem wrapsEndpoints_iff {m : Bindings} :
    wrapsEndpoints m = true ↔ ∃ endpoints endpoint policy,
      Data.lookup "endpoints".toList m = some (.list endpoints) ∧ .mapping endpoint ∈ endpoints ∧
        Data.lookup "traffic_policy".toList endpoint = some (.mapping policy) ∧ BindsKey policy := by
  unfold wrapsEndpoints
  constructor
  · intro h
    split at h
    next endpoints hendpoints =>
      obtain ⟨_, hmem, hd⟩ := List.any_eq_true.mp h
      obtain ⟨endpoint, policy, rfl, hpolicy, hkey⟩ := isPolicyEndpoint_iff.mp hd
      exact ⟨endpoints, endpoint, policy, hendpoints, hmem, hpolicy, hkey⟩
    next => exact absurd h (by simp)
  · rintro ⟨endpoints, endpoint, policy, hendpoints, hmem, hpolicy, hkey⟩
    rw [hendpoints]
    exact List.any_eq_true.mpr
      ⟨.mapping endpoint, hmem, isPolicyEndpoint_iff.mpr ⟨endpoint, policy, rfl, hpolicy, hkey⟩⟩

theorem wrapsCloudEndpoint_iff {m : Bindings} :
    wrapsCloudEndpoint m = true ↔ ∃ policy,
      Data.lookup "traffic_policy".toList m = some (.string policy) ∧
        Data.lookup "type".toList m = some (.string "cloud".toList) ∧ IsPolicyObject policy := by
  unfold wrapsCloudEndpoint
  constructor
  · intro h
    split at h
    next policy kind hpolicy hkind =>
      rw [Bool.and_eq_true, decide_eq_true_eq] at h
      rw [h.1] at hkind
      exact ⟨policy, hpolicy, hkind, isPolicyText_iff.mp h.2⟩
    next => exact absurd h (by simp)
  · rintro ⟨policy, hpolicy, hkind, h⟩
    rw [hpolicy, hkind]
    exact Bool.and_eq_true_iff.mpr ⟨decide_eq_true rfl, isPolicyText_iff.mpr h⟩

theorem carries_iff {m : Bindings} :
    (hasKey m || wrapsEndpoints m || wrapsCloudEndpoint m) = true ↔ Carries m := by
  rw [Bool.or_eq_true, Bool.or_eq_true, hasKey_iff, wrapsEndpoints_iff, wrapsCloudEndpoint_iff]
  constructor
  · rintro ((h | ⟨endpoints, endpoint, policy, hendpoints, hmem, hpolicy, h⟩) |
      ⟨policy, hpolicy, hkind, h⟩)
    · exact .key h
    · exact .endpoint hendpoints hmem hpolicy h
    · exact .cloud hpolicy hkind h
  · rintro (h | ⟨hendpoints, hmem, hpolicy, h⟩ | ⟨hpolicy, hkind, h⟩)
    · exact .inl (.inl h)
    · exact .inl (.inr ⟨_, _, _, hendpoints, hmem, hpolicy, h⟩)
    · exact .inr ⟨_, hpolicy, hkind, h⟩

/-- An object is accepted for what it carries, and the only thing it can lack is a key. -/
theorem accept_mapping (m : Bindings) :
    (Carries m ∧ accept (.mapping m) = .ok ()) ∨
      (¬Carries m ∧ accept (.mapping m) = .error .missingPolicyKey) := by
  rw [← carries_iff, accept]
  by_cases h : (hasKey m || wrapsEndpoints m || wrapsCloudEndpoint m) = true
  · exact .inl ⟨h, if_pos h⟩
  · exact .inr ⟨h, if_neg h⟩

theorem accept_mapping_iff {m : Bindings} : accept (.mapping m) = .ok () ↔ Carries m := by
  rcases accept_mapping m with ⟨hm, h⟩ | ⟨hm, h⟩
  · exact iff_of_true h hm
  · exact iff_of_false (by rw [h]; simp) hm

/-! ## Edits -/

/-- `b` binds `value` to the key, and every other key as `a` does. -/
def Sets (key : Text) (value : Data) (a b : Bindings) : Prop :=
  Data.lookup key b = some value ∧ ∀ k, k ≠ key → Data.lookup k b = Data.lookup k a

theorem Sets.binds {key k : Text} {value : Data} {a b : Bindings} (h : Sets key value a b)
    (ha : Data.binds k a = true) : Data.binds k b = true := by
  rw [Data.binds] at ha ⊢
  by_cases hk : k = key
  · rw [hk, h.1]
    rfl
  · rw [h.2 k hk]
    exact ha

theorem Sets.bindsKey {key : Text} {value : Data} {a b : Bindings} (h : Sets key value a b) :
    BindsKey a → BindsKey b := by
  rintro ⟨k, hk, ha⟩
  exact ⟨k, hk, h.binds ha⟩

/-- The edits that take nothing away that an object is accepted for. -/
inductive Edit : Bindings → Bindings → Prop
  /-- All bindings stay, whatever else is bound. -/
  | extend {m m' : Bindings}
      (h : ∀ k v, Data.lookup k m = some v → Data.lookup k m' = some v) : Edit m m'
  /-- All endpoints stay: further ones may be inserted anywhere, and they may be repeated and put
  in another order. -/
  | endpoints {m m' : Bindings} {before after : List Data}
      (hbefore : Data.lookup "endpoints".toList m = some (.list before)) (hstay : before ⊆ after)
      (hafter : Sets "endpoints".toList (.list after) m m') : Edit m m'
  /-- A policy key is bound to another value. -/
  | policy {m m' : Bindings} {k : Text} {v : Data} (hk : k ∈ keys) (hbound : Data.binds k m = true)
      (h : Sets k v m m') : Edit m m'
  /-- A policy key in the traffic policy of an endpoint is bound to another value. -/
  | endpointPolicy {m m' endpoint endpoint' policy policy' : Bindings} {front back : List Data}
      {k : Text} {v : Data} (hk : k ∈ keys) (hbound : Data.binds k policy = true)
      (h : Sets k v policy policy')
      (hpolicy : Data.lookup "traffic_policy".toList endpoint = some (.mapping policy))
      (hpolicy' : Sets "traffic_policy".toList (.mapping policy') endpoint endpoint')
      (hendpoints : Data.lookup "endpoints".toList m =
        some (.list (front ++ .mapping endpoint :: back)))
      (hendpoints' : Sets "endpoints".toList (.list (front ++ .mapping endpoint' :: back)) m m') :
      Edit m m'

section Sets

variable {m m' : Bindings}

/- The keys of the envelopes are no policy keys, so an edit at one of the two kinds leaves the
other as it is. -/
theorem ne_of_mem_keys {k : Text} (hk : k ∈ keys) :
    "endpoints".toList ≠ k ∧ "traffic_policy".toList ≠ k ∧ "type".toList ≠ k := by
  have hall : (keys.all fun k => decide ("endpoints".toList ≠ k ∧ "traffic_policy".toList ≠ k ∧
      "type".toList ≠ k)) = true := by decide
  exact of_decide_eq_true (List.all_eq_true.mp hall k hk)

theorem carries_of_sets_policy {k : Text} {v : Data} (hk : k ∈ keys) (h : Sets k v m m')
    (hm : Carries m) : Carries m' := by
  obtain ⟨hendpoints, hpolicy, hkind⟩ := ne_of_mem_keys hk
  cases hm with
  | key hkey => exact .key (h.bindsKey hkey)
  | endpoint hlist hmem hbound hkey =>
    exact .endpoint ((h.2 _ hendpoints).trans hlist) hmem hbound hkey
  | cloud htext hcloud hobject =>
    exact .cloud ((h.2 _ hpolicy).trans htext) ((h.2 _ hkind).trans hcloud) hobject

/-- Where every endpoint with a policy has one in its place, the object still carries what it
did. -/
theorem carries_of_sets_endpoints {before after : List Data}
    (hbefore : Data.lookup "endpoints".toList m = some (.list before))
    (hpolicies : ∀ d ∈ before, isPolicyEndpoint d = true → ∃ d' ∈ after, isPolicyEndpoint d' = true)
    (hafter : Sets "endpoints".toList (.list after) m m') (hm : Carries m) : Carries m' := by
  cases hm with
  | key hkey => exact .key (hafter.bindsKey hkey)
  | @endpoint endpoints endpoint policy hlist hmem hbound hkey =>
    have hsame : endpoints = before := by
      rw [hbefore] at hlist
      exact (Data.list.inj (Option.some.inj hlist)).symm
    rw [hsame] at hmem
    obtain ⟨d', hmem', hd'⟩ :=
      hpolicies _ hmem (isPolicyEndpoint_iff.mpr ⟨endpoint, policy, rfl, hbound, hkey⟩)
    obtain ⟨endpoint', policy', rfl, hbound', hkey'⟩ := isPolicyEndpoint_iff.mp hd'
    exact .endpoint hafter.1 hmem' hbound' hkey'
  | cloud htext hcloud hobject =>
    exact .cloud ((hafter.2 _ (by decide)).trans htext) ((hafter.2 _ (by decide)).trans hcloud)
      hobject

end Sets

/-- One edit keeps what an object is accepted for. -/
theorem Edit.carries {m m' : Bindings} (h : Edit m m') (hm : Carries m) : Carries m' := by
  cases h with
  | extend h =>
    cases hm with
    | key hkey =>
      obtain ⟨k, hk, hbinds⟩ := hkey
      obtain ⟨v, hv⟩ := Option.isSome_iff_exists.mp hbinds
      exact .key ⟨k, hk, Option.isSome_iff_exists.mpr ⟨v, h k v hv⟩⟩
    | endpoint hlist hmem hbound hkey => exact .endpoint (h _ _ hlist) hmem hbound hkey
    | cloud htext hcloud hobject => exact .cloud (h _ _ htext) (h _ _ hcloud) hobject
  | endpoints hbefore hstay hafter =>
    exact carries_of_sets_endpoints hbefore (fun d hd hpolicy => ⟨d, hstay hd, hpolicy⟩) hafter hm
  | policy hk hbound h => exact carries_of_sets_policy hk h hm
  | @endpointPolicy _ endpoint' _ _ front back _ _ hk hbound h _ hpolicy' hendpoints hendpoints' =>
    -- Whichever endpoint had a policy before, the edited one has one now.
    have hedited : isPolicyEndpoint (.mapping endpoint') = true :=
      isPolicyEndpoint_iff.mpr ⟨endpoint', _, rfl, hpolicy'.1, _, hk, h.binds hbound⟩
    have hmem : Data.mapping endpoint' ∈ front ++ .mapping endpoint' :: back :=
      List.mem_append_right _ List.mem_cons_self
    exact carries_of_sets_endpoints hendpoints (fun _ _ _ => ⟨_, hmem, hedited⟩) hendpoints' hm

/-- Acceptance of an object is not lost by edits elsewhere.  An object is accepted or lacks a
policy key.  Once accepted it stays so however often it is extended, endpoints are added, repeated
or put in another order, and policy keys are bound to other values; and whether the same endpoints
stand in another order or are repeated makes no difference at all. -/
theorem accept_edited (m : Bindings) :
    (accept (.mapping m) = .ok () ∨ accept (.mapping m) = .error .missingPolicyKey) ∧
      (∀ m', Relation.ReflTransGen Edit m m' → accept (.mapping m) = .ok () →
        accept (.mapping m') = .ok ()) ∧
      (∀ m' before after, Data.lookup "endpoints".toList m = some (.list before) →
        (∀ d, d ∈ after ↔ d ∈ before) → Sets "endpoints".toList (.list after) m m' →
        accept (.mapping m') = accept (.mapping m)) := by
  refine ⟨?_, fun m' hedits hm => ?_, fun m' before after hbefore hsame hafter => ?_⟩
  · rcases accept_mapping m with ⟨-, h⟩ | ⟨-, h⟩
    · exact .inl h
    · exact .inr h
  · rw [accept_mapping_iff] at hm ⊢
    induction hedits with
    | refl => exact hm
    | tail _ hedit ih => exact hedit.carries ih
  · have hthere : Edit m m' := .endpoints hbefore (fun d hd => (hsame d).mpr hd) hafter
    have hback : Edit m' m :=
      .endpoints hafter.1 (fun d hd => (hsame d).mp hd)
        ⟨hbefore, fun k hk => (hafter.2 k hk).symm⟩
    rcases accept_mapping m with ⟨hm, h⟩ | ⟨hm, h⟩
    · rw [h, accept_mapping_iff.mpr (hthere.carries hm)]
    · rcases accept_mapping m' with ⟨hm', -⟩ | ⟨-, h'⟩
      · exact absurd (hback.carries hm') hm
      · rw [h, h']

end Policy
end PolicyLint
