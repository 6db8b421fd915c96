/-
Only texts that mention a policy key are taken for policies.

A block is looked at when a policy key stands somewhere in its text.  That is a test on
characters, while a block is accepted for the keys of its mappings.  No policy key has a
character that a short escape stands for, so in JSON without unicode escapes an accepted
key stands in the text as it is.  That holds at the root, in an endpoint, and for the
policy that a cloud endpoint carries as a JSON text in a string, which has no unicode
escape either.
-/
import Mathlib.Data.List.Basic
import PolicyLint.Proofs.Json.Spelling
import PolicyLint.Proofs.Markdown.RegionReading
import PolicyLint.Proofs.Policy.CloudEnvelope

namespace PolicyLint

theorem Data.mem_of_lookup {key : Text} {bindings : List (Text × Data)} {v : Data}
    (h : Data.lookup key bindings = some v) : (key, v) ∈ bindings := by
  induction bindings with
  | nil => exact absurd h (by simp [Data.lookup])
  | cons e rest ih =>
    obtain ⟨k, u⟩ := e
    rw [Data.lookup] at h
    cases hrest : Data.lookup key rest with
    | some w =>
      rw [hrest, Option.some_or] at h
      exact List.mem_cons_of_mem _ (ih (hrest.trans h))
    | none =>
      rw [hrest, Option.none_or, Option.ite_none_right_eq_some] at h
      obtain ⟨rfl, hv⟩ := h
      obtain rfl := Option.some.inj hv
      exact List.mem_cons_self

namespace Policy

/-! ## Keys of accepted documents -/

theorem exists_spells_of_hasKey {bindings : List (Text × Data)} (h : hasKey bindings = true) :
    ∃ k ∈ keys, (Data.mapping bindings).Spells k := by
  obtain ⟨k, hk, hbinds⟩ := List.any_eq_true.mp h
  obtain ⟨⟨_, v⟩, hmem, rfl⟩ := Data.binds_iff.mp hbinds
  exact ⟨_, hk, .key hmem⟩

theorem exists_spells_of_wrapsEndpoints {bindings : List (Text × Data)}
    (h : wrapsEndpoints bindings = true) : ∃ k ∈ keys, (Data.mapping bindings).Spells k := by
  rw [wrapsEndpoints] at h
  split at h
  next endpoints hendpoints =>
    obtain ⟨endpoint, hmem, h⟩ := List.any_eq_true.mp h
    cases endpoint with
    | mapping fields =>
      rw [isPolicyEndpoint] at h
      split at h
      next policy hpolicy =>
        obtain ⟨k, hk, hspells⟩ := exists_spells_of_hasKey h
        have hfields : (Data.mapping fields).Spells k := .bound (Data.mem_of_lookup hpolicy) hspells
        exact ⟨k, hk, .bound (Data.mem_of_lookup hendpoints) (.element hmem hfields)⟩
      next => exact absurd h (by simp)
    | null => exact absurd h (by simp [isPolicyEndpoint])
    | bool b => exact absurd h (by simp [isPolicyEndpoint])
    | number n => exact absurd h (by simp [isPolicyEndpoint])
    | string s => exact absurd h (by simp [isPolicyEndpoint])
    | list items => exact absurd h (by simp [isPolicyEndpoint])
  next => exact absurd h (by simp)

theorem exists_spells_of_wrapsCloudEndpoint {bindings : List (Text × Data)}
    (h : wrapsCloudEndpoint bindings = true) :
    ∃ policy, (Data.mapping bindings).Spells policy ∧ IsPolicyObject policy := by
  rw [wrapsCloudEndpoint] at h
  split at h
  next policy kind hpolicy _ =>
    have htext : isPolicyText policy = true := (Bool.and_eq_true_iff.mp h).2
    exact ⟨policy, .bound (Data.mem_of_lookup hpolicy) .string, isPolicyText_iff.mp htext⟩
  next => exact absurd h (by simp)

/-- An accepted document has a policy key among its texts, or a text that is itself an
object with one. -/
theorem exists_spells_of_accept {d : Data} (h : accept d = .ok ()) :
    (∃ k ∈ keys, d.Spells k) ∨ ∃ policy, d.Spells policy ∧ IsPolicyObject policy := by
  cases d with
  | mapping bindings =>
    rw [accept] at h
    split at h
    next hcases =>
      rw [Bool.or_eq_true, Bool.or_eq_true] at hcases
      rcases hcases with (hkey | hendpoints) | hcloud
      · exact .inl (exists_spells_of_hasKey hkey)
      · exact .inl (exists_spells_of_wrapsEndpoints hendpoints)
      · exact .inr (exists_spells_of_wrapsCloudEndpoint hcloud)
    next => exact absurd h (by simp)
  | null => exact absurd h (by simp [accept])
  | bool b => exact absurd h (by simp [accept])
  | number n => exact absurd h (by simp [accept])
  | string s => exact absurd h (by simp [accept])
  | list items => exact absurd h (by simp [accept])

/-! ## Keys in texts -/

theorem isLiteral_of_mem_key {k : Text} (hk : k ∈ keys) : ∀ c ∈ k, Json.Quoted.IsLiteral c := by
  have hall : (keys.all fun k => k.all fun c => decide (Json.Quoted.IsLiteral c)) = true := by
    decide
  have hkey := List.all_eq_true.mp hall k hk
  intro c hc
  exact of_decide_eq_true (List.all_eq_true.mp hkey c hc)

theorem mentioned_of_spells {t k : Text} {d : Data} (ht : ¬Json.HasUnicodeEscape t)
    (hdoc : Json.document t = .ok d) (hk : k ∈ keys) (hs : d.Spells k) : mentioned t = true := by
  have hin : k <:+: t :=
    Json.infix_of_spells ht hdoc hs (isLiteral_of_mem_key hk) List.infix_rfl
  exact Markdown.mentioned_iff.mpr ⟨k, hk, hin⟩

theorem mentioned_of_isPolicyObject {t : Text} (ht : ¬Json.HasUnicodeEscape t)
    (h : IsPolicyObject t) : mentioned t = true := by
  obtain ⟨bindings, hdoc, k, hk, hbinds⟩ := h
  obtain ⟨⟨_, v⟩, hmem, rfl⟩ := Data.binds_iff.mp hbinds
  exact mentioned_of_spells ht hdoc hk (.key hmem)

/-- What a string of a document mentions, the text of the document mentions. -/
theorem mentioned_of_spells_mentioned {t s : Text} {d : Data} (ht : ¬Json.HasUnicodeEscape t)
    (hdoc : Json.document t = .ok d) (hs : d.Spells s) (h : mentioned s = true) :
    mentioned t = true := by
  obtain ⟨k, hk, hin⟩ := Markdown.mentioned_iff.mp h
  have hin' : k <:+: t := Json.infix_of_spells ht hdoc hs (isLiteral_of_mem_key hk) hin
  exact Markdown.mentioned_iff.mpr ⟨k, hk, hin'⟩

theorem mentioned_of_accept {t : Text} {d : Data} (ht : ¬Json.HasUnicodeEscape t)
    (hdoc : Json.document t = .ok d) (h : accept d = .ok ()) : mentioned t = true := by
  rcases exists_spells_of_accept h with ⟨k, hk, hs⟩ | ⟨policy, hs, hpolicy⟩
  · exact mentioned_of_spells ht hdoc hk hs
  · have hinner : ¬Json.HasUnicodeEscape policy := Json.not_hasUnicodeEscape_of_spells ht hdoc hs
    exact mentioned_of_spells_mentioned ht hdoc hs (mentioned_of_isPolicyObject hinner hpolicy)

/-- A text that is read as JSON, has no unicode escape and is accepted mentions a policy
key.  So wherever it is the content of a region that is not exempt, it is a block. -/
theorem candidate_of_validate (content : Text) (declared : Format)
    (hjson : resolve content declared = .json) (hplain : ¬Json.HasUnicodeEscape content)
    (hok : validate content declared = .ok ()) :
    mentioned content = true ∧
      ∀ (t : Text) (s : Markdown.Span) (f : Format), Markdown.IsRegion (Text.lines t) s →
        s.content (Text.lines t) = content →
        (∃ line, Markdown.lineAt (Text.lines t) s.opened = some line ∧
          Markdown.Declares line f ∧ ¬Markdown.IsExempt line) →
        ∃ b ∈ Markdown.blocks t, b.line = s.opened ∧ b.format = f ∧ b.content = content := by
  rw [validate, hjson, read] at hok
  obtain ⟨d, hread, haccept⟩ := bind_eq_ok_iff.mp hok
  have hdoc : Json.document content = .ok d := by
    rw [← Json.parse_ok_iff]
    exact mapError_eq_ok_iff.mp hread
  have hmentioned : mentioned content = true := mentioned_of_accept hplain hdoc haccept
  refine ⟨hmentioned, ?_⟩
  intro t s f hregion hcontent hdeclares
  have hkey := Markdown.mentioned_iff.mp hmentioned
  exact Markdown.exists_block_of_reports hregion ⟨hdeclares, hcontent.symm, hkey⟩

/-- The request body of a cloud endpoint, on two lines, with its policy in a string. -/
def cloudSnippet : Text :=
  "\x7b\"traffic_policy\": \"\x7b\\\"on_tcp_connect\\\": []\x7d\",\n \"type\": \"cloud\"\x7d".toList

/-- A document with `cloudSnippet` in a region that declares JSON in capitals. -/
def cloudPage : Text :=
  "```JSON\n".toList ++ cloudSnippet ++ "\n ```\nThe end.\n".toList

theorem isRegion_cloudPage : Markdown.IsRegion (Text.lines cloudPage) ⟨1, 4⟩ := by
  have hlines : Text.lines cloudPage = ["```JSON".toList,
      "\x7b\"traffic_policy\": \"\x7b\\\"on_tcp_connect\\\": []\x7d\",".toList,
      " \"type\": \"cloud\"\x7d".toList, " ```".toList, "The end.".toList] := by decide +kernel
  have hopens : Markdown.Opens "```JSON".toList :=
    ⟨.json, (Markdown.opening_eq_some_iff (o := ⟨.json, false⟩)).mp (by decide) |>.1⟩
  rw [hlines]
  refine ⟨[⟨1, 4⟩], .next ⟨Nat.le_refl 1, ⟨_, rfl, hopens⟩, ?_, by decide, ⟨_, rfl, by decide⟩, ?_⟩
    (.stop ?_), List.mem_singleton_self _⟩
  · intro n line hfrom hbefore
    exact absurd hfrom (Nat.not_le_of_lt hbefore)
  · intro n line hafter hbefore hline
    have hcases : n = 2 ∨ n = 3 := by
      dsimp only at hafter hbefore
      omega
    rcases hcases with rfl | rfl
    · obtain rfl := Option.some.inj hline
      decide
    · obtain rfl := Option.some.inj hline
      decide
  · intro s hnext
    obtain ⟨line, hline, hopens⟩ := hnext.opens
    have hfrom : 5 ≤ s.opened := hnext.from_start
    have hlast : s.opened ≤ 5 := Markdown.le_length_of_lineAt hline
    have hfive : s.opened = 5 := by omega
    rw [hfive] at hline
    obtain rfl := Option.some.inj hline
    exact Markdown.opening_eq_none_iff.mp (by decide) hopens

theorem cloudSnippet_is_candidate :
    resolve cloudSnippet .yaml = .json ∧ ¬Json.HasUnicodeEscape cloudSnippet ∧
      validate cloudSnippet .yaml = .ok () ∧ mentioned cloudSnippet = true ∧
      Markdown.IsRegion (Text.lines cloudPage) ⟨1, 4⟩ ∧
      ∃ b ∈ Markdown.blocks cloudPage, b.line = 1 ∧ b.format = .json ∧ b.content = cloudSnippet := by
  have hjson : resolve cloudSnippet .yaml = .json := by decide +kernel
  have hplain : ¬Json.HasUnicodeEscape cloudSnippet := by decide +kernel
  have hok : validate cloudSnippet .yaml = .ok () := by decide +kernel
  have hregion := isRegion_cloudPage
  have hopening : Markdown.opening "```JSON".toList = some ⟨.json, false⟩ := by decide
  obtain ⟨hdeclares, hexempt⟩ := Markdown.opening_eq_some_iff.mp hopening
  have hexempt' : ¬Markdown.IsExempt "```JSON".toList := fun h => absurd (hexempt.mpr h) (by simp)
  obtain ⟨hmentioned, hreported⟩ := candidate_of_validate cloudSnippet .yaml hjson hplain hok
  exact ⟨hjson, hplain, hok, hmentioned, hregion,
    hreported cloudPage ⟨1, 4⟩ .json hregion (by decide +kernel)
      ⟨_, by decide +kernel, hdeclares, hexempt'⟩⟩

end Policy
end PolicyLint
