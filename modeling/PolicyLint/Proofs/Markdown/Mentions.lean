/-
Policy keys in the lines of a region.

The content of a region is searched as a whole, but no policy key has a line feed in it.  So a
key stands in the content exactly when it stands in one of the lines, and in which order the
lines stand does not matter.
-/
import PolicyLint.Proofs.Markdown.Exempted
import PolicyLint.Proofs.Markdown.Idle

namespace PolicyLint
namespace Markdown

/-- The region that line `n` opens is reported. -/
def ReportedAt (t : Text) (n : Nat) : Prop :=
  ∃ b ∈ blocks t, b.line = n

theorem mentioned_join_iff (ls : List Text) :
    Policy.mentioned (Text.join ['\n'] ls) = true ↔
      ∃ line ∈ ls, ∃ k ∈ Policy.keys, k <:+: line := by
  rw [mentioned_iff]
  constructor
  · intro ⟨k, hk, hin⟩
    obtain ⟨line, hline, hkey⟩ := (mentions_join hk ls).mp hin
    exact ⟨line, hline, k, hk, hkey⟩
  · intro ⟨line, hline, k, hk, hkey⟩
    exact ⟨k, hk, (mentions_join hk ls).mpr ⟨line, hline, hkey⟩⟩

theorem mentioned_of_blockOf {opened reported : Nat} {o : Opening} {body : List Text} {b : Block}
    (h : Reading.blockOf opened reported o body = some b) :
    Policy.mentioned (Text.join ['\n'] body) = true := by
  simp only [Reading.blockOf, Option.ite_none_right_eq_some, Bool.and_eq_true] at h
  exact h.1.2

/-- A region ends at the first bare fence behind its opening, so the lines determine its body. -/
theorem ClosedRegion.body_unique {ls front front' : List Text} {first first' : Text}
    {body body' : List Text} {last last' : Text} {after after' : List Text}
    (h : ClosedRegion ls front first body last after)
    (h' : ClosedRegion ls front' first' body' last' after')
    (hlength : front.length = front'.length) : body = body' := by
  have hbody : ∀ {body last after}, (∀ line ∈ body, Text.trim line ≠ fence) →
      Text.trim last = fence →
      (body ++ last :: after).takeWhile (fun line => decide (Text.trim line ≠ fence)) = body := by
    intro body last after hnone hlast
    rw [List.takeWhile_append_of_pos fun line hl => decide_eq_true (hnone line hl),
      List.takeWhile_cons_of_neg (by simp [hlast]), List.append_nil]
  have hlines := h.lines_eq.symm.trans h'.lines_eq
  have hrest := (List.cons.inj (List.append_inj hlines hlength).2).2
  rw [← hbody h.no_fence h.closes, hrest, hbody h'.no_fence h'.closes]

/-- A region that is closed and not exempt is reported when one of its lines names a key. -/
theorem reportedAt_iff {t : Text} {front : List Text} {first : Text} {body : List Text}
    {last : Text} {after : List Text}
    (h : ClosedRegion (Text.lines t) front first body last after) (hexempt : ¬IsExempt first) :
    ReportedAt t (front.length + 1) ↔ ∃ line ∈ body, ∃ k ∈ Policy.keys, k <:+: line := by
  rw [← mentioned_join_iff, ReportedAt, blocks_eq_collected]
  constructor
  · intro ⟨b, hb, hline⟩
    obtain ⟨front', first', body', last', after', o, h', -, hblock⟩ :=
      Reading.exists_closedRegion hb
    have hlength : front.length = front'.length :=
      Nat.succ.inj (hline.symm.trans (line_of_blockOf hblock))
    rw [h.body_unique h' hlength]
    exact mentioned_of_blockOf hblock
  · intro hmentioned
    obtain ⟨o, ho⟩ := exists_opening h.opens
    have hkept : o.exempt = false :=
      Bool.eq_false_iff.mpr fun he => hexempt ((opening_eq_some_iff.mp ho).2.mp he)
    have hblock : ∀ reported, Reading.blockOf (front.length + 1) reported o body =
        some ⟨reported + 1, front.length + 1, o.format, Text.join ['\n'] body⟩ := by
      intro reported
      rw [Reading.blockOf, hkept, hmentioned]
      rfl
    rw [Reading.collected_closedRegion h ho, hblock]
    exact ⟨_, List.mem_append_right _ List.mem_cons_self, rfl⟩

/-- Whether a policy key is mentioned is decided line by line: joining lines neither makes a
mention nor hides one.  So a region that is closed and not exempt is reported exactly when one
of its lines names a key, and with its lines in any other order it is reported as well or is not
reported either. -/
theorem mentioned_line_by_line :
    (∀ ls : List Text, Policy.mentioned (Text.join ['\n'] ls) = true ↔
      ∃ line ∈ ls, ∃ k ∈ Policy.keys, k <:+: line) ∧
    ∀ (t : Text) (front : List Text) (first : Text) (body : List Text) (last : Text)
      (after : List Text), ClosedRegion (Text.lines t) front first body last after →
      ¬IsExempt first →
      (ReportedAt t (front.length + 1) ↔ ∃ line ∈ body, ∃ k ∈ Policy.keys, k <:+: line) ∧
      ∀ (u : Text) (body' : List Text), body'.Perm body →
        Text.lines u = front ++ first :: (body' ++ last :: after) →
        (ReportedAt u (front.length + 1) ↔ ReportedAt t (front.length + 1)) := by
  refine ⟨mentioned_join_iff, fun t front first body last after h hexempt => ?_⟩
  refine ⟨reportedAt_iff h hexempt, fun u body' hperm hlines => ?_⟩
  have h' : ClosedRegion (Text.lines u) front first body' last after :=
    ⟨hlines, h.front_closed, h.opens, fun line hl => h.no_fence line (hperm.mem_iff.mp hl),
      h.closes⟩
  rw [reportedAt_iff h hexempt, reportedAt_iff h' hexempt]
  exact exists_congr fun line => and_congr_left fun _ => hperm.mem_iff

/-- A key stands in a line of the first region, and is broken over two lines of the second. -/
def brokenKeyPage : Text :=
  "```yaml\non_tcp_connect:\n- x\n```\n```yaml\non_tcp_\nconnect:\n```\n".toList

/-- The lines of the first region in another order. -/
def turnedPage : Text :=
  "```yaml\n- x\non_tcp_connect:\n```\n```yaml\non_tcp_\nconnect:\n```\n".toList

theorem brokenKeyPage_reported :
    Policy.mentioned (Text.join ['\n'] ["on_tcp_".toList, "connect:".toList]) = false ∧
      ReportedAt brokenKeyPage 1 ∧ ReportedAt turnedPage 1 ∧ ¬ReportedAt brokenKeyPage 5 := by
  obtain ⟨hjoined, hregions⟩ := mentioned_line_by_line
  have hyaml : opening "```yaml".toList = some ⟨.yaml, false⟩ := by decide +kernel
  obtain ⟨hdeclares, hexempt⟩ := opening_eq_some_iff.mp hyaml
  have hopens : Opens "```yaml".toList := ⟨.yaml, hdeclares⟩
  have hkept : ¬IsExempt "```yaml".toList := fun h => Bool.false_ne_true (hexempt.mpr h)
  have hwhole : ∃ line ∈ ["on_tcp_connect:".toList, "- x".toList], ∃ k ∈ Policy.keys,
      k <:+: line := by
    decide +kernel
  have hbroken : ¬∃ line ∈ ["on_tcp_".toList, "connect:".toList], ∃ k ∈ Policy.keys,
      k <:+: line := by
    decide +kernel
  have hfirst : ClosedRegion (Text.lines brokenKeyPage) [] "```yaml".toList
      ["on_tcp_connect:".toList, "- x".toList] fence
      ["```yaml".toList, "on_tcp_".toList, "connect:".toList, fence] :=
    ⟨by decide +kernel, .nil, hopens, by decide, by decide⟩
  have hsecond : ClosedRegion (Text.lines brokenKeyPage)
      ("```yaml".toList :: (["on_tcp_connect:".toList, "- x".toList] ++ [fence])) "```yaml".toList
      ["on_tcp_".toList, "connect:".toList] fence [] :=
    ⟨by decide +kernel, .region hopens hfirst.no_fence hfirst.closes .nil, hopens, by decide,
      by decide⟩
  obtain ⟨hreported, hturned⟩ := hregions _ _ _ _ _ _ hfirst hkept
  refine ⟨?_, hreported.mpr hwhole, ?_, ?_⟩
  · rw [Bool.eq_false_iff, ne_eq, hjoined]
    exact hbroken
  · have hperm : ["- x".toList, "on_tcp_connect:".toList].Perm
        ["on_tcp_connect:".toList, "- x".toList] := .swap _ _ _
    exact (hturned turnedPage _ hperm (by decide +kernel)).mpr (hreported.mpr hwhole)
  · obtain ⟨hsplit, -⟩ := hregions _ _ _ _ _ _ hsecond hkept
    exact fun h => hbroken (hsplit.mp h)

end Markdown
end PolicyLint
