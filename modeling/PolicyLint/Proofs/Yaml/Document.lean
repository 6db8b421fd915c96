/-
The document of a text that holds nothing.

Where there are only document markers there is no document, an empty one, or a second one, which
is refused.  None of them has a node with anything in it.
-/
import PolicyLint.Proofs.Yaml.Token.Hollow
import PolicyLint.Yaml.Document

namespace PolicyLint
namespace Yaml

/-- Document markers only are ahead, and then the end of the text or a marker that is refused. -/
structure Supply.Bare (s : Supply) : Prop where
  tokens : ∀ p ∈ s.tokens,
    p.token = .documentStart ∨ p.token = .documentEnd ∨ p.token = .streamEnd
  ending : (∃ p ∈ s.tokens, p.token = .streamEnd) ∨ ∃ mark, s.ending = ⟨.plainEmpty, mark⟩
  aliases : s.aliasCount = 0

namespace Supply

variable {s : Supply}

theorem bare_ofFeed {f : Feed} (h : f.Bare) : (ofFeed f).Bare := by
  refine ⟨h.tokens, h.ending.imp id fun ⟨mark, hfault⟩ => ⟨mark, ?_⟩, rfl⟩
  rw [ofFeed, hfault, Option.getD_some]

theorem peek_cons {p : Placed} {rest : List Placed} (h : s.tokens = p :: rest) :
    s.peek = .ok p := by
  rw [peek, h]

theorem exists_cons_of_peek {p : Placed} (h : s.peek = .ok p) : ∃ rest, s.tokens = p :: rest := by
  cases htokens : s.tokens with
  | nil => simp [peek, htokens] at h
  | cons q rest =>
    obtain rfl : q = p := Except.ok.inj ((peek_cons htokens).symm.trans h)
    exact ⟨rest, rfl⟩

/-- What a look ahead can find. -/
theorem Bare.peek (h : s.Bare) :
    (∃ mark, s.peek = .error ⟨.plainEmpty, mark⟩) ∨ ∃ p, s.peek = .ok p ∧
      (p.token = .documentStart ∨ p.token = .documentEnd ∨ p.token = .streamEnd) := by
  cases htokens : s.tokens with
  | nil =>
    rcases h.ending with ⟨p, hp, -⟩ | ⟨mark, hending⟩
    · rw [htokens] at hp
      exact absurd hp List.not_mem_nil
    · exact .inl ⟨mark, by rw [Supply.peek, htokens, hending]⟩
  | cons p rest =>
    exact .inr ⟨p, peek_cons htokens, h.tokens p (by rw [htokens]; exact List.mem_cons_self)⟩

/-- Passing markers leaves what is behind them. -/
theorem Bare.of_append (h : s.Bare) {front back : List Placed} (htokens : s.tokens = front ++ back)
    (hfront : ∀ p ∈ front, p.token ≠ .streamEnd) : { s with tokens := back }.Bare where
  tokens p hp := h.tokens p (by rw [htokens]; exact List.mem_append_right front hp)
  ending := h.ending.imp (fun ⟨p, hp, hend⟩ => ⟨p, by
    rw [htokens, List.mem_append] at hp
    exact hp.resolve_left fun hp => hfront p hp hend, hend⟩) id
  aliases := h.aliases

theorem Bare.skip (h : s.Bare) {p : Placed} (hpeek : s.peek = .ok p) (hp : p.token ≠ .streamEnd) :
    s.skip.Bare := by
  obtain ⟨rest, htokens⟩ := exists_cons_of_peek hpeek
  rw [Supply.skip, htokens, List.tail_cons]
  refine h.of_append (show s.tokens = [p] ++ rest from htokens) fun q hq => ?_
  rw [List.mem_singleton.mp hq]
  exact hp

theorem Bare.skipEnds (h : s.Bare) : s.skipEnds.Bare := by
  refine h.of_append List.takeWhile_append_dropWhile.symm fun p hp hend => ?_
  have hmarker := List.mem_takeWhile_imp hp
  rw [hend] at hmarker
  exact absurd hmarker (by decide)

theorem skipEnds_peek {p : Placed} (h : s.skipEnds.peek = .ok p) : p.token ≠ .documentEnd := by
  obtain ⟨rest, htokens⟩ := exists_cons_of_peek h
  have hhead :=
    List.head?_dropWhile_not (fun p : Placed => decide (p.token = .documentEnd)) s.tokens
  rw [show s.tokens.dropWhile _ = _ from htokens] at hhead
  intro hp
  simp [hp] at hhead

/-- A start marker that is ahead is passed. -/
theorem explicitStart_of_peek {p : Placed} (h : s.peek = .ok p) (hp : p.token = .documentStart) :
    s.explicitStart = .ok s.skip := by
  obtain ⟨rest, htokens⟩ := exists_cons_of_peek h
  obtain ⟨tokens, ending, declared, anchors, nodes, anchorCount, aliasCount⟩ := s
  obtain ⟨token, mark⟩ := p
  obtain rfl : tokens = _ := htokens
  obtain rfl : token = .documentStart := hp
  rfl

section Marker

variable {t : Token}

theorem isBoundary_of_marker (h : t = .documentStart ∨ t = .documentEnd ∨ t = .streamEnd) :
    isBoundary t = true := by
  rcases h with rfl | rfl | rfl <;> rfl

theorem isDirective_of_marker (h : t = .documentStart ∨ t = .documentEnd ∨ t = .streamEnd) :
    isDirective t = false := by
  rcases h with rfl | rfl | rfl <;> rfl

end Marker

/-! ## The first document -/

/-- What the root of the first document comes to where there are only markers. -/
inductive BareRoot : Except Fault (Option Parsed) → Prop
  | absent : BareRoot (.ok none)
  | refused (mark : Mark) : BareRoot (.error ⟨.plainEmpty, mark⟩)
  | cut (mark : Mark) : BareRoot (.ok (some (Node.stop ⟨.plainEmpty, mark⟩)))
  | empty (mark : Mark) {s : Supply} (h : s.Bare) :
      BareRoot (.ok (some (Node.empty mark, some s)))

theorem Bare.explicitRoot (h : s.Bare) : BareRoot (.ok (some s.explicitRoot)) := by
  rw [Supply.explicitRoot]
  rcases h.peek with ⟨mark, hpeek⟩ | ⟨p, hpeek, hp⟩
  · rw [hpeek]
    exact .cut mark
  · rw [hpeek]
    simp only [isBoundary_of_marker hp, if_true]
    exact .empty p.mark h

theorem Bare.firstRoot (h : s.Bare) : BareRoot s.firstRoot := by
  have hbare := h.skipEnds
  rw [Supply.firstRoot]
  rcases hbare.peek with ⟨mark, hpeek⟩ | ⟨p, hpeek, hstart | hend | hstream⟩
  · rw [hpeek]
    exact .refused mark
  · have hroot := (hbare.skip hpeek (by rw [hstart]; decide)).explicitRoot
    simp only [bind, Except.bind, hpeek, hstart, explicitStart_of_peek hpeek hstart]
    exact hroot
  · exact absurd hend (skipEnds_peek hpeek)
  · simp only [bind, Except.bind, hpeek, hstream, if_true]
    exact .absent

/-! ## The end of the document -/

/-- A second document is refused, and the first one has no aliases. -/
theorem Bare.checkEnd (h : s.Bare) :
    s.checkEnd = .ok () ∨ ∃ mark, s.checkEnd = .error ⟨.severalDocuments, mark⟩ ∨
      s.checkEnd = .error ⟨.plainEmpty, mark⟩ := by
  rw [Supply.checkEnd]
  rcases h.peek with ⟨mark, hpeek⟩ | ⟨p, hpeek, hp⟩
  · rw [hpeek]
    exact .inr ⟨mark, .inr rfl⟩
  · have hfew : ¬s.aliasCount ≥ minAliases := by
      rw [h.aliases]
      decide
    simp only [bind, Except.bind, hpeek, isDirective_of_marker hp, Bool.false_eq_true, if_false,
      hfew, decide_false, Bool.false_and]
    split
    next mark _ => exact .inr ⟨mark, .inl rfl⟩
    next => exact .inl rfl

end Supply

/-! ## The document -/

/-- There is no document, an empty one or a second one, or an indented marker is refused: in no
case is there a value with anything in it. -/
def HoldsNoValue (t : Text) : Prop :=
  document t = .ok .null ∨ ∃ mark, document t = .error ⟨.severalDocuments, mark⟩ ∨
    document t = .error ⟨.plainEmpty, mark⟩

theorem HoldsNoValue.eq_null {t : Text} (h : HoldsNoValue t) {v : Data} (hv : document t = .ok v) :
    v = .null := by
  rcases h with h | ⟨mark, h | h⟩
  · exact Except.ok.inj (hv.symm.trans h)
  · exact absurd (hv.symm.trans h) (by simp)
  · exact absurd (hv.symm.trans h) (by simp)

theorem not_hollow_of_byteOrderMark {t : Text} : ¬Hollow ('\uFEFF' :: t) := by
  intro h
  cases h with
  | blank h _ => exact absurd h (by decide)
  | lineBreak h _ => exact absurd h (by decide)
  | marker hm _ =>
    obtain ⟨m, hsign, ht, -⟩ := hm.signs
    rcases hsign with rfl | rfl
    · exact absurd (List.cons.inj ht).1 (by decide)
    · exact absurd (List.cons.inj ht).1 (by decide)

theorem dropByteOrderMark_of_hollow {t : Text} (h : Hollow (t.takeWhile (!isEnd ·))) :
    dropByteOrderMark t = t := by
  unfold dropByteOrderMark
  split
  next rest =>
    rw [List.takeWhile_cons_of_pos (by decide)] at h
    exact absurd h not_hollow_of_byteOrderMark
  next => rfl

/-- The value of the empty node is null, and what is behind it has the last word. -/
theorem document_of_empty {t : Text} {mark : Mark} {s : Supply}
    (h : (Supply.ofFeed (Feed.ofText (dropByteOrderMark t))).firstRoot =
      .ok (some (Node.empty mark, some s))) :
    document t = s.checkEnd.map fun _ => .null := by
  rw [document, h]
  rfl

/-- Without anything on its lines a text is no more than an empty document. -/
theorem holdsNoValue_of_lines {t : Text} (h : ∀ line ∈ lines t, isHollowLine line = true) :
    HoldsNoValue t := by
  have hbare := (Supply.bare_ofFeed (Feed.bare_ofText h)).firstRoot
  rw [← dropByteOrderMark_of_hollow (hollow_of_lines h)] at hbare
  generalize hroot :
    (Supply.ofFeed (Feed.ofText (dropByteOrderMark t))).firstRoot = root at hbare
  cases hbare with
  | absent => exact .inl (by rw [document, hroot]; rfl)
  | refused mark => exact .inr ⟨mark, .inr (by rw [document, hroot]; rfl)⟩
  | cut mark => exact .inr ⟨mark, .inr (by rw [document, hroot]; rfl)⟩
  | empty mark hback =>
    rw [HoldsNoValue, document_of_empty hroot]
    rcases hback.checkEnd with hend | ⟨mark, hend | hend⟩
    · rw [hend]
      exact .inl rfl
    · rw [hend]
      exact .inr ⟨mark, .inl rfl⟩
    · rw [hend]
      exact .inr ⟨mark, .inr rfl⟩

end Yaml
end PolicyLint
