/-
The tokens of a text that holds nothing.

Between two tokens of such a text no block and no flow collection is open and no key can have
begun, and only document markers are read.  A marker that is indented is refused, because the
plain scalar that it would be ends before its first character.
-/
import PolicyLint.Proofs.Yaml.Hollow
import PolicyLint.Yaml.Token.Stream

namespace PolicyLint
namespace Yaml

theorem Cursor.next_cons {c : Cursor} {x : Char} {t : Text} (h : c.rest = x :: t) : c.next = x := by
  rw [next, h, List.headD_cons]

theorem Cursor.next_nil {c : Cursor} (h : c.rest = []) : c.next = '\x00' := by
  rw [next, h, List.headD_nil]

theorem Cursor.pass_one {c : Cursor} {x : Char} {t : Text} (h : c.rest = x :: t) :
    (c.pass 1).rest = t := by
  rw [pass, h, List.drop_succ_cons, List.drop_zero]

theorem Cursor.passRun_rest (p : Char → Bool) (c : Cursor) :
    (c.passRun p).rest = c.rest.dropWhile p := by
  have hdrop : (c.rest.takeWhile p ++ c.rest.dropWhile p).drop (c.rest.takeWhile p).length =
      c.rest.dropWhile p := List.drop_left
  rwa [List.takeWhile_append_dropWhile] at hdrop

/-- A break is passed with the line feed that belongs to it; the next line is fresh. -/
theorem Cursor.passBreak_hollow {c : Cursor} {x : Char} {t : Text} (h : c.rest = x :: t)
    (hx : isBreak x = true) (ht : Hollow t) :
    Hollow c.passBreak.rest ∧ c.passBreak.fresh = true ∧ c.passBreak.rest.length ≤ t.length := by
  rw [passBreak.eq_def, h]
  split
  next rest hrest =>
    obtain ⟨-, rfl⟩ := List.cons.inj hrest
    exact ⟨ht.tail (.inr rfl), rfl, Nat.le_succ _⟩
  next rest _ hrest =>
    obtain ⟨-, rfl⟩ := List.cons.inj hrest
    exact ⟨ht, rfl, Nat.le_refl _⟩
  next rest hrest =>
    obtain ⟨-, rfl⟩ := List.cons.inj hrest
    exact ⟨ht, rfl, Nat.le_refl _⟩
  next hfeed hreturn hline =>
    simp only [isBreak, Bool.or_eq_true, decide_eq_true_eq] at hx
    rcases hx with rfl | rfl
    · exact absurd rfl (hline t)
    · exact absurd rfl (hreturn t)

theorem Cursor.startsMarker_cons {c : Cursor} {m n : Char} {rest : Text}
    (h : c.rest = n :: n :: n :: rest) (hgap : isGap (rest.headD '\x00') = true) :
    c.startsMarker m = decide (n = m) := by
  rw [startsMarker, h]
  simp only [hgap, Bool.and_true, Bool.and_self]

namespace State

/-- Nothing is open, and no key can have begun. -/
structure Idle (s : State) : Prop where
  keys : s.keys = [none]
  levels : s.levels = []
  indent : s.indent = -1

section Idle

variable {s : State}

theorem Idle.inFlow (h : s.Idle) : s.inFlow = false := by
  rw [State.inFlow, h.keys]
  rfl

theorem Idle.unroll (h : s.Idle) (column : Int) : s.unroll column = s := by
  rw [State.unroll, h.inFlow, h.levels]
  rfl

theorem Idle.dropKey (h : s.Idle) : s.dropKey = .ok s := by
  rw [State.dropKey, possibleKey, h.keys]
  rfl

theorem Idle.dropStaleKeys (h : s.Idle) : s.dropStaleKeys = .ok s := by
  rw [State.dropStaleKeys, h.keys]

/- Moving on and putting tokens down opens nothing. -/
theorem Idle.update (h : s.Idle) (cursor : Cursor) (placed : List Placed) (count settled : Nat)
    (keyAllowed : Bool) :
    { s with cursor, placed, count, settled, keyAllowed }.Idle :=
  ⟨h.keys, h.levels, h.indent⟩

end Idle

/-! ## Passing what holds nothing -/

/-- What is ahead holds nothing.  The line is fresh or nothing but blanks is ahead on it, so no
marker stands behind something else. -/
def Clear (c : Cursor) : Prop :=
  Hollow c.rest ∧ (c.fresh = true ∨ EndsLine c.rest)

/-- A place where passing stops: the end of the text, or a marker on a fresh line. -/
inductive AtStop (c : Cursor) : Prop
  | finish (h : c.rest = []) : AtStop c
  | marker {rest : Text} (hfresh : c.fresh = true) (hm : IsMarker c.rest rest) (h : Hollow rest) :
      AtStop c

section Blanks

variable {s : State} {f : Char} {fuel : Text}

theorem not_tab_indented (hlevels : s.levels = []) (b : Bool) :
    (b && !s.levels.isEmpty) = false := by
  rw [hlevels, List.isEmpty_nil, Bool.not_true, Bool.and_false]

theorem passBlanks_blank (hlevels : s.levels = []) (h : isBlank s.cursor.next = true) :
    passBlanks (f :: fuel) s = passBlanks fuel { s with cursor := s.cursor.pass 1 } := by
  rw [passBlanks]
  simp only [not_tab_indented hlevels, Bool.false_and, Bool.false_eq_true, if_false, h, if_true]

theorem passBlanks_break (hlevels : s.levels = []) (h : isBreak s.cursor.next = true) :
    passBlanks (f :: fuel) s = passBlanks fuel { s with
      cursor := s.cursor.passBreak, keyAllowed := s.keyAllowed || !s.inFlow } := by
  have hblank : isBlank s.cursor.next = false :=
    isBlank_ne_of_isBreakOrEnd (isBreakOrEnd_of_isBreak h)
  rw [passBlanks]
  simp only [not_tab_indented hlevels, Bool.false_and, Bool.false_eq_true, if_false, hblank, h,
    if_true]

theorem passBlanks_comment (hlevels : s.levels = []) (h : s.cursor.next = '#') :
    passBlanks (f :: fuel) s =
      passBlanks fuel { s with cursor := s.cursor.passRun (!isBreakOrEnd ·) } := by
  have hblank : isBlank '#' = false := rfl
  have hbreak : isBreak '#' = false := rfl
  rw [passBlanks]
  simp only [not_tab_indented hlevels, Bool.false_and, Bool.false_eq_true, if_false, h, hblank,
    hbreak, if_true]

theorem passBlanks_stop (hlevels : s.levels = []) (hblank : isBlank s.cursor.next = false)
    (hbreak : isBreak s.cursor.next = false) (hcomment : s.cursor.next ≠ '#') (fuel : Text) :
    passBlanks fuel s = .ok s := by
  cases fuel with
  | nil => rfl
  | cons f fuel =>
    rw [passBlanks]
    simp only [not_tab_indented hlevels, Bool.false_and, Bool.false_eq_true, if_false, hblank,
      hbreak, hcomment]

theorem passBlanks_atStop (hlevels : s.levels = []) (h : AtStop s.cursor) (fuel : Text) :
    passBlanks fuel s = .ok s := by
  cases h with
  | finish hrest =>
    have hnext := Cursor.next_nil hrest
    exact passBlanks_stop hlevels (by rw [hnext]; rfl) (by rw [hnext]; rfl)
      (by rw [hnext]; decide) fuel
  | marker hfresh hm h =>
    obtain ⟨m, -, ht, hblank, hbreak, -, hcomment⟩ := hm.signs
    have hnext := Cursor.next_cons ht
    exact passBlanks_stop hlevels (by rw [hnext, hblank]) (by rw [hnext, hbreak])
      (by rw [hnext]; exact hcomment) fuel

end Blanks

/-- One round of passing: either it is done, or it goes on with less of the text ahead. -/
theorem passBlanks_round {s : State} (hlevels : s.levels = []) (hclear : Clear s.cursor) :
    AtStop s.cursor ∨ ∃ c keyAllowed, Clear c ∧ c.rest.length < s.cursor.rest.length ∧
      ∀ (f : Char) (fuel : Text),
        passBlanks (f :: fuel) s = passBlanks fuel { s with cursor := c, keyAllowed } := by
  obtain ⟨hhollow, hline⟩ := hclear
  generalize hrest : s.cursor.rest = rest at hhollow hline
  cases hhollow with
  | finish => exact .inl (.finish hrest)
  | @blank x t hx h =>
    have hnext := Cursor.next_cons hrest
    have hpass := Cursor.pass_one hrest
    refine .inr ⟨s.cursor.pass 1, s.keyAllowed, ?_, ?_,
      fun f fuel => passBlanks_blank hlevels (by rw [hnext, hx])⟩
    · rw [Clear, hpass]
      exact ⟨h, hline.imp id (endsLine_cons hx).mp⟩
    · rw [hpass, List.length_cons]
      exact Nat.lt_succ_self _
  | @lineBreak x t hx h =>
    have hnext := Cursor.next_cons hrest
    obtain ⟨hafter, hfresh, hle⟩ := Cursor.passBreak_hollow hrest hx h
    refine .inr ⟨s.cursor.passBreak, _, ⟨hafter, .inl hfresh⟩, ?_,
      fun f fuel => passBlanks_break hlevels (by rw [hnext, hx])⟩
    rw [List.length_cons]
    exact Nat.lt_succ_of_le hle
  | @comment t h =>
    have hnext := Cursor.next_cons hrest
    have hfresh : s.cursor.fresh = true := hline.resolve_right (not_endsLine_cons rfl rfl)
    have hpass : (s.cursor.passRun (!isBreakOrEnd ·)).rest = t.dropWhile (!isBreakOrEnd ·) := by
      rw [Cursor.passRun_rest, hrest, List.dropWhile_cons_of_pos (by decide)]
    refine .inr ⟨s.cursor.passRun (!isBreakOrEnd ·), s.keyAllowed, ?_, ?_,
      fun f fuel => passBlanks_comment hlevels hnext⟩
    · rw [Clear, hpass]
      exact ⟨h, .inl hfresh⟩
    · rw [hpass, List.length_cons]
      exact Nat.lt_succ_of_le (List.dropWhile_suffix _).length_le
  | @marker _ back hm h =>
    obtain ⟨m, -, ht, hblank, hbreak, hend, -⟩ := hm.signs
    rw [ht] at hline
    have hfresh : s.cursor.fresh = true :=
      hline.resolve_right (not_endsLine_cons hblank (by rw [isBreakOrEnd, hbreak, hend]; rfl))
    exact .inl (.marker hfresh (by rw [hrest]; exact hm) h)

/-- Blanks, breaks and comments are passed up to the next marker or the end. -/
theorem passBlanks_clear (fuel : Text) : ∀ {s : State}, s.levels = [] → Clear s.cursor →
    s.cursor.rest.length ≤ fuel.length →
    ∃ c keyAllowed, passBlanks fuel s = .ok { s with cursor := c, keyAllowed } ∧ AtStop c ∧
      c.rest.length ≤ s.cursor.rest.length := by
  induction fuel with
  | nil =>
    intro s hlevels hclear hfuel
    have hrest : s.cursor.rest = [] := List.length_eq_zero_iff.mp (Nat.le_zero.mp hfuel)
    exact ⟨s.cursor, s.keyAllowed, rfl, .finish hrest, Nat.le_refl _⟩
  | cons f fuel ih =>
    intro s hlevels hclear hfuel
    rw [List.length_cons] at hfuel
    rcases passBlanks_round hlevels hclear with hstop | ⟨c, keyAllowed, hclear', hshort, hround⟩
    · exact ⟨s.cursor, s.keyAllowed, passBlanks_atStop hlevels hstop _, hstop, Nat.le_refl _⟩
    · obtain ⟨c', keyAllowed', hpass, hstop, hle⟩ :=
        ih (s := { s with cursor := c, keyAllowed }) hlevels hclear'
          (Nat.le_of_lt_succ (Nat.lt_of_lt_of_le hshort hfuel))
      exact ⟨c', keyAllowed', (hround f fuel).trans hpass, hstop,
        Nat.le_trans hle (Nat.le_of_lt hshort)⟩

/-! ## One step -/

/-- What a step comes to where nothing is open and what is ahead holds nothing: the end of the
text, a marker with something shorter ahead, or the refusal of an indented marker. -/
inductive Stepped (s : State) : Except Fault State → Prop
  | ended {s' : State} {mark : Mark} (hidle : s'.Idle)
      (hplaced : s'.placed = ⟨.streamEnd, mark⟩ :: s.placed) : Stepped s (.ok s')
  | marked {s' : State} {p : Placed} (hidle : s'.Idle) (hclear : Clear s'.cursor)
      (hshort : s'.cursor.rest.length < s.cursor.rest.length) (hplaced : s'.placed = p :: s.placed)
      (hp : p.token = .documentStart ∨ p.token = .documentEnd) : Stepped s (.ok s')
  | refused (mark : Mark) : Stepped s (.error ⟨.plainEmpty, mark⟩)

section Marker

variable {s : State} {back : Text}

theorem Idle.endStream (h : s.Idle) :
    ∃ cursor mark,
      s.endStream = .ok ({ s with cursor, keyAllowed := false }.push .streamEnd mark) := by
  obtain ⟨cursor, placed, count, settled, keyAllowed, keys, indent, levels, adjacent, mappingBegun,
    pairs⟩ := s
  obtain ⟨rfl, rfl, rfl⟩ := h
  exact ⟨_, _, rfl⟩

theorem Idle.documentMarker (h : s.Idle) (token : Token) :
    s.documentMarker token =
      .ok ({ s with cursor := s.cursor.take 3, keyAllowed := false }.push token s.mark) := by
  rw [State.documentMarker, endBlocks, h.unroll, h.dropKey]
  rfl

/-- Passing blanks finds the end of the line. -/
theorem toLineEnd_of_endsLine {c : Cursor} (h : EndsLine c.rest) :
    c.toLineEnd = .ok (c.passRun isBlank) := by
  have hnext : isBreakOrEnd (c.passRun isBlank).next = true := by
    rw [Cursor.next, Cursor.passRun_rest]
    exact h
  have hcomment : (c.passRun isBlank).next ≠ '#' := by
    intro hhash
    rw [hhash] at hnext
    exact absurd hnext (by decide)
  have hline : c.passLine true = .ok (_, c.passRun isBlank) := if_neg hcomment
  rw [Cursor.toLineEnd, hline]
  rfl

theorem take_three {c : Cursor} (hm : IsMarker c.rest back) : (c.take 3).rest = back := by
  obtain ⟨m, -, ht, -⟩ := hm
  rw [Cursor.take, Cursor.pass, ht]
  rfl

theorem Idle.stepped_documentStart (h : s.Idle) (hm : IsMarker s.cursor.rest back)
    (hback : Hollow back) : Stepped s (s.documentMarker .documentStart) := by
  have hrest := take_three hm
  rw [h.documentMarker]
  refine .marked (h.update _ _ _ _ _) ?_ ?_ rfl (.inl rfl)
  · show Clear (s.cursor.take 3)
    rw [Clear, hrest]
    exact ⟨hback, .inr hm.endsLine⟩
  · show (s.cursor.take 3).rest.length < s.cursor.rest.length
    rw [hrest]
    exact hm.length_lt

theorem Idle.stepped_documentEnd (h : s.Idle) (hm : IsMarker s.cursor.rest back)
    (hback : Hollow back) : Stepped s s.documentEnd := by
  have hrest := take_three hm
  have hends : EndsLine (s.cursor.take 3).rest := by
    rw [hrest]
    exact hm.endsLine
  have hafter : ((s.cursor.take 3).passRun isBlank).rest = back.dropWhile isBlank := by
    rw [Cursor.passRun_rest, hrest]
  have hend : s.documentEnd =
      .ok { { s with cursor := s.cursor.take 3, keyAllowed := false }.push .documentEnd s.mark with
        cursor := (s.cursor.take 3).passRun isBlank } := by
    have hnext : isBreakOrEnd ((s.cursor.take 3).passRun isBlank).next = true := by
      rw [Cursor.next, hafter]
      exact hm.endsLine
    rw [State.documentEnd, h.documentMarker]
    simp only [bind, Except.bind, State.toLineEnd, push, toLineEnd_of_endsLine hends, hnext,
      if_true]
  rw [hend]
  refine .marked (h.update _ _ _ _ _) ?_ ?_ rfl (.inr rfl)
  · show Clear ((s.cursor.take 3).passRun isBlank)
    rw [Clear, hafter]
    exact ⟨hback.dropBlanks, .inr hm.endsLine.dropBlanks⟩
  · show ((s.cursor.take 3).passRun isBlank).rest.length < s.cursor.rest.length
    rw [hafter]
    exact Nat.lt_of_le_of_lt (List.dropWhile_suffix _).length_le hm.length_lt

/- A key that may begin at a plain scalar opens no flow collection. -/
theorem Idle.beginScalar (h : s.Idle) :
    ((s.saveKey.allowKey false).unrollSilent).inFlow = false ∧
      ((s.saveKey.allowKey false).unrollSilent).cursor = s.cursor := by
  obtain ⟨cursor, placed, count, settled, keyAllowed, keys, indent, levels, adjacent, mappingBegun,
    pairs⟩ := s
  obtain ⟨rfl, rfl, rfl⟩ := h
  cases keyAllowed with
  | true => exact ⟨rfl, rfl⟩
  | false => exact ⟨rfl, rfl⟩

/-- A plain scalar ends before a marker on a fresh line, so there it would be empty. -/
theorem Idle.plainScalar_marker (h : s.Idle) (hfresh : s.cursor.fresh = true)
    (hm : IsMarker s.cursor.rest back) : s.plainScalar = .error ⟨.plainEmpty, s.mark⟩ := by
  obtain ⟨m, hmarker, ht, hends⟩ := hm
  have hat : s.cursor.atDocumentMarker = true := by
    rw [Cursor.atDocumentMarker, Cursor.atDocumentStart, Cursor.atDocumentEnd,
      Cursor.startsMarker_cons ht hends.isGap, Cursor.startsMarker_cons ht hends.isGap]
    rcases hmarker with rfl | rfl <;> rfl
  have hread : ∀ indent, Plain.read false indent s.cursor = .error ⟨.plainEmpty, s.mark⟩ := by
    intro indent
    rw [Plain.read, ht, Plain.words, hat, hfresh]
    rfl
  obtain ⟨hflow, hcursor⟩ := h.beginScalar
  rw [plainScalar]
  simp only [hflow, hcursor, hread, bind, Except.bind]

/-- The characters of a marker begin a plain scalar where they are no marker. -/
theorem dispatch_marker (hm : IsMarker s.cursor.rest back) : s.dispatch = s.plainScalar := by
  obtain ⟨m, hmarker, ht, -⟩ := hm
  have hnext := Cursor.next_cons ht
  have hsecond : s.cursor.second = m := by
    rw [Cursor.second, ht]
    rfl
  rw [dispatch, hnext, hsecond]
  rcases hmarker with rfl | rfl <;> rfl

theorem Stepped.mono {s s' : State} {r : Except Fault State} (h : Stepped s' r)
    (hplaced : s'.placed = s.placed) (hle : s'.cursor.rest.length ≤ s.cursor.rest.length) :
    Stepped s r := by
  cases h with
  | ended hidle h => exact .ended hidle (h.trans (by rw [hplaced]))
  | marked hidle hclear hshort h hp =>
    exact .marked hidle hclear (Nat.lt_of_lt_of_le hshort hle) (h.trans (by rw [hplaced])) hp
  | refused mark => exact .refused mark

theorem Idle.stepped_atStop (h : s.Idle) (hstop : AtStop s.cursor) : Stepped s s.fetch := by
  have htoken : s.toToken = .ok s := passBlanks_atStop h.levels hstop _
  rw [fetch, htoken]
  simp only [bind, Except.bind, h.dropStaleKeys, h.unroll]
  cases hstop with
  | finish hrest =>
    obtain ⟨cursor, mark, hend⟩ := h.endStream
    rw [Cursor.next_nil hrest, if_pos (show isEnd '\x00' = true from rfl), hend]
    exact .ended (h.update _ _ _ _ _) rfl
  | @marker back hfresh hm hback =>
    obtain ⟨m, hmarker, ht, -, -, hend, -⟩ := hm.signs
    have hpercent : ¬(decide (s.cursor.column = 0) && decide (m = '%')) = true := by
      rcases hmarker with rfl | rfl <;> simp
    have hindent : ¬(s.column : Int) < s.indent := by
      rw [h.indent]
      omega
    rw [Cursor.next_cons ht, if_neg (by rw [hend]; exact Bool.false_ne_true), if_neg hpercent,
      Cursor.atDocumentStart, Cursor.atDocumentEnd, Cursor.startsMarker_cons ht hm.endsLine.isGap,
      Cursor.startsMarker_cons ht hm.endsLine.isGap, if_neg hindent, dispatch_marker hm,
      h.plainScalar_marker hfresh hm]
    -- At the margin it is one of the two markers, anywhere else it is refused.
    by_cases hcolumn : s.cursor.column = 0
    · rcases hmarker with rfl | rfl
      · rw [if_pos (by simp [hcolumn])]
        exact h.stepped_documentStart hm hback
      · rw [if_neg (by simp), if_pos (by simp [hcolumn])]
        exact h.stepped_documentEnd hm hback
    · rw [if_neg (by simp [hcolumn]), if_neg (by simp [hcolumn])]
      exact .refused s.mark

theorem Idle.stepped_fetch (h : s.Idle) (hclear : Clear s.cursor) : Stepped s s.fetch := by
  obtain ⟨c, keyAllowed, hpass, hstop, hle⟩ :=
    passBlanks_clear s.cursor.rest h.levels hclear (Nat.le_refl _)
  have hidle : { s with cursor := c, keyAllowed }.Idle := h.update _ _ _ _ _
  have htoken : s.toToken = .ok { s with cursor := c, keyAllowed } := hpass
  have hthere : s.fetch = { s with cursor := c, keyAllowed }.fetch := by
    rw [fetch, htoken, fetch, show toToken _ = _ from passBlanks_atStop hidle.levels hstop _]
  rw [hthere]
  exact (hidle.stepped_atStop hstop).mono rfl hle

/-- One step of the scanner. -/
theorem Idle.stepped (h : s.Idle) (hclear : Clear s.cursor) : Stepped s s.step := by
  have hidle : { s with settled := s.settledCount }.Idle := h.update _ _ _ _ _
  have hfetch : Stepped s { s with settled := s.settledCount }.fetch :=
    (hidle.stepped_fetch hclear).mono rfl (Nat.le_refl _)
  rw [step]
  cases hr : { s with settled := s.settledCount }.fetch with
  | error f =>
    rw [hr] at hfetch
    exact hfetch
  | ok s' =>
    rw [hr] at hfetch
    have hidle' : s'.Idle := by
      cases hfetch with
      | ended hidle _ => exact hidle
      | marked hidle _ _ _ _ => exact hidle
    show Stepped s s'.dropStaleKeys
    rw [hidle'.dropStaleKeys]
    exact hfetch

end Marker

/-! ## The whole run -/

theorem run_of_ended {s : State} {mark : Mark} {before : List Placed}
    (h : s.placed = ⟨.streamEnd, mark⟩ :: before) (fuel : Nat) :
    run fuel s = ⟨s.placed.reverse, none⟩ := by
  cases fuel with
  | zero => rfl
  | succ fuel =>
    have hended : s.ended = true := by
      rw [State.ended, h]
      rfl
    rw [run, hended, if_pos rfl]

end State

/-- Document markers only, and then the end of the text or a marker that is refused. -/
structure Feed.Bare (f : Feed) : Prop where
  tokens : ∀ p ∈ f.tokens,
    p.token = .documentStart ∨ p.token = .documentEnd ∨ p.token = .streamEnd
  ending : (∃ p ∈ f.tokens, p.token = .streamEnd) ∨ ∃ mark, f.fault = some ⟨.plainEmpty, mark⟩

namespace State

theorem not_ended {s : State}
    (h : ∀ p ∈ s.placed, p.token = .documentStart ∨ p.token = .documentEnd) : s.ended = false := by
  rw [State.ended]
  split
  next p before hplaced =>
    rcases h p (by rw [hplaced]; exact List.mem_cons_self) with hp | hp <;> rw [hp] <;> rfl
  next => rfl

/-- What is put down stays a list of markers up to the end of the text. -/
theorem bare_run (fuel : Nat) : ∀ {s : State}, s.Idle → Clear s.cursor →
    s.cursor.rest.length < fuel →
    (∀ p ∈ s.placed, p.token = .documentStart ∨ p.token = .documentEnd) → (run fuel s).Bare := by
  induction fuel with
  | zero => exact fun _ _ hfuel => absurd hfuel (Nat.not_lt_zero _)
  | succ fuel ih =>
    intro s hidle hclear hfuel hplaced
    have hstep := hidle.stepped hclear
    rw [run, not_ended hplaced, if_neg Bool.false_ne_true]
    generalize s.step = r at hstep
    cases hstep with
    | @ended s' mark hidle' h =>
      show (run fuel s').Bare
      rw [run_of_ended h, h]
      refine ⟨fun p hp => ?_, .inl ⟨⟨.streamEnd, mark⟩, by simp, rfl⟩⟩
      rw [List.mem_reverse, List.mem_cons] at hp
      rcases hp with rfl | hp
      · exact .inr (.inr rfl)
      · exact (hplaced p hp).imp id .inl
    | @marked s' p hidle' hclear' hshort h hp =>
      refine ih hidle' hclear' (by omega) fun q hq => ?_
      rw [h, List.mem_cons] at hq
      rcases hq with rfl | hq
      · exact hp
      · exact hplaced q hq
    | refused mark =>
      refine ⟨fun p hp => ?_, .inr ⟨mark, rfl⟩⟩
      exact (hplaced p (List.mem_reverse.mp (List.mem_of_mem_take hp))).imp id .inl

end State

/-- A text whose lines hold nothing has no tokens but markers. -/
theorem Feed.bare_ofText {t : Text} (h : ∀ line ∈ lines t, isHollowLine line = true) :
    (Feed.ofText t).Bare := by
  have hlength : (t.takeWhile (!isEnd ·)).length ≤ t.length := (List.takeWhile_prefix _).length_le
  refine State.bare_run _ ⟨rfl, rfl, rfl⟩ ⟨hollow_of_lines h, .inl rfl⟩ ?_ fun p hp => ?_
  · exact Nat.lt_of_le_of_lt hlength (by omega)
  · exact absurd hp List.not_mem_nil

end Yaml
end PolicyLint
