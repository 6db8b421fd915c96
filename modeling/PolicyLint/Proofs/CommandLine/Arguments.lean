/-
How arguments add up to a request.

Arguments are taken from left to right, and an option settles the one before it.  A scan is
asked for only when all of them have been taken.  Flags for verbosity may stand anywhere
among them and do nothing but raise a number.
-/
import PolicyLint.CommandLine.Arguments
import PolicyLint.Proofs.Except

namespace PolicyLint
namespace CommandLine

/-- How often an argument is the flag for verbosity, which may be written as a letter more
than once. -/
def flagCount (argument : Bytes) : Nat :=
  if argument = Bytes.of "--verbose" then 1
  else
    match argument with
    | dash :: letters => if letters.all (· = Flag.verbose.letter) then letters.length else 0
    | _ => 0

/-- The arguments without the flags for verbosity. -/
def quiet (args : List Bytes) : List Bytes :=
  args.filter (flagCount · = 0)

/-- How often the arguments hold the flag for verbosity. -/
def loudness : (args : List Bytes) → Nat
  | [] => 0
  | a :: rest => flagCount a + loudness rest

namespace Given

theorem arguments_cons {a : Bytes} {g g' : Given} (ha : a ≠ [dash, dash])
    (h : argument a g = .ok g') (rest : List Bytes) : arguments (a :: rest) g = arguments rest g' := by
  rw [arguments.eq_def]
  dsimp only
  rw [if_neg ha, h]
  rfl

theorem argument_root {root : Bytes} (hroot : root ≠ []) (output : Option Output) (n : Nat) :
    argument (Bytes.of "--root=" ++ root) ⟨none, output, n, none⟩ =
      .ok ⟨some root, output, n, none⟩ := by
  have hempty : root.isEmpty = false := List.isEmpty_eq_false_iff.mpr hroot
  show assign .root root ⟨none, output, n, none⟩ = _
  simp only [assign, Option.isSome_none, hempty, Bool.false_eq_true, if_false]

theorem argument_format (root : Option Bytes) (output : Output) (n : Nat) :
    argument (Bytes.of "--format=" ++ output.name.utf8) ⟨root, none, n, none⟩ =
      .ok ⟨root, some output, n, none⟩ := by
  cases output <;> rfl

/-! ## What reading can end in -/

/-- A root that has been given is not empty. -/
def HasName (g : Given) : Prop :=
  g.root ≠ some []

/-- What ends the reading of arguments early is no scan, and reading on never takes an empty
root. -/
def Sound : Except Request Given → Prop
  | .error r => ∀ o, r ≠ .scan o
  | .ok g => g.HasName

theorem Sound.bind {x : Except Request Given} {f : Given → Except Request Given} (hx : Sound x)
    (hf : ∀ g : Given, g.HasName → Sound (f g)) : Sound (x.bind f) := by
  cases x with
  | error r => exact hx
  | ok g => exact hf g hx

theorem sound_assign (s : Setting) (value : Bytes) {g : Given} (hg : g.HasName) :
    Sound (assign s value g) := by
  cases s with
  | root =>
    simp only [assign]
    split
    · exact fun o h => nomatch h
    · split
      · exact fun o h => nomatch h
      · next hempty =>
        intro hroot
        exact hempty (List.isEmpty_iff.mpr (Option.some.inj hroot))
  | format =>
    simp only [assign]
    split
    · exact fun o h => nomatch h
    · split
      · exact hg
      · exact fun o h => nomatch h

theorem sound_settle {g : Given} (hg : g.HasName) : Sound g.settle := by
  rw [settle]
  split
  · exact hg
  · exact fun o h => nomatch h
  · exact sound_assign _ _ hg

theorem sound_raise (f : Flag) {g : Given} (hg : g.HasName) : Sound (raise f g) := by
  apply Sound.bind (sound_settle hg)
  intro g hg
  cases f with
  | verbose => exact hg
  | help => exact fun o h => nomatch h
  | version => exact fun o h => nomatch h

theorem sound_letters (cs : Bytes) : ∀ {g : Given}, g.HasName → Sound (letters cs g) := by
  induction cs with
  | nil => exact fun hg => hg
  | cons c cs ih =>
    intro g hg
    rw [letters]
    cases Flag.all.find? (·.letter = c) with
    | none => exact fun o h => nomatch h
    | some f => exact Sound.bind (sound_raise f hg) fun g hg => ih hg

theorem sound_long (name : Bytes) (value : Option Bytes) {g : Given} (hg : g.HasName) :
    Sound (long name value g) := by
  unfold long
  cases [Setting.root, Setting.format].find? (·.name = name) with
  | some s =>
    apply Sound.bind (sound_settle hg)
    intro g hg
    cases value with
    | none => exact hg
    | some v => exact sound_assign s v hg
  | none =>
    cases Flag.all.find? (·.name = name) with
    | none => exact fun o h => nomatch h
    | some f =>
      cases value with
      | none => exact sound_raise f hg
      | some v => exact fun o h => nomatch h

theorem sound_argument (a : Bytes) {g : Given} (hg : g.HasName) : Sound (argument a g) := by
  unfold argument
  split
  · exact sound_long _ _ hg
  · exact sound_letters _ hg
  · rw [word]
    split
    · exact hg
    · exact fun o h => nomatch h

theorem sound_arguments (args : List Bytes) :
    ∀ {g : Given}, g.HasName → Sound (arguments args g) := by
  induction args with
  | nil => exact fun hg => sound_settle hg
  | cons a args ih =>
    intro g hg
    rw [arguments.eq_def]
    dsimp only
    by_cases ha : a = [dash, dash]
    · rw [if_pos ha]
      cases args with
      | nil => exact sound_settle hg
      | cons b args => exact fun o h => nomatch h
    · rw [if_neg ha]
      exact Sound.bind (sound_argument a hg) fun g hg => ih hg

theorem sound_start (args : List Bytes) : Sound (arguments args start) :=
  sound_arguments args fun hroot => nomatch hroot

/-! ## More verbosity beforehand -/

def louder (n : Nat) (g : Given) : Given :=
  { g with verbosity := g.verbosity + n }

theorem louder_louder (m n : Nat) (g : Given) : (g.louder m).louder n = g.louder (m + n) := by
  unfold louder
  rw [Nat.add_assoc]

theorem assign_louder (n : Nat) (s : Setting) (value : Bytes) (g : Given) :
    assign s value (g.louder n) = (assign s value g).map (louder n) := by
  cases s with
  | root =>
    show (if g.root.isSome then _ else if value.isEmpty then _ else _) = _
    unfold assign
    cases g.root.isSome with
    | true => rfl
    | false => cases value.isEmpty <;> rfl
  | format =>
    show (if g.output.isSome then _ else _) = _
    unfold assign
    cases g.output.isSome with
    | true => rfl
    | false => cases Output.ofName value <;> rfl

theorem settle_louder (n : Nat) (g : Given) : (g.louder n).settle = g.settle.map (louder n) := by
  obtain ⟨root, output, verbosity, pending⟩ := g
  cases pending with
  | none => rfl
  | some p =>
    obtain ⟨s, value⟩ := p
    cases value with
    | none => rfl
    | some value => exact assign_louder n s value ⟨root, output, verbosity, none⟩

theorem raise_louder (n : Nat) (f : Flag) (g : Given) :
    raise f (g.louder n) = (raise f g).map (louder n) := by
  unfold raise
  rw [settle_louder]
  cases g.settle with
  | error r => rfl
  | ok g =>
    cases f with
    | verbose =>
      show Except.ok { g.louder n with verbosity := g.verbosity + n + 1 } = _
      rw [Nat.add_right_comm]
      rfl
    | help => rfl
    | version => rfl

theorem letters_louder (n : Nat) (cs : Bytes) : ∀ g : Given,
    letters cs (g.louder n) = (letters cs g).map (louder n) := by
  induction cs with
  | nil => exact fun _ => rfl
  | cons c cs ih =>
    intro g
    rw [letters, letters]
    cases Flag.all.find? (·.letter = c) with
    | none => rfl
    | some f =>
      dsimp only
      rw [raise_louder]
      cases raise f g with
      | error r => rfl
      | ok g => exact ih g

theorem long_louder (n : Nat) (name : Bytes) (value : Option Bytes) (g : Given) :
    long name value (g.louder n) = (long name value g).map (louder n) := by
  unfold long
  cases [Setting.root, Setting.format].find? (·.name = name) with
  | some s =>
    dsimp only
    rw [settle_louder]
    cases g.settle with
    | error r => rfl
    | ok g =>
      cases value with
      | none => rfl
      | some v => exact assign_louder n s v g
  | none =>
    cases Flag.all.find? (·.name = name) with
    | none => rfl
    | some f =>
      cases value with
      | none => exact raise_louder n f g
      | some v => rfl

theorem word_louder (n : Nat) (a : Bytes) (g : Given) :
    word a (g.louder n) = (word a g).map (louder n) := by
  obtain ⟨root, output, verbosity, pending⟩ := g
  cases pending with
  | none => rfl
  | some p =>
    obtain ⟨s, value⟩ := p
    cases value <;> rfl

theorem argument_louder (n : Nat) (a : Bytes) (g : Given) :
    argument a (g.louder n) = (argument a g).map (louder n) := by
  unfold argument
  split
  · exact long_louder n _ _ g
  · exact letters_louder n _ g
  · exact word_louder n a g

theorem arguments_louder (n : Nat) (args : List Bytes) : ∀ g : Given,
    arguments args (g.louder n) = (arguments args g).map (louder n) := by
  induction args with
  | nil => exact settle_louder n
  | cons a args ih =>
    intro g
    rw [arguments.eq_def, arguments.eq_def (a :: args)]
    dsimp only
    by_cases ha : a = [dash, dash]
    · rw [if_pos ha, if_pos ha]
      cases args with
      | nil => exact settle_louder n g
      | cons b args => rfl
    · rw [if_neg ha, if_neg ha, argument_louder]
      cases argument a g with
      | error r => rfl
      | ok g => exact ih g

/-! ## Options settle what is pending -/

theorem settle_of_pending_none {g : Given} (h : g.pending = none) : g.settle = .ok g := by
  rw [settle, h]

theorem assign_pending {s : Setting} {value : Bytes} {g g' : Given}
    (h : assign s value g = .ok g') : g'.pending = g.pending := by
  cases s with
  | root =>
    simp only [assign] at h
    split at h
    · exact nomatch h
    · split at h
      · exact nomatch h
      · rw [← Except.ok.inj h]
  | format =>
    simp only [assign] at h
    split at h
    · exact nomatch h
    · split at h
      · rw [← Except.ok.inj h]
      · exact nomatch h

section Settled

variable {g g' : Given} (h : g.settle = .ok g')
include h

theorem pending_of_settle : g'.pending = none := by
  rw [settle] at h
  split at h
  · next hp => rw [← Except.ok.inj h, hp]
  · exact nomatch h
  · exact assign_pending h

theorem settle_settled : g'.settle = .ok g' :=
  settle_of_pending_none (pending_of_settle h)

theorem raise_of_settle (f : Flag) : raise f g = raise f g' := by
  rw [raise, raise, h, settle_settled h]

theorem letters_of_settle (c : UInt8) (cs : Bytes) :
    letters (c :: cs) g = letters (c :: cs) g' := by
  rw [letters, letters]
  cases Flag.all.find? (·.letter = c) with
  | none => rfl
  | some f =>
    dsimp only
    rw [raise_of_settle h]

theorem long_of_settle (name : Bytes) (value : Option Bytes) :
    long name value g = long name value g' := by
  unfold long
  cases [Setting.root, Setting.format].find? (·.name = name) with
  | some s =>
    dsimp only
    rw [h, settle_settled h]
  | none =>
    cases Flag.all.find? (·.name = name) with
    | none => rfl
    | some f =>
      cases value with
      | none => exact raise_of_settle h f
      | some v => rfl

/- A word could be the value of an option before it, but not once that is settled. -/
theorem argument_of_settle {a : Bytes} {r : Given} (hr : argument a g' = .ok r) :
    argument a g = .ok r := by
  unfold argument at hr ⊢
  split at hr
  · rw [long_of_settle h]
    exact hr
  · rw [letters_of_settle h]
    exact hr
  · rw [word, pending_of_settle h] at hr
    exact nomatch hr

theorem arguments_of_settle {args : List Bytes} {r : Given} (hr : arguments args g' = .ok r) :
    arguments args g = .ok r := by
  rw [arguments.eq_def] at hr ⊢
  cases args with
  | nil =>
    dsimp only at hr ⊢
    rw [h, ← settle_settled h, hr]
  | cons a args =>
    dsimp only at hr ⊢
    by_cases ha : a = [dash, dash]
    · rw [if_pos ha] at hr ⊢
      cases args with
      | nil =>
        dsimp only at hr ⊢
        rw [h, ← settle_settled h, hr]
      | cons b args => exact nomatch hr
    · rw [if_neg ha] at hr ⊢
      obtain ⟨g'', ha', hrest⟩ := bind_eq_ok_iff.mp hr
      exact bind_eq_ok_iff.mpr ⟨g'', argument_of_settle h ha', hrest⟩

end Settled

/-! ## Flags for verbosity -/

theorem raise_verbose (g : Given) : raise .verbose g = g.settle.map (louder 1) := by
  unfold raise
  cases g.settle <;> rfl

theorem letters_verbose (n : Nat) : ∀ g : Given,
    letters (List.replicate (n + 1) Flag.verbose.letter) g = g.settle.map (louder (n + 1)) := by
  have hletter : Flag.all.find? (·.letter = Flag.verbose.letter) = some .verbose := by decide
  induction n with
  | zero =>
    intro g
    rw [List.replicate_succ, letters, hletter]
    dsimp only
    rw [raise_verbose]
    cases g.settle <;> rfl
  | succ n ih =>
    intro g
    rw [List.replicate_succ, letters, hletter]
    dsimp only
    rw [raise_verbose]
    cases hg : g.settle with
    | error r => rfl
    | ok g' =>
      show letters (List.replicate (n + 1) Flag.verbose.letter) (g'.louder 1) =
        .ok (g'.louder (n + 1 + 1))
      rw [ih, settle_louder, settle_settled hg]
      show Except.ok ((g'.louder 1).louder (n + 1)) = _
      rw [louder_louder, Nat.add_comm 1]

theorem argument_flag {a : Bytes} (h : flagCount a ≠ 0) (g : Given) :
    argument a g = g.settle.map (louder (flagCount a)) := by
  by_cases ha : a = Bytes.of "--verbose"
  · rw [ha]
    exact raise_verbose g
  · unfold flagCount at h ⊢
    rw [if_neg ha] at h ⊢
    split at h
    · next letters =>
      by_cases hv : letters.all (· = Flag.verbose.letter) = true
      · rw [if_pos hv] at h
        obtain ⟨n, hn⟩ := Nat.exists_eq_succ_of_ne_zero h
        have hletters : letters = List.replicate (n + 1) Flag.verbose.letter := by
          apply List.eq_replicate_iff.mpr
          exact ⟨hn, fun c hc => of_decide_eq_true (List.all_eq_true.mp hv c hc)⟩
        rw [if_pos hv, hn, hletters]
        exact letters_verbose n g
      · rw [if_neg hv] at h
        exact absurd rfl h
    · exact absurd rfl h

theorem arguments_verbose (n : Nat) (g : Given) (h : g.pending = none) :
    arguments (List.replicate n (Bytes.of "-v")) g = .ok (g.louder n) := by
  induction n generalizing g with
  | zero => exact settle_of_pending_none h
  | succ n ih =>
    have hstep : argument (Bytes.of "-v") g = .ok (g.louder 1) := by
      rw [argument_flag (by decide), settle_of_pending_none h]
      rfl
    rw [List.replicate_succ, arguments_cons (by decide) hstep, ih (g.louder 1) h, louder_louder,
      Nat.add_comm]

/- The arguments are taken from left to right; a flag that is left out settles nothing, but
what it would have settled is settled by the next option or at the end. -/
theorem arguments_quiet {args : List Bytes} : ∀ {g g' : Given}, arguments args g = .ok g' →
    ∃ g₀, arguments (quiet args) g = .ok g₀ ∧ g' = g₀.louder (loudness args) := by
  induction args with
  | nil => exact fun {g g'} h => ⟨g', h, rfl⟩
  | cons a args ih =>
    intro g g' h
    have hloudness : loudness (a :: args) = flagCount a + loudness args := rfl
    by_cases ha : a = [dash, dash]
    · have hcount : flagCount a = 0 := by
        rw [ha]
        decide
      rw [arguments.eq_def] at h
      dsimp only at h
      rw [if_pos ha] at h
      cases args with
      | nil =>
        rw [hloudness, hcount, ha]
        exact ⟨g', h, rfl⟩
      | cons b args => exact nomatch h
    · rw [arguments.eq_def] at h
      dsimp only at h
      rw [if_neg ha] at h
      obtain ⟨g₁, hargument, hrest⟩ := bind_eq_ok_iff.mp h
      by_cases hcount : flagCount a = 0
      · obtain ⟨g₀, hquiet, hg⟩ := ih hrest
        refine ⟨g₀, ?_, ?_⟩
        · rw [quiet, List.filter_cons_of_pos (by simp [hcount]), arguments_cons ha hargument]
          exact hquiet
        · rw [hloudness, hcount, Nat.zero_add]
          exact hg
      · rw [argument_flag hcount] at hargument
        obtain ⟨g₂, hsettle, hg₁⟩ := map_eq_ok_iff.mp hargument
        rw [← hg₁, arguments_louder] at hrest
        obtain ⟨g₃, hrest, hg'⟩ := map_eq_ok_iff.mp hrest
        obtain ⟨g₀, hquiet, hg₃⟩ := ih hrest
        refine ⟨g₀, ?_, ?_⟩
        · rw [quiet, List.filter_cons_of_neg (by simp [hcount])]
          exact arguments_of_settle hsettle hquiet
        · rw [← hg', hg₃, louder_louder, hloudness, Nat.add_comm]

end Given

/-- Arguments that ask for a scan with the options. -/
def Options.spelled (o : Options) : List Bytes :=
  (Bytes.of "--root=" ++ o.root) :: (Bytes.of "--format=" ++ o.output.name.utf8) ::
    List.replicate o.verbosity (Bytes.of "-v")

/-- Every root but the empty one can be asked for, in either format, with any verbosity. -/
theorem request_spelled {o : Options} (h : o.root ≠ []) : request o.spelled = .scan o := by
  have hroot : Bytes.of "--root=" ++ o.root ≠ [dash, dash] := fun he => nomatch he
  have hformat : Bytes.of "--format=" ++ o.output.name.utf8 ≠ [dash, dash] := fun he => nomatch he
  have hread : Given.start.arguments o.spelled =
      .ok ⟨some o.root, some o.output, o.verbosity, none⟩ := by
    rw [Options.spelled, Given.start, Given.arguments_cons hroot (Given.argument_root h none 0),
      Given.arguments_cons hformat (Given.argument_format (some o.root) o.output 0),
      Given.arguments_verbose _ _ rfl, Given.louder, Nat.zero_add]
  rw [request, hread]
  rfl

theorem request_eq_scan_iff {args : List Bytes} {o : Options} :
    request args = .scan o ↔ ∃ g, Given.start.arguments args = .ok g ∧
      o = ⟨g.root.getD defaultRoot, g.output.getD .human, g.verbosity⟩ := by
  rw [request]
  have hsound := Given.sound_start args
  cases h : Given.start.arguments args with
  | error r =>
    rw [h] at hsound
    constructor
    · exact fun hr => absurd hr (hsound o)
    · intro ⟨g, hg, _⟩
      exact nomatch hg
  | ok g =>
    constructor
    · intro ho
      exact ⟨g, rfl, (Request.scan.inj ho).symm⟩
    · intro ⟨g', hg, ho⟩
      rw [ho, ← Except.ok.inj hg]

/-- No command line asks for a scan of the empty root. -/
theorem root_ne_nil_of_request {args : List Bytes} {o : Options} (h : request args = .scan o) :
    o.root ≠ [] := by
  obtain ⟨g, hg, ho⟩ := request_eq_scan_iff.mp h
  have hsound := Given.sound_start args
  rw [hg] at hsound
  rw [ho]
  dsimp only
  cases hroot : g.root with
  | none => exact fun hdefault => nomatch hdefault
  | some root =>
    intro hempty
    rw [Option.getD_some] at hempty
    exact hsound (hroot.trans (congrArg some hempty))

/-- Without its flags for verbosity a command line asks for the same scan; the flags add
their number. -/
theorem request_quiet {args : List Bytes} {o : Options} (h : request args = .scan o) :
    ∃ o₀, request (quiet args) = .scan o₀ ∧
      o = { o₀ with verbosity := o₀.verbosity + loudness args } := by
  obtain ⟨g, hargs, ho⟩ := request_eq_scan_iff.mp h
  obtain ⟨g₀, hquiet, hg⟩ := Given.arguments_quiet hargs
  refine ⟨_, request_eq_scan_iff.mpr ⟨g₀, hquiet, rfl⟩, ?_⟩
  rw [ho, hg]
  rfl

end CommandLine
end PolicyLint
