/-
Where paths lead in a well-formed tree.

Resolving a path is resolving its pieces one after the other, and the links passed
on the way use up a budget.  So a path with a name behind it leads where the name
leads from the place of the path, with what the path has left of the budget.
-/
import PolicyLint.Files.Tree
import PolicyLint.Proofs.Path.Components

namespace PolicyLint
namespace Path

theorem isName_iff {n : Bytes} :
    IsName n ↔ n ≠ [] ∧ slash ∉ n ∧ n ≠ [dot] ∧ n ≠ [dot, dot] :=
  ⟨fun h => ⟨h.ne_nil, h.no_separator, h.ne_dot, h.ne_dots⟩,
    fun ⟨hn, hs, hd, hdd⟩ => ⟨hn, hs, hd, hdd⟩⟩

instance (n : Bytes) : Decidable (IsName n) :=
  decidable_of_iff _ isName_iff.symm

end Path

namespace Files

/-- How many bytes a file holds. -/
def Item.size : Item → Nat
  | .file bytes => bytes.size
  | _ => 0

/-- One more than any number of bytes that a file can hold. -/
def sizeBound : Nat := Nat.pow 2 64

theorem sizeBound_pos : 0 < sizeBound := by decide

namespace Tree

variable {t : Tree}

/-- A tree as a file system holds it: one item at a place, every item in a
directory, names that a path can spell, and files whose bytes can be counted. -/
structure WellFormed (t : Tree) : Prop where
  once : (t.items.map (·.1)).Nodup
  named : ∀ e ∈ t.items, ∀ n ∈ e.1, Path.IsName n
  inDirectory : ∀ e ∈ t.items, t.isDirectory e.1.tail = true
  counted : ∀ e ∈ t.items, e.2.size < sizeBound

theorem wellFormed_iff : t.WellFormed ↔
    (t.items.map (·.1)).Nodup ∧ (∀ e ∈ t.items, ∀ n ∈ e.1, Path.IsName n) ∧
      (∀ e ∈ t.items, t.isDirectory e.1.tail = true) ∧ ∀ e ∈ t.items, e.2.size < sizeBound :=
  ⟨fun h => ⟨h.once, h.named, h.inDirectory, h.counted⟩, fun ⟨ho, hn, hd, hc⟩ => ⟨ho, hn, hd, hc⟩⟩

instance (t : Tree) : Decidable t.WellFormed :=
  decidable_of_iff _ wellFormed_iff.symm

/-- The path leads to a regular file. -/
def IsFile (t : Tree) (path : Bytes) : Prop :=
  ∃ bytes, t.bytesAt? path = some bytes

/-! ## Items -/

theorem isDirectory_iff {p : Place} : t.isDirectory p = true ↔ t.item? p = some .directory := by
  unfold isDirectory
  split <;> simp_all

theorem lookup_eq_of_mem {items : List (Place × Item)} (hn : (items.map (·.1)).Nodup) {p : Place}
    {i : Item} (h : (p, i) ∈ items) : items.lookup p = some i := by
  obtain ⟨front, back, rfl⟩ := List.append_of_mem h
  refine List.lookup_eq_some_iff.mpr ⟨front, back, rfl, fun e he => ?_⟩
  rw [List.map_append, List.nodup_append] at hn
  have hne := hn.2.2 e.1 (List.mem_map_of_mem he) p (by simp)
  simpa using hne.symm

theorem mem_of_lookup {items : List (Place × Item)} {p : Place} {i : Item}
    (h : items.lookup p = some i) : (p, i) ∈ items := by
  obtain ⟨front, back, rfl, -⟩ := List.lookup_eq_some_iff.mp h
  simp

theorem mem_children {p : Place} {n : Bytes} {i : Item} :
    (n, i) ∈ t.children p ↔ (n :: p, i) ∈ t.items := by
  rw [children, List.mem_filterMap]
  constructor
  · rintro ⟨⟨q, j⟩, hmem, h⟩
    cases q with
    | nil => exact absurd h (by simp)
    | cons m above =>
      by_cases habove : above = p
      · simp only [habove, if_true, Option.some.injEq, Prod.mk.injEq] at h
        rw [← h.1, ← h.2, ← habove]
        exact hmem
      · simp only [habove, if_false] at h
        exact absurd h (by simp)
  · intro h
    exact ⟨(n :: p, i), h, by simp⟩

namespace WellFormed

theorem mem_children_iff (hw : t.WellFormed) {p : Place} {n : Bytes} {i : Item} :
    (n, i) ∈ t.children p ↔ t.item? (n :: p) = some i := by
  rw [mem_children]
  exact ⟨fun h => lookup_eq_of_mem hw.once h, fun h => mem_of_lookup h⟩

theorem isName (hw : t.WellFormed) {p : Place} {n : Bytes} {i : Item}
    (h : t.item? (n :: p) = some i) : Path.IsName n :=
  hw.named _ (mem_of_lookup h) n List.mem_cons_self

theorem size_lt (hw : t.WellFormed) {p : Place} {bytes : ByteArray}
    (h : t.item? p = some (.file bytes)) : bytes.size < sizeBound := by
  cases p with
  | nil => exact absurd h (by simp [item?])
  | cons n above => exact hw.counted _ (mem_of_lookup h)

theorem isDirectory_tail (hw : t.WellFormed) {p : Place} (h : t.item? p = some .directory) :
    t.item? p.tail = some .directory := by
  cases p with
  | nil => rfl
  | cons n above => exact isDirectory_iff.mp (hw.inDirectory _ (mem_of_lookup h))

end WellFormed

/-! ## Pieces of a path -/

/-- Where a link and the pieces after it lead with `links` links to pass, this one
included. -/
def passLink (t : Tree) : (links : Nat) → Place → Bytes → List Bytes → Except Lost Place
  | 0, _, _, _ => .error .tooManyLinks
  | links + 1, place, target, rest =>
    t.resolve links (if Path.isAbsolute target then [] else place)
      (Text.pieces Path.slash target ++ rest)

theorem resolve_nil (t : Tree) (links : Nat) (place : Place) :
    t.resolve links place [] = .ok place := by
  cases links <;> rfl

theorem resolve_cons (t : Tree) (links : Nat) (place : Place) (piece : Bytes)
    (rest : List Bytes) :
    t.resolve links place (piece :: rest) =
      match t.item? place with
      | some .directory =>
        if Path.isFiller piece then t.resolve links place rest
        else if piece = [Path.dot, Path.dot] then t.resolve links place.tail rest
        else
          match t.item? (piece :: place) with
          | none => .error .missing
          | some (.link target) => t.passLink links place target rest
          | some _ => t.resolve links (piece :: place) rest
      | some _ => .error .notDirectory
      | none => .error .missing := by
  cases links <;> rfl

/- Going on costs a piece or a link: what holds without pieces, and for a first piece
when it holds for the rest from everywhere and behind every link, holds always. -/
theorem resolve_induction {motive : Nat → Place → List Bytes → Prop}
    (nil : ∀ links place, motive links place [])
    (cons : ∀ links place piece rest, (∀ p, motive links p rest) →
      (∀ n, links = n + 1 → ∀ p target, motive n p (Text.pieces Path.slash target ++ rest)) →
      motive links place (piece :: rest))
    (links : Nat) : ∀ place ps, motive links place ps := by
  have step : ∀ links, (∀ n, links = n + 1 → ∀ p ps, motive n p ps) →
      ∀ place ps, motive links place ps := by
    intro links hlinks place ps
    induction ps generalizing place with
    | nil => exact nil links place
    | cons piece rest ih =>
      exact cons links place piece rest ih fun n hn p target => hlinks n hn p _
  induction links with
  | zero => exact step 0 fun n hn => absurd hn (by omega)
  | succ links ih =>
    refine step (links + 1) fun n hn => ?_
    obtain rfl : links = n := by omega
    exact ih

/- Some of the budget is left at the end of a path, and it alone decides where the
pieces after it lead. -/
theorem resolve_append (t : Tree) (links : Nat) (place : Place) (ps : List Bytes) :
    ∃ left, ∀ qs, t.resolve links place (ps ++ qs) =
      (t.resolve links place ps).bind fun p => t.resolve left p qs := by
  induction links, place, ps using resolve_induction with
  | nil links place =>
    refine ⟨links, fun qs => ?_⟩
    rw [resolve_nil]
    rfl
  | cons links place piece rest ih ihLink =>
    simp only [List.cons_append, resolve_cons]
    cases t.item? place with
    | none => exact ⟨0, fun qs => rfl⟩
    | some i =>
      cases i with
      | file b => exact ⟨0, fun qs => rfl⟩
      | link target => exact ⟨0, fun qs => rfl⟩
      | directory =>
        dsimp only
        split
        · exact ih place
        · split
          · exact ih place.tail
          · split
            · exact ⟨0, fun qs => rfl⟩
            · cases links with
              | zero => exact ⟨0, fun qs => rfl⟩
              | succ n =>
                simp only [passLink, ← List.append_assoc]
                exact ihLink n rfl _ _
            · exact ih (piece :: place)

/-- Something stands at the place, and it is not a link. -/
def Stands (t : Tree) (p : Place) : Prop :=
  t.item? p = some .directory ∨ ∃ bytes, t.item? p = some (.file bytes)

theorem WellFormed.stands_resolve (hw : t.WellFormed) {links : Nat} {place p : Place}
    {ps : List Bytes} (h : t.resolve links place ps = .ok p) (hps : ps ≠ [] ∨ t.Stands place) :
    t.Stands p := by
  induction links, place, ps using resolve_induction with
  | nil links place =>
    rw [resolve_nil, Except.ok.injEq] at h
    rw [← h]
    exact hps.resolve_left (by simp)
  | cons links place piece rest ih ihLink =>
    rw [resolve_cons] at h
    cases hi : t.item? place with
    | none =>
      rw [hi] at h
      exact absurd h (by simp)
    | some i =>
      rw [hi] at h
      cases i with
      | file b => exact absurd h (by simp)
      | link target => exact absurd h (by simp)
      | directory =>
        dsimp only at h
        split at h
        · exact ih place h (.inr (.inl hi))
        · split at h
          · exact ih place.tail h (.inr (.inl (hw.isDirectory_tail hi)))
          · split at h
            · exact absurd h (by simp)
            · cases links with
              | zero => exact absurd h (by simp [passLink])
              | succ n =>
                refine ihLink n rfl _ _ h (.inl ?_)
                simp [Text.pieces_ne_nil]
            · rename_i j hne hj
              refine ih (piece :: place) h (.inr ?_)
              cases j with
              | file b => exact .inr ⟨b, hj⟩
              | directory => exact .inl hj
              | link target => exact absurd rfl (hne target)

/-! ## Names behind a path -/

theorem resolve_name (t : Tree) {n : Bytes} (hn : Path.IsName n) {p : Place}
    (hp : t.item? p = some .directory) (links : Nat) :
    t.resolve links p [n] =
      match t.item? (n :: p) with
      | none => .error .missing
      | some (.link target) => t.passLink links p target []
      | some _ => .ok (n :: p) := by
  simp only [resolve_cons, hp, hn.not_isFiller, hn.ne_dots, if_false, Bool.false_eq_true,
    resolve_nil]

theorem locate_eq (t : Tree) (path : Bytes) :
    t.locate path =
      if path.isEmpty then .error .missing
      else t.resolve maxLinks (if Path.isAbsolute path then [] else t.working)
        (Text.pieces Path.slash path) := rfl

theorem locate_of_ne_nil (t : Tree) {path : Bytes} (h : path ≠ []) :
    t.locate path = t.resolve maxLinks (if Path.isAbsolute path then [] else t.working)
      (Text.pieces Path.slash path) := by
  rw [locate_eq, if_neg (by simpa using h)]

/- The empty piece behind a last separator leads nowhere else. -/
theorem resolve_nil_piece (t : Tree) {n : Bytes} (hn : Path.IsName n) (links : Nat) (p : Place) :
    t.resolve links p [n] = (t.resolve links p [[]]).bind fun q => t.resolve links q [n] := by
  have hfiller : Path.isFiller [] = true := rfl
  simp only [resolve_cons, resolve_nil, hfiller, hn.not_isFiller, hn.ne_dots, if_true, if_false,
    Bool.false_eq_true]
  cases hp : t.item? p with
  | none => rfl
  | some i =>
    cases i with
    | file b => rfl
    | link target => rfl
    | directory => simp only [Except.bind, hp]

/-- A name behind a path leads where it leads from the place of the path, and nowhere if the
path leads nowhere. -/
theorem locate_join {path n : Bytes} (hn : Path.IsName n) (hne : path ≠ []) :
    ∃ left, t.locate (Path.join path n) =
      (t.locate path).bind fun p => t.resolve left p [n] := by
  have habs : Path.isAbsolute (Path.join path n) = Path.isAbsolute path := by
    obtain ⟨c, path, rfl⟩ := List.exists_cons_of_ne_nil hne
    rw [Path.join, if_neg (by simp [hn.not_isAbsolute])]
    split <;> rfl
  rw [locate_of_ne_nil t (Path.join_ne_nil hne), habs, locate_of_ne_nil t hne]
  by_cases hlast : path.getLast? = some Path.slash
  · obtain ⟨front, rfl⟩ : ∃ front, path = front ++ [Path.slash] :=
      List.getLast?_eq_some_iff.mp hlast
    have hjoin : Path.join (front ++ [Path.slash]) n = front ++ Path.slash :: n := by
      rw [Path.join, if_neg (by simp [hn.not_isAbsolute]), if_pos (by simp)]
      simp
    rw [hjoin, Text.pieces_append_sep, Text.pieces_append_sep, hn.pieces_eq, Text.pieces_nil]
    obtain ⟨left, hleft⟩ := resolve_append t maxLinks
      (if Path.isAbsolute (front ++ [Path.slash]) then [] else t.working)
      (Text.pieces Path.slash front)
    refine ⟨left, ?_⟩
    rw [hleft, hleft]
    cases t.resolve maxLinks (if Path.isAbsolute (front ++ [Path.slash]) then [] else t.working)
        (Text.pieces Path.slash front) with
    | error e => rfl
    | ok q => exact resolve_nil_piece t hn left q
  · have hjoin : Path.join path n = path ++ Path.slash :: n := by
      rw [Path.join, if_neg (by simp [hn.not_isAbsolute]), if_neg (by simp [hne, hlast])]
    rw [hjoin, Text.pieces_append_sep, hn.pieces_eq]
    obtain ⟨left, hleft⟩ := resolve_append t maxLinks
      (if Path.isAbsolute path then [] else t.working) (Text.pieces Path.slash path)
    exact ⟨left, hleft [n]⟩

theorem locate_join_name {path n : Bytes} {p : Place} (hn : Path.IsName n)
    (h : t.locate path = .ok p) :
    ∃ left, t.locate (Path.join path n) = t.resolve left p [n] := by
  have hne : path ≠ [] := by
    rintro rfl
    exact absurd h (by simp [locate_eq])
  obtain ⟨left, hleft⟩ := locate_join (t := t) hn hne
  rw [h] at hleft
  exact ⟨left, hleft⟩

theorem directoryAt?_eq_none_iff {path : Bytes} :
    t.directoryAt? path = none ↔ ∀ p, t.locate path = .ok p → t.isDirectory p = false := by
  unfold directoryAt?
  cases t.locate path with
  | error e => simp
  | ok p => simp

/-- Below what is no directory there is none. -/
theorem directoryAt?_join_eq_none {path n : Bytes} (hn : Path.IsName n) (hne : path ≠ [])
    (h : t.directoryAt? path = none) : t.directoryAt? (Path.join path n) = none := by
  obtain ⟨left, hleft⟩ := locate_join (t := t) hn hne
  rw [directoryAt?_eq_none_iff] at h ⊢
  intro q hq
  rw [hleft] at hq
  cases hl : t.locate path with
  | error e =>
    rw [hl] at hq
    exact nomatch hq
  | ok p =>
    have hdir := h p hl
    rw [hl] at hq
    change t.resolve left p [n] = .ok q at hq
    rw [resolve_cons] at hq
    cases hi : t.item? p with
    | none =>
      rw [hi] at hq
      exact nomatch hq
    | some i =>
      rw [hi] at hq
      cases i with
      | file b => exact nomatch hq
      | link target => exact nomatch hq
      | directory =>
        rw [isDirectory_iff.mpr hi] at hdir
        exact absurd hdir (by decide)

/-- A name that is no link leads to its own place. -/
theorem locate_join_of_item {path n : Bytes} {p : Place} {i : Item} (hn : Path.IsName n)
    (h : t.locate path = .ok p) (hp : t.item? p = some .directory)
    (hi : t.item? (n :: p) = some i) (hlink : ∀ target, i ≠ .link target) :
    t.locate (Path.join path n) = .ok (n :: p) := by
  obtain ⟨left, hleft⟩ := locate_join_name hn h
  rw [hleft, resolve_name t hn hp, hi]
  cases i with
  | file b => rfl
  | directory => rfl
  | link target => exact absurd rfl (hlink target)

theorem contents_eq_ok_iff {path : Bytes} {bytes : ByteArray} :
    t.contents path = .ok bytes ↔ ∃ p, t.locate path = .ok p ∧ t.item? p = some (.file bytes) := by
  rw [contents]
  cases t.locate path with
  | error e => simp
  | ok p =>
    dsimp only
    cases hi : t.item? p with
    | none => simp [hi]
    | some i => cases i <;> simp [hi]

theorem bytesAt?_eq_some_iff {path : Bytes} {bytes : ByteArray} :
    t.bytesAt? path = some bytes ↔ t.contents path = .ok bytes := by
  rw [bytesAt?]
  cases t.contents path <;> simp [Except.toOption]

theorem isFile_iff {path : Bytes} :
    t.IsFile path ↔ ∃ p bytes, t.locate path = .ok p ∧ t.item? p = some (.file bytes) := by
  simp only [IsFile, bytesAt?_eq_some_iff, contents_eq_ok_iff]
  exact exists_comm

theorem not_isFile_of_directory {path : Bytes} {p : Place} (hl : t.locate path = .ok p)
    (hd : t.item? p = some .directory) : ¬t.IsFile path := by
  intro hf
  obtain ⟨q, bytes, hq, hb⟩ := isFile_iff.mp hf
  rw [hl, Except.ok.injEq] at hq
  rw [← hq, hd] at hb
  exact absurd hb (by simp)

/-- What a path leads to is a file when it is no directory. -/
theorem WellFormed.isFile_of_locate (hw : t.WellFormed) {path : Bytes} {p : Place}
    (h : t.locate path = .ok p) (hd : t.isDirectory p = false) : t.IsFile path := by
  have hstands : t.Stands p := by
    rw [locate_eq] at h
    split at h
    · exact absurd h (by simp)
    · exact hw.stands_resolve h (.inl (Text.pieces_ne_nil Path.slash path))
  rcases hstands with hdir | ⟨bytes, hfile⟩
  · rw [isDirectory_iff.mpr hdir] at hd
    exact absurd hd (by simp)
  · exact isFile_iff.mpr ⟨p, bytes, h, hfile⟩

end Tree
end Files
end PolicyLint
