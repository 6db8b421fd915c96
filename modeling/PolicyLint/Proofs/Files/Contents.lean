/-
Trees that differ in the contents of their files.

What a path leads to and what a walk lists depend on what stands where.  Neither looks into
a file.
-/
import PolicyLint.Proofs.Files.Resolve
import PolicyLint.Proofs.Files.Walk

namespace PolicyLint
namespace Files

/-- The item with other contents if it is a file. -/
def Item.rewritten (f : ByteArray → ByteArray) : Item → Item
  | .file bytes => .file (f bytes)
  | i => i

namespace Tree

/-- The tree with other contents in its files, which may depend on the places of these. -/
def rewritten (contents : Place → ByteArray → ByteArray) (t : Tree) : Tree where
  items := t.items.map fun e => (e.1, e.2.rewritten (contents e.1))
  working := t.working

section Rewritten

variable {t : Tree} (contents : Place → ByteArray → ByteArray)

theorem lookup_rewritten (items : List (Place × Item)) (p : Place) :
    (items.map fun e => (e.1, e.2.rewritten (contents e.1))).lookup p =
      (items.lookup p).map (Item.rewritten (contents p)) := by
  induction items with
  | nil => rfl
  | cons e items ih =>
    obtain ⟨q, i⟩ := e
    rw [List.map_cons, List.lookup_cons, List.lookup_cons, ih]
    by_cases hp : p = q
    · rw [hp, beq_self_eq_true]
      rfl
    · rw [beq_false_of_ne hp]

theorem item?_rewritten (p : Place) :
    (t.rewritten contents).item? p = (t.item? p).map (Item.rewritten (contents p)) := by
  cases p with
  | nil => rfl
  | cons n above => exact lookup_rewritten contents t.items (n :: above)

theorem isDirectory_rewritten (p : Place) :
    (t.rewritten contents).isDirectory p = t.isDirectory p := by
  unfold isDirectory
  rw [item?_rewritten]
  cases t.item? p with
  | none => rfl
  | some i => cases i <;> rfl

theorem children_rewritten (p : Place) : (t.rewritten contents).children p =
    (t.children p).map fun e => (e.1, e.2.rewritten (contents (e.1 :: p))) := by
  show List.filterMap _ (t.items.map _) = _
  rw [List.filterMap_map, children, List.map_filterMap]
  congr 1
  funext e
  obtain ⟨q, i⟩ := e
  cases q with
  | nil => rfl
  | cons n above =>
    show (if above = p then some (n, _) else none) = Option.map _ (if above = p then _ else _)
    by_cases h : above = p
    · rw [if_pos h, if_pos h, h]
      rfl
    · rw [if_neg h, if_neg h]
      rfl

theorem lead_rewritten (follow : Place → Bytes → List Bytes → Except Lost Place)
    (pieces : List Bytes) : ∀ place : Place,
    (t.rewritten contents).lead follow place pieces = t.lead follow place pieces := by
  induction pieces with
  | nil => exact fun _ => rfl
  | cons piece rest ih =>
    intro place
    rw [lead, lead, item?_rewritten, item?_rewritten, ih, ih, ih]
    cases t.item? place with
    | none => rfl
    | some i =>
      cases i with
      | file bytes => rfl
      | link target => rfl
      | directory =>
        cases t.item? (piece :: place) with
        | none => rfl
        | some i => cases i <;> rfl

theorem resolve_rewritten (links : Nat) :
    (t.rewritten contents).resolve links = t.resolve links := by
  induction links with
  | zero =>
    funext place pieces
    exact lead_rewritten contents _ pieces place
  | succ links ih =>
    funext place pieces
    rw [resolve, resolve, ih]
    exact lead_rewritten contents _ pieces place

theorem locate_rewritten (path : Bytes) : (t.rewritten contents).locate path = t.locate path := by
  unfold locate locateFrom
  rw [resolve_rewritten]
  rfl

theorem directoryAt?_rewritten (path : Bytes) :
    (t.rewritten contents).directoryAt? path = t.directoryAt? path := by
  unfold directoryAt?
  rw [locate_rewritten]
  cases t.locate path with
  | error why => rfl
  | ok p =>
    dsimp only
    rw [isDirectory_rewritten]

theorem visit_rewritten (followLinks : Bool)
    (descend : List Step → Except WalkFailure (List Bytes)) (way : List Step) (dir : Step)
    (name : Bytes) (f : ByteArray → ByteArray) (i : Item) :
    (t.rewritten contents).visit followLinks descend way dir name (i.rewritten f) =
      t.visit followLinks descend way dir name i := by
  cases i with
  | file bytes => rfl
  | directory => rfl
  | link target =>
    simp only [visit, Item.rewritten, locate_rewritten, isDirectory_rewritten]

/-- A walk does not look into files. -/
theorem walk_rewritten (followLinks : Bool) (depth : Nat) :
    (t.rewritten contents).walk followLinks depth = t.walk followLinks depth := by
  induction depth with
  | zero => rfl
  | succ depth ih =>
    funext way
    cases way with
    | nil => rfl
    | cons dir above =>
      rw [walk, walk, children_rewritten, List.mapM_map]
      simp only [Function.comp_def, visit_rewritten, ih]

end Rewritten

end Tree
end Files
end PolicyLint
