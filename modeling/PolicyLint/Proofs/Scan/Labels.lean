/-
How files are shown in reports.

A file is shown by what follows the root in its path.  Joined on to the root again that is
the path of the file, so files that are shown alike are the same file.
-/
import PolicyLint.Proofs.Scan.Outcomes

namespace PolicyLint
namespace Scan

namespace Config

/-- Showing a path and joining it on to the root undo each other, as far as the components
of paths go.  So no two paths below search directories are shown alike, and no two files
found.  A path that does not begin with the root is shown as it is written. -/
theorem displayPath_join (c : Config) :
    (∀ p, c.Reaches p → Path.same (Path.join c.root (c.displayPath p)) p = true) ∧
    (∀ p q, c.Reaches p → c.Reaches q →
      Path.same (c.displayPath p) (c.displayPath q) = true → Path.same p q = true) ∧
    (∀ (t : Files.Tree) (files : List Bytes), t.WellFormed →
      (sourceFiles t c).result = .ok files →
        files.Pairwise fun p q => Path.same (c.displayPath p) (c.displayPath q) = false) ∧
    (∀ q, Path.isAbsolute q = false → (Path.components q).head? ≠ some .here →
      Path.same (c.displayPath (Path.join c.root q)) q = true) ∧
    (∀ p, ¬Path.components c.root <+: Path.components p → c.displayPath p = p) := by
  simp only [Path.same_iff, Bool.eq_false_iff, ne_eq]
  refine ⟨fun p hp => Path.components_join_relative hp.prefix_or_root,
    fun p q hp hq => hp.eq_of_displayPath_eq hq, ?_, ?_, ?_⟩
  · intro t files hw hfiles
    obtain ⟨hpair, hfound⟩ := sourceFiles_sound hw hfiles
    refine hpair.imp_of_mem fun {p q} hp hq hbefore hsame => ?_
    have hpath := (hfound p hp).2.eq_of_displayPath_eq (hfound q hq).2 hsame
    exact absurd hpath (ne_of_lt hbefore)
  · exact fun q hq hdot => Path.components_relative_join (Bool.eq_false_iff.mpr hq) hdot
  · exact fun p hp => Path.relative_of_not_below hp

/-- A root and search directories that are not spelled as they should be. -/
def loose : Config :=
  { forRoot (Bytes.of "./docs//") with
    searchDirs := ["..//pages/.", "/srv", ""].map Bytes.of }

theorem loose_displayed :
    loose.Reaches (Bytes.of "./docs//..//pages/./a.md") ∧ loose.Reaches (Bytes.of "/srv/./a.md") ∧
      Path.same (Path.join loose.root (loose.displayPath (Bytes.of "./docs//..//pages/./a.md")))
        (Bytes.of "./docs//..//pages/./a.md") = true ∧
      loose.displayPath (Bytes.of "/srv/./a.md") = Bytes.of "/srv/./a.md" ∧
      Path.same (loose.displayPath (Path.join loose.root (Bytes.of "a//b.md")))
        (Bytes.of "a//b.md") = true := by
  have hpages : loose.Reaches (Bytes.of "./docs//..//pages/./a.md") :=
    ⟨Bytes.of "./docs//..//pages/.", by decide, [Bytes.of "a.md"], by decide, by decide, by decide⟩
  have hsrv : loose.Reaches (Bytes.of "/srv/./a.md") :=
    ⟨Bytes.of "/srv", by decide, [Bytes.of "a.md"], by decide, by decide, by decide⟩
  obtain ⟨hback, -, -, hshown, hwritten⟩ := displayPath_join loose
  exact ⟨hpages, hsrv, hback _ hpages, hwritten _ (by decide), hshown _ rfl (by decide)⟩

end Config
end Scan
end PolicyLint
