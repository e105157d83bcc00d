/-
Paths that are printed and read back.

Reading a path drops what does not count, so printing one gives no more than what was kept: the
slashes in front, and segments that have a name and no slash in it.  Read again it is the same path.
-/
import SolidityBundler.Path.Tree
import SolidityBundler.Proofs.Path.Descent

namespace SolidityBundler

namespace TreePath

variable {path : TreePath}

/-- A path as reading gives it. -/
structure Canonical (path : TreePath) : Prop where
  slashes : path.slashes ≤ 2
  named : ∀ segment ∈ path.segments, isNamed segment = true ∧ '/' ∉ segment

theorem canonical_ofText (text : Text) : (ofText text).Canonical where
  slashes := SlashPath.rootSlashes_le_two text
  named := by
    intro segment hsegment
    obtain ⟨hmem, hnamed⟩ := List.mem_filter.1 hsegment
    exact ⟨hnamed, Text.notMem_of_mem_split hmem⟩

namespace Canonical

theorem ne_nil (h : path.Canonical) {segment : Text} (hsegment : segment ∈ path.segments) :
    segment ≠ [] := by
  rintro rfl
  exact absurd (h.named _ hsegment).1 (by decide)

private theorem head?_ofSegments (h : path.Canonical) :
    (SlashPath.ofSegments path.segments).head? ≠ some '/' := by
  cases hsegments : path.segments with
  | nil =>
      intro heq
      cases heq
  | cons segment rest =>
      have hmem : segment ∈ path.segments := by
        rw [hsegments]
        exact List.mem_cons_self
      obtain ⟨c, front, rfl⟩ := List.exists_cons_of_ne_nil (h.ne_nil hmem)
      have hc : c ≠ '/' := fun heq => (h.named _ hmem).2 (heq ▸ List.mem_cons_self)
      cases rest with
      | nil => exact fun heq => hc (Option.some.inj heq)
      | cons next rest => exact fun heq => hc (Option.some.inj heq)

private theorem filter_segments (h : path.Canonical) (n : Nat) :
    (SlashPath.segments (List.replicate n '/' ++ SlashPath.ofSegments path.segments)).filter
      isNamed = path.segments := by
  induction n with
  | zero =>
      by_cases hnil : path.segments = []
      · rw [hnil]
        rfl
      · rw [List.replicate_zero, List.nil_append,
          SlashPath.segments_ofSegments hnil fun segment hsegment => (h.named segment hsegment).2]
        exact List.filter_eq_self.2 fun segment hsegment => (h.named segment hsegment).1
  | succ n ih => exact ih

/-- **A path is read back as it was printed.** -/
theorem ofText_toText (h : path.Canonical) : ofText path.toText = path := by
  unfold toText
  dsimp only
  split
  · next hempty =>
      rw [List.isEmpty_iff, List.append_eq_nil_iff] at hempty
      have hslashes : path.slashes = 0 := by simpa using hempty.1
      have hsegments : path.segments = [] := by
        have hfilter := h.filter_segments 0
        rw [hempty.2] at hfilter
        exact hfilter.symm
      have hhere : ofText SlashPath.here = { slashes := 0, segments := [] } := by decide
      rw [hhere, ← hslashes, ← hsegments]
  · rw [ofText, SlashPath.rootSlashes_replicate_append h.slashes h.head?_ofSegments,
      h.filter_segments]

end Canonical

theorem toText_ne_nil (path : TreePath) : path.toText ≠ [] := by
  unfold toText
  dsimp only
  split
  · exact List.cons_ne_nil _ _
  · next hne => exact fun hnil => hne (List.isEmpty_iff.2 hnil)

end TreePath

end SolidityBundler
