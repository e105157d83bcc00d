/-
Where the import statements of a source stand.

Statements are found in one pass over the masked source, and the pass goes on behind the
semicolon that ended the last one.  So the statements of a source stand one behind the other,
none of them is empty, and all of them lie inside the source.
-/
import SolidityBundler.Source.Import

namespace SolidityBundler

/-- A statement begins where the one under way began or from here on, and ends inside the
text. -/
theorem bounds_of_mem_extentsFrom {began : Option Nat} {inWord : Bool} {offset : Nat}
    {text : Text} (hbegan : ∀ start, began = some start → start ≤ offset) {extent : Nat × Nat}
    (h : extent ∈ extentsFrom began inWord offset text) :
    began.getD offset ≤ extent.1 ∧ extent.1 < extent.2 ∧ extent.2 ≤ offset + text.length := by
  fun_induction extentsFrom began inWord offset text with
  | case1 => simp at h
  | case2 inWord start offset rest ih =>
      have hstart := hbegan start rfl
      rw [List.length_cons]
      rcases List.mem_cons.1 h with rfl | h
      · simp only [Option.getD_some]
        omega
      · have := ih (by simp) h
        simp only [Option.getD_none, Option.getD_some] at this ⊢
        omega
  | case3 inWord start offset c rest hc ih =>
      have hstart := hbegan start rfl
      rw [List.length_cons]
      have := ih (by simpa using Nat.le_succ_of_le hstart) h
      simp only [Option.getD_some] at this ⊢
      omega
  | case4 inWord offset c rest hword ih =>
      rw [List.length_cons]
      have := ih (by simp) h
      simp only [Option.getD_some, Option.getD_none] at this ⊢
      omega
  | case5 inWord offset c rest hword ih =>
      rw [List.length_cons]
      have := ih (by simp) h
      simp only [Option.getD_none] at this ⊢
      omega

/-- Each statement ends before the next ones begin. -/
private theorem pairwise_extentsFrom {began : Option Nat} {inWord : Bool} {offset : Nat}
    {text : Text} :
    (extentsFrom began inWord offset text).Pairwise fun extent later => extent.2 ≤ later.1 := by
  fun_induction extentsFrom began inWord offset text with
  | case1 => exact List.Pairwise.nil
  | case2 inWord start offset rest ih =>
      refine List.Pairwise.cons ?_ ih
      intro later hlater
      exact (bounds_of_mem_extentsFrom (by simp) hlater).1
  | case3 inWord start offset c rest hc ih => exact ih
  | case4 inWord offset c rest hword ih => exact ih
  | case5 inWord offset c rest hword ih => exact ih

/-! ### The edges of a source -/

/-- Edges that stand one behind the other in a text of the given length, from `cursor` on. -/
structure InOrder (cursor length : Nat) (edges : List ImportEdge) : Prop where
  bounds : ∀ edge ∈ edges, cursor ≤ edge.start ∧ edge.start < edge.stop ∧ edge.stop ≤ length
  apart : edges.Pairwise fun edge later => edge.stop ≤ later.start

/-- Behind the first edge the others are in order as well. -/
theorem InOrder.tail {cursor length : Nat} {edge : ImportEdge} {edges : List ImportEdge}
    (h : InOrder cursor length (edge :: edges)) : InOrder edge.stop length edges := by
  have hapart := List.pairwise_cons.1 h.apart
  refine ⟨?_, hapart.2⟩
  intro later hlater
  have := h.bounds later (List.mem_cons_of_mem _ hlater)
  exact ⟨hapart.1 later hlater, this.2⟩

theorem InOrder.filter {cursor length : Nat} {edges : List ImportEdge}
    (h : InOrder cursor length edges) (p : ImportEdge → Bool) :
    InOrder cursor length (edges.filter p) :=
  ⟨fun edge hedge => h.bounds edge (List.mem_filter.1 hedge).1, h.apart.filter p⟩

/-- Of two edges one stands in front of the other. -/
theorem InOrder.eq_or_apart {cursor length : Nat} {edge other : ImportEdge}
    {edges : List ImportEdge} (h : InOrder cursor length edges) (hedge : edge ∈ edges)
    (hother : other ∈ edges) :
    other = edge ∨ other.stop ≤ edge.start ∨ edge.stop ≤ other.start := by
  obtain ⟨before, after, rfl⟩ := List.append_of_mem hedge
  obtain ⟨-, hafter, hbefore⟩ := List.pairwise_append.1 h.apart
  rcases List.mem_append.1 hother with hother | hother
  · exact Or.inr (Or.inl (hbefore other hother edge List.mem_cons_self))
  · rcases List.mem_cons.1 hother with rfl | hother
    · exact Or.inl rfl
    · exact Or.inr (Or.inr ((List.pairwise_cons.1 hafter).1 other hother))

/-- No edge is listed twice. -/
theorem InOrder.nodup {cursor length : Nat} {edges : List ImportEdge}
    (h : InOrder cursor length edges) : edges.Nodup := by
  refine h.apart.imp_of_mem ?_
  rintro edge other hedge - hle rfl
  have := h.bounds edge hedge
  omega

theorem extent_of_edgeAt? {importer source : Text} {extent : Nat × Nat} {edge : ImportEdge}
    (h : edgeAt? importer source extent = some edge) :
    edge.start = extent.1 ∧ edge.stop = extent.2 := by
  obtain ⟨specifier, -, rfl⟩ := Option.map_eq_some_iff.1 h
  exact ⟨rfl, rfl⟩

/-- **The import statements of a source stand one behind the other inside it.** -/
theorem inOrder_importsOf (name source : Text) :
    InOrder 0 source.length (importsOf name source) := by
  refine ⟨?_, ?_⟩
  · intro edge hedge
    obtain ⟨extent, hextent, hat⟩ := List.mem_filterMap.1 hedge
    obtain ⟨hstart, hstop⟩ := extent_of_edgeAt? hat
    have hbounds := bounds_of_mem_extentsFrom (by simp) hextent
    rw [mask, length_maskFrom] at hbounds
    omega
  · refine List.pairwise_filterMap.2 (pairwise_extentsFrom.imp ?_)
    intro extent later hle edge hedge edge' hedge'
    rw [(extent_of_edgeAt? hedge).2, (extent_of_edgeAt? hedge').1]
    exact hle

end SolidityBundler
