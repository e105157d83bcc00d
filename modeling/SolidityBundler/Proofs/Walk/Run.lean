/-
What a finished walk leaves behind.

The invariants hold at the end of a run, where the stack is empty.  So every mark there says
done, the listed units are closed under imports, and they are the units that the entry
reaches.

A run changes the bundler, but the bundler does not change the run: two bundlers that
remember nothing false about one index walk through it alike.
-/
import SolidityBundler.Proofs.Walk.Order

namespace SolidityBundler.Walk

/-- A walk from `entry` that is over, begun with the bundler `b` and ended with `b'`. -/
structure Finished (index : UnitIndex) (entry : SourceUnit) (b b' : Bundler) (w : Walk) :
    Prop where
  empty : w.stack = []
  consistent : Consistent index entry w
  settled : Settled index b' w
  sound : b'.Sound index
  grows : b.Grows b'
  /-- Every new report is about units that the entry reaches. -/
  reports : ∀ cycle ∈ b'.cycles, cycle ∈ b.cycles ∨ ∀ m ∈ cycle.1, index.Reaches entry m

variable {index : UnitIndex} {entry : SourceUnit} {b b' : Bundler} {w : Walk}

/-- **Every walk ends, with all invariants intact.** -/
theorem finished_run (hkeyed : index.WellKeyed) (hentry : entry ∈ index.units)
    (hb : b.Sound index) :
    Finished index entry b (run b (start entry)).1 (run b (start entry)).2 := by
  let P (b' : Bundler) (w : Walk) : Prop :=
    Consistent index entry w ∧ Settled index b' w ∧ b'.Sound index ∧ b.Grows b' ∧
      ∀ cycle ∈ b'.cycles, cycle ∈ b.cycles ∨ ∀ m ∈ cycle.1, index.Reaches entry m
  have hstep : ∀ b₁ w₁ b₂ w₂, P b₁ w₁ → step? b₁ w₁ = some (b₂, w₂) → P b₂ w₂ := by
    intro b₁ w₁ b₂ w₂ h hstep
    obtain ⟨hw, hsettled, hsound, hgrows, hreports⟩ := h
    have hmove := move_of_step? hsound hstep
    obtain ⟨hsound', hgrows', hnew⟩ := hw.sound_move hkeyed hentry hsound hmove
    refine ⟨hw.move hmove, hsettled.move hkeyed hentry hw hsound hmove, hsound',
      hgrows.trans hgrows', ?_⟩
    intro cycle hcycle
    rcases hnew cycle hcycle with hold | hstacked
    · exact hreports cycle hold
    · exact Or.inr fun m hm => hw.reached m (Or.inl (hstacked m hm))
  have hstart : P b (start entry) :=
    ⟨consistent_start index entry, settled_start index b entry, hb, .refl b,
      fun cycle hcycle => Or.inl hcycle⟩
  obtain ⟨⟨hw, hsettled, hsound, hgrows, hreports⟩, hempty⟩ := run_induction hstep hstart
  exact ⟨hempty, hw, hsettled, hsound, hgrows, hreports⟩

/-! ### The order of a finished walk -/

namespace Finished

private theorem stacked_eq_nil (h : Finished index entry b b' w) : w.stacked = [] := by
  rw [stacked, h.empty]
  rfl

theorem mem_order_of_isSome (hkeyed : index.WellKeyed) (hentry : entry ∈ index.units)
    (h : Finished index entry b b' w) {unit : SourceUnit} (hunit : unit ∈ index.units)
    (hmark : (w.marks.get? unit.key).isSome) : unit ∈ w.order := by
  obtain ⟨mark, hmark⟩ := Option.isSome_iff_exists.1 hmark
  cases mark with
  | visiting =>
      have hmem := h.consistent.mem_stacked hkeyed hentry hunit hmark
      rw [h.stacked_eq_nil] at hmem
      simp at hmem
  | done => exact h.consistent.mem_order hkeyed hentry hunit hmark

/-- The entry is listed last. -/
theorem getLast?_order (h : Finished index entry b b' w) : w.order.getLast? = some entry := by
  rcases h.consistent.entryLast with hbottom | ⟨-, hlast⟩
  · rw [h.stacked_eq_nil] at hbottom
    simp at hbottom
  · exact hlast

/-- **The listed units are those that the entry reaches.** -/
theorem mem_order_iff (hkeyed : index.WellKeyed) (hentry : entry ∈ index.units)
    (h : Finished index entry b b' w) (unit : SourceUnit) :
    unit ∈ w.order ↔ index.Reaches entry unit := by
  constructor
  · intro hunit
    exact h.consistent.reached unit (Or.inr hunit)
  · intro hreach
    induction hreach with
    | refl => exact List.mem_of_getLast? h.getLast?_order
    | tail _ himports ih =>
        rcases h.settled.listed _ ih _ himports with hsub | hclose
        · exact hsub.subset List.mem_cons_self
        · exact h.mem_order_of_isSome hkeyed hentry himports.mem_units hclose.1

end Finished

/-! ### The bundler has no say in the order -/

private theorem follow_walk_eq (b b' : Bundler) (w : Walk) (edge : ImportEdge)
    (target : SourceUnit) : (follow b w edge target).2 = (follow b' w edge target).2 := by
  unfold follow
  split
  · rfl
  · rfl
  · rfl

/-- One step does the same to a walk, whatever was asked of the bundler before. -/
theorem step?_walk_eq (hb : b.Truthful index) (hb' : b'.Truthful index) (w : Walk) :
    (step? b w).map Prod.snd = (step? b' w).map Prod.snd := by
  match hstack : w.stack with
  | [] => rw [step?_eq_none_iff.2 hstack, step?_eq_none_iff.2 hstack]
  | { unit, pending := [] } :: below =>
      unfold step?
      rw [hstack]
      rfl
  | { unit, pending := edge :: pending } :: below =>
      rw [step?_of_edge hstack, step?_of_edge hstack, hb.resolve_eq unit edge,
        hb'.resolve_eq unit edge]
      cases index.target? unit.name edge.specifier with
      | none => rfl
      | some target => exact congrArg some (follow_walk_eq _ _ _ edge target)

/-- A step that one bundler takes is taken with any other one too. -/
theorem exists_step?_of_step? {b₁ : Bundler} {w₁ : Walk} (hb : b.Truthful index)
    (hb' : b'.Truthful index) (hstep : step? b w = some (b₁, w₁)) :
    ∃ b₂, step? b' w = some (b₂, w₁) := by
  have hsame := step?_walk_eq hb hb' w
  rw [hstep, Option.map_some] at hsame
  obtain ⟨⟨b₂, w₂⟩, hstep', hwalk⟩ := Option.map_eq_some_iff.1 hsame.symm
  simp only at hwalk
  subst hwalk
  exact ⟨b₂, hstep'⟩

/-- A run does the same to a walk, whatever was asked of the bundler before. -/
theorem run_walk_eq (hkeyed : index.WellKeyed) (hentry : entry ∈ index.units)
    (hw : Consistent index entry w) (hb : b.Sound index) (hb' : b'.Sound index) :
    (run b w).2 = (run b' w).2 := by
  induction b, w using run.induct generalizing b' with
  | case1 b w hnone =>
      have hnone' : step? b' w = none :=
        step?_eq_none_iff.2 (step?_eq_none_iff.1 hnone)
      rw [run, hnone, run, hnone']
  | case2 b w b₁ w₁ hsome ih =>
      obtain ⟨b₁', hsome'⟩ := exists_step?_of_step? hb.toTruthful hb'.toTruthful hsome
      have hmove := move_of_step? hb hsome
      have hmove' := move_of_step? hb' hsome'
      rw [run, hsome, run, hsome']
      exact ih (hw.move hmove) (hw.sound_move hkeyed hentry hb hmove).1
        (hw.sound_move hkeyed hentry hb' hmove').1

end SolidityBundler.Walk
