/-
What a walk comes across.

The events of a walk are told from the index alone.  A walk faces the specifier of its next
statement, and if the statement leads back to the stack it faces a cycle.  `Meets` collects
what is faced now and after any number of steps, the steps being those of a new bundler, so
nothing that was asked before can have a part in it.

A step adds to the record what the walk faces.  So the record together with what is still to
be met stays the same from step to step, and at the end of the walk nothing is left to be met:
a run adds exactly what its start meets, whatever bundler it is run with.
-/
import SolidityBundler.Proofs.Bundler.Record
import SolidityBundler.Proofs.Walk.Run

namespace SolidityBundler.Walk

/-- What the next step of a walk comes across. -/
inductive Faces (index : UnitIndex) (w : Walk) : Event → Prop
  /-- The next statement has a specifier. -/
  | tried {unit : SourceUnit} {edge : ImportEdge} {pending : List ImportEdge} {below : List Frame}
      (hstack : w.stack = { unit, pending := edge :: pending } :: below) :
      Faces index w (.tried unit.key edge.specifier)
  /-- The next statement leads back to a unit on the stack. -/
  | closed {unit target : SourceUnit} {edge : ImportEdge} {pending : List ImportEdge}
      {below : List Frame} (hstack : w.stack = { unit, pending := edge :: pending } :: below)
      (htarget : index.target? unit.name edge.specifier = some target)
      (hmark : w.marks.get? target.key = some .visiting) :
      Faces index w (.closed (memberKeys (w.pathFrom target.key)))

/-- What a walk comes across before it is over. -/
inductive Meets (index : UnitIndex) : Walk → Event → Prop
  | now {w : Walk} {event : Event} (h : Faces index w event) : Meets index w event
  | later {w w' : Walk} {b : Bundler} {event : Event}
      (hstep : step? (.ofIndex index) w = some (b, w')) (h : Meets index w' event) :
      Meets index w event

variable {index : UnitIndex} {entry : SourceUnit} {b b' : Bundler} {w w' : Walk} {event : Event}

/-! ### What is faced in each case of a step -/

private theorem not_faces_of_finish {unit : SourceUnit} {below : List Frame}
    (hstack : w.stack = { unit, pending := [] } :: below) : ¬ Faces index w event := by
  intro h
  cases h with
  | tried hstack' => simp [hstack] at hstack'
  | closed hstack' => simp [hstack] at hstack'

/-- With a statement next, its specifier is faced, and a cycle if the statement closes one. -/
theorem faces_iff_of_edge {unit : SourceUnit} {edge : ImportEdge} {pending : List ImportEdge}
    {below : List Frame} (hstack : w.stack = { unit, pending := edge :: pending } :: below) :
    Faces index w event ↔ event = .tried unit.key edge.specifier ∨
      ∃ target, index.target? unit.name edge.specifier = some target ∧
        w.marks.get? target.key = some .visiting ∧
        event = .closed (memberKeys (w.pathFrom target.key)) := by
  constructor
  · intro h
    cases h with
    | tried hstack' =>
        rw [hstack] at hstack'
        injection hstack' with hframe
        injection hframe with hunit hpending
        injection hpending with hedge
        exact Or.inl (by rw [hunit, hedge])
    | closed hstack' htarget hmark =>
        rw [hstack] at hstack'
        injection hstack' with hframe
        injection hframe with hunit hpending
        injection hpending with hedge
        exact Or.inr ⟨_, by rw [hunit, hedge]; exact htarget, hmark, rfl⟩
  · rintro (rfl | ⟨target, htarget, hmark, rfl⟩)
    · exact .tried hstack
    · exact .closed hstack htarget hmark

/-- **A step records what the walk faces, and nothing else.** -/
theorem Move.records {c : Bundler × Walk} (hb : b.Sound index) (h : b.Accounted index)
    (hmove : Move index b w c) : Bundler.Records index { event | Faces index w event } b c.1 := by
  -- Unless a cycle is closed, the specifier is all that is faced.
  have hresolve : ∀ {unit edge pending below},
      w.stack = { unit, pending := edge :: pending } :: below →
      (∀ target, index.target? unit.name edge.specifier = some target →
        w.marks.get? target.key ≠ some .visiting) →
      Bundler.Records index { event | Faces index w event } b (b.resolve unit edge).2 := by
    intro unit edge pending below hstack hopen
    have hevents : { event | Faces index w event } = {.tried unit.key edge.specifier} := by
      ext event
      rw [Set.mem_ofPred_eq, faces_iff_of_edge hstack, Set.mem_singleton_iff]
      refine or_iff_left ?_
      rintro ⟨target, htarget, hmark, -⟩
      exact hopen target htarget hmark
    rw [hevents]
    exact h.records_resolve hb unit edge
  cases hmove with
  | finish hstack =>
      refine h.records ?_
      intro event hfaces
      exact absurd hfaces (not_faces_of_finish hstack)
  | miss hstack htarget =>
      refine hresolve hstack fun target htarget' => ?_
      rw [htarget] at htarget'
      simp at htarget'
  | skip hstack htarget hmark =>
      refine hresolve hstack fun target htarget' => ?_
      rw [← Option.some.inj (htarget.symm.trans htarget'), hmark]
      simp
  | enter hstack htarget hmark =>
      refine hresolve hstack fun target htarget' => ?_
      rw [← Option.some.inj (htarget.symm.trans htarget'), hmark]
      simp
  | @close unit target edge pending below hstack htarget hmark =>
      have hevents : { event | Faces index w event }
          = {.tried unit.key edge.specifier}
            ∪ {.closed (memberKeys (w.pathFrom target.key))} := by
        ext event
        rw [Set.mem_ofPred_eq, faces_iff_of_edge hstack, Set.mem_union, Set.mem_singleton_iff,
          Set.mem_singleton_iff]
        refine or_congr_right ⟨?_, fun heq => ⟨target, htarget, hmark, heq⟩⟩
        rintro ⟨target', htarget', -, heq⟩
        rw [Option.some.inj (htarget.symm.trans htarget')]
        exact heq
      have hfirst := h.records_resolve hb unit edge
      rw [hevents]
      exact hfirst.trans (hfirst.accounted.records_reportCycle (hb.resolve unit edge) _ edge)

/-! ### From a step to a run -/

theorem meets_iff_of_step? (hb : b.Sound index) (hstep : step? b w = some (b', w')) :
    Meets index w event ↔ Faces index w event ∨ Meets index w' event := by
  obtain ⟨b₁, hstep₁⟩ := exists_step?_of_step? hb.toTruthful
    (Bundler.sound_ofIndex index).toTruthful hstep
  constructor
  · intro h
    cases h with
    | now hfaces => exact Or.inl hfaces
    | later hstep₂ hlater =>
        rw [hstep₁, Option.some.injEq, Prod.mk.injEq] at hstep₂
        rw [hstep₂.2]
        exact Or.inr hlater
  · rintro (hfaces | hlater)
    · exact .now hfaces
    · exact .later hstep₁ hlater

private theorem not_meets_of_stack_eq_nil (hstack : w.stack = []) : ¬ Meets index w event := by
  intro h
  cases h with
  | now hfaces =>
      cases hfaces with
      | tried hstack' => simp [hstack] at hstack'
      | closed hstack' => simp [hstack] at hstack'
  | later hstep =>
      rw [step?_eq_none_iff.2 hstack] at hstep
      simp at hstep

/-- **A run records what its start meets, whatever was asked of the bundler before.** -/
theorem records_run (hkeyed : index.WellKeyed) (hentry : entry ∈ index.units)
    (hw : Consistent index entry w) (hb : b.Sound index) (h : b.Accounted index) :
    Bundler.Records index { event | Meets index w event } b (run b w).1 := by
  let P (b' : Bundler) (w' : Walk) : Prop :=
    Consistent index entry w' ∧ b'.Sound index ∧ b'.Accounted index ∧
      b'.record ∪ { event | Meets index w' event } = b.record ∪ { event | Meets index w event }
  have hstep : ∀ b₁ w₁ b₂ w₂, P b₁ w₁ → step? b₁ w₁ = some (b₂, w₂) → P b₂ w₂ := by
    rintro b₁ w₁ b₂ w₂ ⟨hw₁, hb₁, h₁, hsame⟩ hsome
    have hmove := move_of_step? hb₁ hsome
    have hrecords := hmove.records hb₁ h₁
    refine ⟨hw₁.move hmove, (hw₁.sound_move hkeyed hentry hb₁ hmove).1, hrecords.accounted, ?_⟩
    have hmeets : { event | Meets index w₁ event }
        = { event | Faces index w₁ event } ∪ { event | Meets index w₂ event } := by
      ext event
      exact meets_iff_of_step? hb₁ hsome
    rw [← hsame, hmeets, ← Set.union_assoc]
    exact congrArg (· ∪ _) hrecords.record_eq
  obtain ⟨⟨-, -, haccounted, hsame⟩, hempty⟩ := run_induction hstep ⟨hw, hb, h, rfl⟩
  have hnone : { event | Meets index (run b w).2 event } = ∅ :=
    Set.eq_empty_of_forall_notMem fun event => not_meets_of_stack_eq_nil hempty
  rw [hnone, Set.union_empty] at hsame
  exact ⟨haccounted, hsame⟩

/-- A specifier that a walk meets stands in a unit that the entry reaches. -/
theorem Meets.reached (hw : Consistent index entry w) {key : UnitKey} {specifier : Text}
    (h : Meets index w (.tried key specifier)) :
    ∃ unit, index.Reaches entry unit ∧ .tried key specifier ∈ unit.triedBy unit.imports := by
  generalize hevent : Event.tried key specifier = event at h
  induction h with
  | now hfaces =>
      cases hfaces with
      | @tried unit edge pending below hstack =>
          have hreached : index.Reaches entry unit := by
            refine hw.reached unit (Or.inl ?_)
            rw [stacked_of_stack hstack]
            exact List.mem_cons_self
          have hedge : edge ∈ unit.imports :=
            hw.pending { unit, pending := edge :: pending }
              (by rw [hstack]; exact List.mem_cons_self) edge List.mem_cons_self
          exact ⟨unit, hreached, edge, hedge, rfl⟩
      | closed hstack htarget hmark => simp at hevent
  | later hstep _ ih =>
      exact ih (hw.move (move_of_step? (Bundler.sound_ofIndex index) hstep)) hevent

end SolidityBundler.Walk
