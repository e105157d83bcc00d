/-
The states that a walk passes.

What a walk meets is what it faces in one of the states that it passes.  So an event can be put
down to a state, and what holds of all states that are passed holds there.

Two facts about the stack are used for it.  A step changes nothing below the top unit, and it takes
off or puts on one unit at most.  So a unit stands right above another one only if the walk went
from the one directly into the other; and what a unit on the stack has still to follow is followed
before the walk is over.
-/
import Mathlib.Data.Finset.Card
import SolidityBundler.Proofs.Walk.Meets

namespace SolidityBundler.Walk

/-- One step leads from `w` to `w'`, taken with a bundler that was asked nothing before. -/
def Precedes (index : UnitIndex) (w w' : Walk) : Prop :=
  ∃ b, step? (.ofIndex index) w = some (b, w')

/-- The walk `w` comes to be `w'`. -/
abbrev Passes (index : UnitIndex) : Walk → Walk → Prop := Relation.ReflTransGen (Precedes index)

variable {index : UnitIndex} {entry u v : SourceUnit} {b : Bundler} {c : Bundler × Walk}
  {w w' : Walk} {event : Event}

theorem Precedes.exists_move (h : Precedes index w w') :
    ∃ b, Move index (.ofIndex index) w (b, w') := by
  obtain ⟨b, hstep⟩ := h
  exact ⟨b, move_of_step? (Bundler.sound_ofIndex index) hstep⟩

/-- A walk with a unit on the stack is not over. -/
theorem exists_precedes (index : UnitIndex) (h : w.stack ≠ []) : ∃ w', Precedes index w w' := by
  cases hstep : step? (.ofIndex index) w with
  | none => exact absurd (step?_eq_none_iff.1 hstep) h
  | some c => exact ⟨c.2, c.1, hstep⟩

private theorem Precedes.weight_lt (h : Precedes index w w') :
    weight index w' < weight index w := by
  obtain ⟨b, hstep⟩ := h
  have hlt := weight_lt_of_step hstep
  rwa [step?_index hstep] at hlt

theorem Meets.of_passes (hpasses : Passes index w w') (h : Meets index w' event) :
    Meets index w event := by
  induction hpasses using Relation.ReflTransGen.head_induction_on with
  | refl => exact h
  | head hstep _ ih =>
      obtain ⟨b, hstep⟩ := hstep
      exact .later hstep ih

/-- **What is met is faced in a state that is passed.** -/
theorem Meets.exists_passes (h : Meets index w event) :
    ∃ w', Passes index w w' ∧ Faces index w' event := by
  induction h with
  | now hfaces => exact ⟨_, .refl, hfaces⟩
  | later hstep _ ih =>
      obtain ⟨w', hpasses, hfaces⟩ := ih
      exact ⟨w', hpasses.head ⟨_, hstep⟩, hfaces⟩

theorem Consistent.passes (h : Consistent index entry w) (hpasses : Passes index w w') :
    Consistent index entry w' := by
  induction hpasses with
  | refl => exact h
  | tail _ hstep ih =>
      obtain ⟨b, hmove⟩ := hstep.exists_move
      exact ih.move hmove

/-! ### What a step leaves on the stack -/

/-- With a statement pending, the unit on top stays where it is, with one statement less. -/
theorem Move.stack_of_edge (h : Move index b w c) {unit : SourceUnit} {edge : ImportEdge}
    {pending : List ImportEdge} {below : List Frame}
    (hstack : w.stack = { unit, pending := edge :: pending } :: below) :
    ∃ above, c.2.stack = above ++ { unit, pending } :: below := by
  cases h with
  | finish hstack' =>
      rw [hstack] at hstack'
      simp at hstack'
  | miss hstack' | skip hstack' | close hstack' =>
      rw [hstack, List.cons.injEq, Frame.mk.injEq, List.cons.injEq] at hstack'
      obtain ⟨⟨rfl, rfl, rfl⟩, rfl⟩ := hstack'
      exact ⟨[], rfl⟩
  | @enter _ target _ _ _ hstack' =>
      rw [hstack, List.cons.injEq, Frame.mk.injEq, List.cons.injEq] at hstack'
      obtain ⟨⟨rfl, rfl, rfl⟩, rfl⟩ := hstack'
      exact ⟨[{ unit := target, pending := target.imports }], rfl⟩

theorem Move.stack_below (h : Move index b w c) {top : Frame} {below : List Frame}
    (hstack : w.stack = top :: below) : ∃ above, c.2.stack = above ++ below := by
  obtain ⟨unit, pending⟩ := top
  cases pending with
  | nil =>
      cases h with
      | finish hstack' =>
          rw [hstack, List.cons.injEq] at hstack'
          exact ⟨[], hstack'.2.symm⟩
      | miss hstack' | skip hstack' | close hstack' | enter hstack' =>
          rw [hstack] at hstack'
          simp at hstack'
  | cons edge pending =>
      obtain ⟨above, habove⟩ := h.stack_of_edge hstack
      exact ⟨above ++ [Frame.mk unit pending], by rw [habove, List.append_assoc]; rfl⟩

/-- From a stack with `below` at its bottom the walk comes back to `below`. -/
theorem exists_passes_below (index : UnitIndex) (w : Walk) {above below : List Frame}
    (hstack : w.stack = above ++ below) : ∃ w', Passes index w w' ∧ w'.stack = below := by
  cases habove : above with
  | nil => exact ⟨w, .refl, by rw [hstack, habove, List.nil_append]⟩
  | cons top rest =>
      rw [habove, List.cons_append] at hstack
      obtain ⟨next, hnext⟩ := exists_precedes index (w := w) (by rw [hstack]; simp)
      obtain ⟨b, hmove⟩ := hnext.exists_move
      obtain ⟨above', habove'⟩ := hmove.stack_below hstack
      have hlt := hnext.weight_lt
      rw [← List.append_assoc] at habove'
      obtain ⟨w', hpasses, hstack'⟩ := exists_passes_below index next habove'
      exact ⟨w', hpasses.head hnext, hstack'⟩
termination_by weight index w

/-! ### Going directly from one unit into another -/

/-- The walk from `entry` goes directly from `u` into `v`. -/
def Enters (index : UnitIndex) (entry u v : SourceUnit) : Prop :=
  ∃ w edge pending below, Passes index (start entry) w ∧
    w.stack = { unit := u, pending := edge :: pending } :: below ∧
    index.target? u.name edge.specifier = some v ∧ w.marks.get? v.key = none

/-- **A unit stands right above another one only if the walk went directly into it.** -/
theorem enters_of_stacked (hpasses : Passes index (start entry) w)
    (h : [v, u] <:+: w.stacked) : Enters index entry u v := by
  induction hpasses with
  | refl =>
      have hlength := h.length_le
      simp [stacked, start] at hlength
  | @tail w w' hbefore hstep ih =>
      obtain ⟨b, hmove⟩ := hstep.exists_move
      cases hmove with
      | finish hstack =>
          refine ih ?_
          rw [stacked_of_stack hstack]
          exact List.infix_cons h
      | miss hstack | skip hstack | close hstack =>
          rw [stacked_advance hstack] at h
          exact ih h
      | @enter unit target edge pending below hstack htarget hmark =>
          have hstacked : ((w.advance unit pending below).enter target).stacked
              = target :: w.stacked := by
            rw [← stacked_advance hstack]
            rfl
          rw [hstacked, List.infix_cons_iff] at h
          rcases h with hprefix | hrest
          · rw [stacked_of_stack hstack, List.cons_prefix_cons, List.cons_prefix_cons] at hprefix
            obtain ⟨rfl, rfl, -⟩ := hprefix
            exact ⟨w, edge, pending, below, hbefore, hstack, htarget, hmark⟩
          · exact ih hrest

/-- `v` stands right above `u`, and one of its pending statements leads back to `u`. -/
def Awaits (index : UnitIndex) (u v : SourceUnit) (w : Walk) : Prop :=
  ∃ above pending rest below,
    w.stack = above ++ { unit := v, pending } :: { unit := u, pending := rest } :: below ∧
    ∃ edge ∈ pending, index.target? v.name edge.specifier = some u

private theorem memberKeys_pair (u v : SourceUnit) : memberKeys [u, v] = {u.key, v.key} := by
  simp [memberKeys]

/-- The statement is followed next, and closes the cycle of the two, or it still waits behind the
step. -/
theorem Awaits.move (hw : Consistent index entry w) (hmove : Move index b w c)
    (h : Awaits index u v w) :
    Faces index w (.closed {u.key, v.key}) ∨ Awaits index u v c.2 := by
  obtain ⟨above, pending, rest, below, hstack, edge, hedge, htarget⟩ := h
  cases above with
  | cons top above =>
      rw [List.cons_append] at hstack
      obtain ⟨above', habove'⟩ := hmove.stack_below hstack
      rw [← List.append_assoc] at habove'
      exact Or.inr ⟨above' ++ above, pending, rest, below, habove', edge, hedge, htarget⟩
  | nil =>
      rw [List.nil_append] at hstack
      cases pending with
      | nil => exact absurd hedge List.not_mem_nil
      | cons next pending =>
          by_cases hnext : index.target? v.name next.specifier = some u
          · refine Or.inl ?_
            have hstacked : w.stacked = [v] ++ u :: below.map Frame.unit := stacked_of_stack hstack
            have hmark : w.marks.get? u.key = some .visiting :=
              (hw.visiting u.key).2 (by rw [hstacked]; simp)
            have hfaces := Faces.closed hstack hnext hmark
            rwa [pathFrom_eq hw.stackDistinct hstacked, List.singleton_append,
              List.reverse_cons, List.reverse_singleton, List.singleton_append,
              memberKeys_pair] at hfaces
          · obtain ⟨above', habove'⟩ := hmove.stack_of_edge hstack
            have hne : edge ≠ next := by
              rintro rfl
              exact hnext htarget
            exact Or.inr ⟨above', pending, rest, below, habove', edge,
              (List.mem_cons.1 hedge).resolve_left hne, htarget⟩

/-- What waits is followed before the walk is over. -/
theorem Awaits.meets {w : Walk} (hw : Consistent index entry w) (h : Awaits index u v w) :
    Meets index w (.closed {u.key, v.key}) := by
  have hstack : w.stack ≠ [] := by
    obtain ⟨above, pending, rest, below, hstack, -⟩ := h
    rw [hstack]
    simp
  obtain ⟨w', hstep⟩ := exists_precedes index hstack
  obtain ⟨b, hmove⟩ := hstep.exists_move
  rcases h.move hw hmove with hfaces | hlater
  · exact .now hfaces
  · have hlt := hstep.weight_lt
    have hw' : Consistent index entry w' := hw.move hmove
    exact (Awaits.meets hw' hlater).of_passes (.single hstep)
termination_by weight index w

/-- **Going from one unit directly into another one that imports it closes the cycle of the
two.** -/
theorem Enters.meets (h : Enters index entry u v) (himports : index.Imports v u) :
    Meets index (start entry) (.closed {u.key, v.key}) := by
  obtain ⟨w, edge, pending, below, hpasses, hstack, htarget, hmark⟩ := h
  have hstep : Precedes index w ((w.advance u pending below).enter v) := by
    have hnew : (w.advance u pending below).marks.get? v.key = none := hmark
    refine ⟨((Bundler.ofIndex index).resolve u edge).2, ?_⟩
    rw [step?_of_edge hstack, (Bundler.sound_ofIndex index).resolve_eq, htarget]
    simp only [follow, hnew]
  have hentered := hpasses.tail hstep
  have hawaits : Awaits index u v ((w.advance u pending below).enter v) :=
    ⟨[], v.imports, pending, below, rfl, himports⟩
  exact (hawaits.meets ((consistent_start index entry).passes hentered)).of_passes hentered

/-- **The cycle of two units is closed only where the walk went from one of them directly into the
other.** -/
theorem exists_enters_of_meets (hkeyed : index.WellKeyed) (hentry : entry ∈ index.units)
    (hu : u ∈ index.units) (hv : v ∈ index.units) (hne : u ≠ v)
    (h : Meets index (start entry) (.closed {u.key, v.key})) :
    Enters index entry u v ∨ Enters index entry v u := by
  obtain ⟨w, hpasses, hfaces⟩ := h.exists_passes
  have hw := (consistent_start index entry).passes hpasses
  generalize hevent : Event.closed {u.key, v.key} = event at hfaces
  cases hfaces with
  | tried hstack => simp at hevent
  | @closed top target edge pending below hstack htarget hmark =>
      have htargetMem := UnitIndex.mem_units_of_target? htarget
      obtain ⟨above, lower, hsplit⟩ :=
        List.append_of_mem (hw.mem_stacked hkeyed hentry htargetMem hmark)
      rw [pathFrom_eq hw.stackDistinct hsplit, Event.closed.injEq] at hevent
      -- The path holds two units, so one unit stands above the one that is led back to.
      have hdistinct : ((above ++ [target]).reverse.map SourceUnit.key).Nodup := by
        have hkeys := hw.stackDistinct
        rw [hsplit, ← List.singleton_append, ← List.append_assoc, List.map_append] at hkeys
        rw [List.map_reverse, List.nodup_reverse]
        exact (List.nodup_append.1 hkeys).1
      have hcard := congrArg Finset.card hevent
      rw [memberKeys, List.toFinset_card_of_nodup hdistinct, List.length_map, List.length_reverse,
        List.length_append, List.length_singleton,
        Finset.card_pair fun hkey => hne (hkeyed.identified u hu v hv hkey)] at hcard
      obtain ⟨upper, rfl⟩ := List.length_eq_one_iff.1 (Nat.succ.inj hcard.symm)
      have hentered : Enters index entry target upper :=
        enters_of_stacked hpasses ⟨[], lower, by rw [hsplit]; rfl⟩
      have hupper : upper ∈ index.units :=
        (hw.reached upper (Or.inl (by rw [hsplit]; exact List.mem_cons_self))).mem_units hentry
      have hmember : ∀ unit ∈ index.units, unit.key ∈ ({u.key, v.key} : Finset UnitKey) →
          unit = target ∨ unit = upper := by
        intro unit hunit hkey
        rw [hevent, List.singleton_append, List.reverse_cons, List.reverse_singleton,
          List.singleton_append, memberKeys_pair, Finset.mem_insert, Finset.mem_singleton] at hkey
        exact hkey.imp (hkeyed.identified unit hunit target htargetMem)
          (hkeyed.identified unit hunit upper hupper)
      rcases hmember u hu (Finset.mem_insert_self _ _) with rfl | rfl
      · rcases hmember v hv (by simp) with rfl | rfl
        · exact absurd rfl hne
        · exact Or.inl hentered
      · rcases hmember v hv (by simp) with rfl | rfl
        · exact Or.inr hentered
        · exact absurd rfl hne

end SolidityBundler.Walk
