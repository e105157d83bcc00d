/-
Stack, marks and order stay in step.

Between any two steps of a walk the stack is a path of the import graph that leads up from
the entry, its units are exactly the units marked as visiting, and the listed units are
exactly those marked as done.  `Consistent` says so, and every step keeps it.

One consequence is what makes a report of a cycle true.  A statement that leads to a unit
marked as visiting leads to a unit on the stack, so the part of the path from that unit on
is a row of imports that the statement closes.
-/
import Mathlib.Data.List.Nodup
import SolidityBundler.Proofs.Walk.Step

namespace SolidityBundler.Walk

/-- What holds of a walk from `entry` between any two steps. -/
structure Consistent (index : UnitIndex) (entry : SourceUnit) (w : Walk) : Prop where
  /-- The units on the stack are those marked as visiting. -/
  visiting : ∀ key, w.marks.get? key = some .visiting ↔ key ∈ w.stacked.map SourceUnit.key
  /-- The listed units are those marked as done. -/
  done : ∀ key, w.marks.get? key = some .done ↔ key ∈ w.order.map SourceUnit.key
  stackDistinct : (w.stacked.map SourceUnit.key).Nodup
  orderDistinct : (w.order.map SourceUnit.key).Nodup
  /-- Each unit on the stack imports the unit above it. -/
  chain : w.stacked.IsChain fun upper lower => index.Imports lower upper
  /-- A unit follows its own statements. -/
  pending : ∀ frame ∈ w.stack, ∀ edge ∈ frame.pending, edge ∈ frame.unit.imports
  reached : ∀ unit, unit ∈ w.stacked ∨ unit ∈ w.order → index.Reaches entry unit
  /-- The entry is at the bottom of the stack, and once the stack is empty it is listed last. -/
  entryLast : w.stacked.getLast? = some entry ∨
    (w.stacked = [] ∧ w.order.getLast? = some entry)

variable {index : UnitIndex} {entry : SourceUnit} {w : Walk}

theorem consistent_start (index : UnitIndex) (entry : SourceUnit) :
    Consistent index entry (start entry) where
  visiting := by
    intro key
    simp only [start, stacked, Table.get?_insert, List.map_cons, List.map_nil,
      List.mem_singleton]
    by_cases h : entry.key = key
    · simp [h]
    · simp [h, Ne.symm h]
  done := by
    intro key
    simp only [start, Table.get?_insert]
    by_cases h : entry.key = key
    · simp [h]
    · simp [h]
  stackDistinct := by simp [start, stacked]
  orderDistinct := by simp [start]
  chain := by simp [start, stacked]
  pending := by
    intro frame hframe edge hedge
    simp only [start, List.mem_singleton] at hframe
    subst hframe
    exact hedge
  reached := by
    intro unit hunit
    simp only [start, stacked, List.map_cons, List.map_nil, List.mem_singleton,
      List.not_mem_nil, or_false] at hunit
    rw [hunit]
  entryLast := Or.inl rfl

/-! ### Units with a mark -/

/-- A unit marked as visiting is on the stack. -/
theorem Consistent.mem_stacked (hkeyed : index.WellKeyed) (hentry : entry ∈ index.units)
    (h : Consistent index entry w) {unit : SourceUnit} (hunit : unit ∈ index.units)
    (hmark : w.marks.get? unit.key = some .visiting) : unit ∈ w.stacked := by
  obtain ⟨other, hother, hkey⟩ := List.mem_map.1 ((h.visiting unit.key).1 hmark)
  have hmem : other ∈ index.units := (h.reached other (Or.inl hother)).mem_units hentry
  rw [← hkeyed.identified other hmem unit hunit hkey]
  exact hother

/-- A unit marked as done is listed. -/
theorem Consistent.mem_order (hkeyed : index.WellKeyed) (hentry : entry ∈ index.units)
    (h : Consistent index entry w) {unit : SourceUnit} (hunit : unit ∈ index.units)
    (hmark : w.marks.get? unit.key = some .done) : unit ∈ w.order := by
  obtain ⟨other, hother, hkey⟩ := List.mem_map.1 ((h.done unit.key).1 hmark)
  have hmem : other ∈ index.units := (h.reached other (Or.inr hother)).mem_units hentry
  rw [← hkeyed.identified other hmem unit hunit hkey]
  exact hother

/-! ### Steps keep the invariant -/

/-- The top unit stands nowhere else, on the stack or in the list. -/
theorem Consistent.top_notMem (h : Consistent index entry w) {unit : SourceUnit}
    {below : List SourceUnit} (hstacked : w.stacked = unit :: below) :
    unit.key ∉ below.map SourceUnit.key ∧ unit.key ∉ w.order.map SourceUnit.key := by
  have hdistinct := h.stackDistinct
  rw [hstacked, List.map_cons, List.nodup_cons] at hdistinct
  refine ⟨hdistinct.1, ?_⟩
  intro hmem
  have hvisiting : w.marks.get? unit.key = some .visiting :=
    (h.visiting unit.key).2 (by rw [hstacked]; simp)
  rw [(h.done unit.key).2 hmem] at hvisiting
  simp at hvisiting

/-- The entry stays at the bottom of the stack until it is the last one listed. -/
theorem Consistent.entryLast_finish (h : Consistent index entry w) {unit : SourceUnit}
    {below : List SourceUnit} (hstacked : w.stacked = unit :: below) :
    below.getLast? = some entry ∨ (below = [] ∧ (w.order ++ [unit]).getLast? = some entry) := by
  rcases h.entryLast with hbottom | ⟨hempty, -⟩
  · rw [hstacked] at hbottom
    cases below with
    | nil =>
        rw [List.getLast?_singleton] at hbottom
        exact Or.inr ⟨rfl, by rw [List.getLast?_concat, hbottom]⟩
    | cons next rest =>
        rw [List.getLast?_cons_cons] at hbottom
        exact Or.inl hbottom
  · rw [hstacked] at hempty
    simp at hempty

theorem Consistent.finish (h : Consistent index entry w) {unit : SourceUnit}
    {below : List Frame} (hstack : w.stack = { unit, pending := [] } :: below) :
    Consistent index entry (w.finish unit below) := by
  have hstacked : w.stacked = unit :: (w.finish unit below).stacked := stacked_of_stack hstack
  obtain ⟨hnotBelow, hnotDone⟩ := h.top_notMem hstacked
  refine ⟨?_, ?_, ?_, ?_, ?_, ?_, ?_, h.entryLast_finish hstacked⟩
  · intro key
    have hold := h.visiting key
    rw [hstacked, List.map_cons, List.mem_cons] at hold
    show (w.marks.insert unit.key .done).get? key = _ ↔ _
    rw [Table.get?_insert]
    by_cases hkey : unit.key = key
    · subst hkey
      simp [hnotBelow]
    · rw [if_neg hkey, hold]
      simp [Ne.symm hkey]
  · intro key
    show (w.marks.insert unit.key .done).get? key = _ ↔ key ∈ (w.order ++ [unit]).map _
    rw [Table.get?_insert, List.map_append, List.mem_append, ← h.done key]
    by_cases hkey : unit.key = key
    · simp [hkey]
    · simp [hkey, Ne.symm hkey]
  · have hdistinct := h.stackDistinct
    rw [hstacked, List.map_cons, List.nodup_cons] at hdistinct
    exact hdistinct.2
  · show ((w.order ++ [unit]).map SourceUnit.key).Nodup
    rw [List.map_append, List.map_singleton]
    refine List.nodup_append.2 ⟨h.orderDistinct, by simp, ?_⟩
    intro key hkey other hother heq
    rw [List.mem_singleton] at hother
    rw [heq, hother] at hkey
    exact hnotDone hkey
  · have hchain := h.chain
    rw [hstacked] at hchain
    exact hchain.tail
  · intro frame hframe
    exact h.pending frame (by rw [hstack]; exact List.mem_cons_of_mem _ hframe)
  · intro other hother
    refine h.reached other ?_
    rw [hstacked]
    rcases hother with hbelow | horder
    · exact Or.inl (List.mem_cons_of_mem _ hbelow)
    · rcases List.mem_append.1 horder with hold | hnew
      · exact Or.inr hold
      · exact Or.inl (by rw [List.mem_singleton.1 hnew]; exact List.mem_cons_self)

theorem Consistent.advance (h : Consistent index entry w) {unit : SourceUnit}
    {edge : ImportEdge} {pending : List ImportEdge} {below : List Frame}
    (hstack : w.stack = { unit, pending := edge :: pending } :: below) :
    Consistent index entry (w.advance unit pending below) := by
  have hstacked := stacked_advance hstack
  refine ⟨?_, h.done, ?_, h.orderDistinct, ?_, ?_, ?_, ?_⟩
  · rw [hstacked]
    exact h.visiting
  · rw [hstacked]
    exact h.stackDistinct
  · rw [hstacked]
    exact h.chain
  · intro frame hframe e he
    rcases List.mem_cons.1 hframe with rfl | hbelow
    · have htop : { unit, pending := edge :: pending } ∈ w.stack := by
        rw [hstack]
        exact List.mem_cons_self
      exact h.pending _ htop e (List.mem_cons_of_mem _ he)
    · exact h.pending frame (by rw [hstack]; exact List.mem_cons_of_mem _ hbelow) e he
  · rw [hstacked]
    exact h.reached
  · rw [hstacked]
    exact h.entryLast

theorem Consistent.enter (h : Consistent index entry w) {unit target : SourceUnit}
    {below : List SourceUnit} (hstacked : w.stacked = unit :: below)
    (himports : index.Imports unit target) (hmark : w.marks.get? target.key = none) :
    Consistent index entry (w.enter target) := by
  have hnew : (w.enter target).stacked = target :: w.stacked := rfl
  have hnotStacked : target.key ∉ w.stacked.map SourceUnit.key := by
    rw [← h.visiting, hmark]
    simp
  have hnotDone : target.key ∉ w.order.map SourceUnit.key := by
    rw [← h.done, hmark]
    simp
  refine ⟨?_, ?_, ?_, h.orderDistinct, ?_, ?_, ?_, ?_⟩
  · intro key
    show (w.marks.insert target.key .visiting).get? key = _ ↔ _
    rw [Table.get?_insert, hnew, List.map_cons, List.mem_cons, ← h.visiting key]
    by_cases hkey : target.key = key
    · simp [hkey]
    · simp [hkey, Ne.symm hkey]
  · intro key
    show (w.marks.insert target.key .visiting).get? key = _ ↔ key ∈ w.order.map _
    rw [Table.get?_insert]
    by_cases hkey : target.key = key
    · subst hkey
      simp [hnotDone]
    · rw [if_neg hkey, h.done key]
  · rw [hnew, List.map_cons, List.nodup_cons]
    exact ⟨hnotStacked, h.stackDistinct⟩
  · rw [hnew]
    refine h.chain.cons ?_
    intro next hnext
    rw [hstacked, List.head?_cons, Option.mem_some_iff] at hnext
    rw [← hnext]
    exact himports
  · intro frame hframe e he
    rcases List.mem_cons.1 hframe with rfl | hbelow
    · exact he
    · exact h.pending frame hbelow e he
  · intro other hother
    rw [hnew] at hother
    rcases hother with hstack | horder
    · rcases List.mem_cons.1 hstack with rfl | hold
      · have htop : unit ∈ w.stacked := by
          rw [hstacked]
          exact List.mem_cons_self
        exact (h.reached unit (Or.inl htop)).tail himports
      · exact h.reached other (Or.inl hold)
    · exact h.reached other (Or.inr horder)
  · rw [hnew, hstacked, List.getLast?_cons_cons, ← hstacked]
    rcases h.entryLast with hbottom | ⟨hempty, -⟩
    · exact Or.inl hbottom
    · rw [hstacked] at hempty
      simp at hempty

/-- The unit on top imports what its next statement refers to. -/
theorem Consistent.imports (h : Consistent index entry w) {unit target : SourceUnit}
    {edge : ImportEdge} {pending : List ImportEdge} {below : List Frame}
    (hstack : w.stack = { unit, pending := edge :: pending } :: below)
    (htarget : index.target? unit.name edge.specifier = some target) :
    edge ∈ unit.imports ∧ index.Imports unit target := by
  have hedge : edge ∈ unit.imports :=
    h.pending { unit, pending := edge :: pending } (by rw [hstack]; exact List.mem_cons_self)
      edge List.mem_cons_self
  exact ⟨hedge, edge, hedge, htarget⟩

theorem Consistent.move {b : Bundler} {c : Bundler × Walk} (h : Consistent index entry w)
    (hmove : Move index b w c) : Consistent index entry c.2 := by
  cases hmove with
  | finish hstack => exact h.finish hstack
  | miss hstack htarget => exact h.advance hstack
  | skip hstack htarget hmark => exact h.advance hstack
  | close hstack htarget hmark => exact h.advance hstack
  | enter hstack htarget hmark =>
      exact (h.advance hstack).enter rfl (h.imports hstack htarget).2 hmark

/-! ### The statement that closes a cycle -/

/-- The path from a unit on: the unit itself, then the units above it on the stack. -/
theorem pathFrom_eq {above below : List SourceUnit} {target : SourceUnit}
    (hdistinct : (w.stacked.map SourceUnit.key).Nodup)
    (hstacked : w.stacked = above ++ target :: below) :
    w.pathFrom target.key = (above ++ [target]).reverse := by
  have hbelow : ∀ unit ∈ below.reverse, (unit.key != target.key) = true := by
    intro unit hunit
    rw [hstacked, List.map_append, List.map_cons] at hdistinct
    have hnotMem := (List.nodup_cons.1 (List.nodup_append.1 hdistinct).2.1).1
    rw [bne_iff_ne]
    intro heq
    rw [← heq] at hnotMem
    exact hnotMem (List.mem_map_of_mem (List.mem_reverse.1 hunit))
  have hpath : w.path = below.reverse ++ (target :: above.reverse) := by
    show w.stacked.reverse = _
    rw [hstacked]
    simp
  rw [pathFrom, hpath, List.dropWhile_append_of_pos hbelow, List.dropWhile_cons_of_neg (by simp)]
  simp

/-- A statement that leads back to the stack closes the part of the path that it leads to. -/
theorem Consistent.closedBy (hkeyed : index.WellKeyed) (hentry : entry ∈ index.units)
    (h : Consistent index entry w) {unit target : SourceUnit} {edge : ImportEdge}
    {pending : List ImportEdge} {below : List Frame}
    (hstack : w.stack = { unit, pending := edge :: pending } :: below)
    (htarget : index.target? unit.name edge.specifier = some target)
    (hmark : w.marks.get? target.key = some .visiting) :
    index.ClosedBy (w.pathFrom target.key) edge ∧ unit ∈ w.pathFrom target.key ∧
      target ∈ w.pathFrom target.key ∧ ∀ m ∈ w.pathFrom target.key, m ∈ w.stacked := by
  have hmem : target ∈ w.stacked :=
    h.mem_stacked hkeyed hentry (UnitIndex.mem_units_of_target? htarget) hmark
  obtain ⟨above, lower, hsplit⟩ := List.append_of_mem hmem
  have htop : (above ++ [target]).head? = some unit := by
    have hhead : w.stacked.head? = some unit := by
      rw [stacked_of_stack hstack, List.head?_cons]
    rw [hsplit] at hhead
    cases above with
    | nil => exact hhead
    | cons first rest => exact hhead
  have hfront : w.stacked = (above ++ [target]) ++ lower := by
    rw [hsplit]
    simp
  rw [pathFrom_eq h.stackDistinct hsplit]
  refine ⟨⟨?_, ?_, target, unit, ?_, ?_, (h.imports hstack htarget).1, htarget⟩, ?_, ?_, ?_⟩
  · have hdistinct := h.stackDistinct
    rw [hfront, List.map_append] at hdistinct
    rw [List.map_reverse, List.nodup_reverse]
    exact (List.nodup_append.1 hdistinct).1
  · have hchain := h.chain
    rw [hfront] at hchain
    rw [List.isChain_reverse]
    exact hchain.left_of_append
  · simp
  · rw [List.getLast?_reverse, htop]
  · rw [List.mem_reverse]
    exact List.mem_of_head? htop
  · simp
  · intro m hm
    rw [hfront]
    exact List.mem_append_left _ (List.mem_reverse.1 hm)

/-! ### The bundler during a walk -/

/-- A step keeps what the bundler remembers true, and a cycle it reports lies on the stack. -/
theorem Consistent.sound_move (hkeyed : index.WellKeyed) (hentry : entry ∈ index.units)
    (h : Consistent index entry w) {b : Bundler} (hb : b.Sound index) {c : Bundler × Walk}
    (hmove : Move index b w c) :
    c.1.Sound index ∧ b.Grows c.1 ∧
      ∀ cycle ∈ c.1.cycles, cycle ∈ b.cycles ∨ ∀ m ∈ cycle.1, m ∈ w.stacked := by
  -- Four of the five cases report no cycle, and three of these do no more than resolve.
  have hresolve : ∀ unit edge, (b.resolve unit edge).2.Sound index ∧
      b.Grows (b.resolve unit edge).2 ∧
      ∀ cycle ∈ (b.resolve unit edge).2.cycles,
        cycle ∈ b.cycles ∨ ∀ m ∈ cycle.1, m ∈ w.stacked := by
    intro unit edge
    refine ⟨hb.resolve unit edge, b.resolve_grows unit edge, ?_⟩
    intro cycle hcycle
    rw [(b.resolve_cycles unit edge).1] at hcycle
    exact Or.inl hcycle
  cases hmove with
  | finish hstack => exact ⟨hb, .refl b, fun cycle hcycle => Or.inl hcycle⟩
  | @miss unit edge pending below hstack htarget => exact hresolve unit edge
  | @skip unit target edge pending below hstack htarget hmark => exact hresolve unit edge
  | @enter unit target edge pending below hstack htarget hmark => exact hresolve unit edge
  | @close unit target edge pending below hstack htarget hmark =>
      obtain ⟨hclosed, -, -, hmembers⟩ := h.closedBy hkeyed hentry hstack htarget hmark
      obtain ⟨hsound, hgrows, hcycles⟩ := hresolve unit edge
      refine ⟨hsound.reportCycle hclosed, hgrows.trans (Bundler.reportCycle_grows _ _ _), ?_⟩
      intro cycle hcycle
      simp only [Bundler.reportCycle_cycles] at hcycle
      split at hcycle
      · exact hcycles cycle hcycle
      · rcases List.mem_append.1 hcycle with hold | hnew
        · exact hcycles cycle hold
        · rw [List.mem_singleton.1 hnew]
          exact Or.inr hmembers

end SolidityBundler.Walk
