/-
Imports come first, or a cycle was reported.

When a unit is finished, each of its statements has been followed.  What a statement leads
to was finished before, or was entered and then finished, or was still on the stack.  In
the first two cases the import is already listed.  In the third the statement closes a
cycle, and the bundler holds a report that names both units, made now or earlier.

`Settled` says this of the listed units.  To prove it, `Followed` says it of the units on
the stack and the statements they have followed so far: there an import may also be one of
the units above, which are all finished by the time the unit itself is.
-/
import SolidityBundler.Proofs.Walk.Invariant

namespace SolidityBundler

/-- Some report of a cycle names both units. -/
def Bundler.Reported (b : Bundler) (u v : SourceUnit) : Prop :=
  ∃ cycle ∈ b.cycles, u ∈ cycle.1 ∧ v ∈ cycle.1

theorem Bundler.Grows.reported {b b' : Bundler} (h : b.Grows b') {u v : SourceUnit}
    (huv : b.Reported u v) : b'.Reported u v := by
  obtain ⟨cycle, hcycle, hu, hv⟩ := huv
  exact ⟨cycle, h.cycles.subset hcycle, hu, hv⟩

namespace Walk

/-- `v` was met on the stack when `u` led to it, and the cycle is on record. -/
def Closes (b : Bundler) (w : Walk) (u v : SourceUnit) : Prop :=
  (w.marks.get? v.key).isSome ∧ b.Reported u v

/-- Every unit on the stack has followed all its statements but the pending ones: what they
refer to is listed, stands above the unit, or closes a cycle with it. -/
def Followed (index : UnitIndex) (b : Bundler) (w : Walk) : List SourceUnit → List Frame → Prop
  | _, [] => True
  | above, frame :: below =>
      (∀ edge ∈ frame.unit.imports, edge ∈ frame.pending ∨
        ∀ v, index.target? frame.unit.name edge.specifier = some v →
          v ∈ w.order ∨ v ∈ above ∨ Closes b w frame.unit v) ∧
      Followed index b w (frame.unit :: above) below

/-- What the listed units import is listed before them or closes a cycle with them. -/
structure Settled (index : UnitIndex) (b : Bundler) (w : Walk) : Prop where
  listed : ∀ u ∈ w.order, ∀ v, index.Imports u v → [v, u].Sublist w.order ∨ Closes b w u v
  followed : Followed index b w [] w.stack

variable {index : UnitIndex} {entry : SourceUnit} {b b' : Bundler} {w w' : Walk}

theorem settled_start (index : UnitIndex) (b : Bundler) (entry : SourceUnit) :
    Settled index b (start entry) where
  listed := by
    intro u hu
    simp [start] at hu
  followed := ⟨fun edge hedge => Or.inl hedge, trivial⟩

/-! ### What is settled stays settled -/

private theorem isSome_get?_insert {marks : Table UnitKey Mark} {key other : UnitKey} {mark : Mark}
    (h : (marks.get? other).isSome) : ((marks.insert key mark).get? other).isSome := by
  rw [Table.get?_insert]
  split
  · rfl
  · exact h

private theorem Followed.mono {above above' : List SourceUnit} {stack : List Frame}
    (h : Followed index b w above stack)
    (hplaced : ∀ v, v ∈ w.order ∨ v ∈ above → v ∈ w'.order ∨ v ∈ above')
    (hcloses : ∀ u v, Closes b w u v → Closes b' w' u v) :
    Followed index b' w' above' stack := by
  induction stack generalizing above above' with
  | nil => trivial
  | cons frame below ih =>
      obtain ⟨hframe, hbelow⟩ := h
      refine ⟨?_, ih hbelow ?_⟩
      · intro edge hedge
        rcases hframe edge hedge with hpending | hdone
        · exact Or.inl hpending
        · refine Or.inr fun v htarget => ?_
          rcases hdone v htarget with horder | habove | hclose
          · exact (hplaced v (Or.inl horder)).imp id Or.inl
          · exact (hplaced v (Or.inr habove)).imp id Or.inl
          · exact Or.inr (Or.inr (hcloses _ v hclose))
      · intro v hv
        rw [List.mem_cons] at hv ⊢
        rcases hv with horder | heq | habove
        · exact (hplaced v (Or.inl horder)).imp id Or.inr
        · exact Or.inr (Or.inl heq)
        · exact (hplaced v (Or.inr habove)).imp id Or.inr

private theorem Followed.advance {unit : SourceUnit} {edge : ImportEdge} {pending : List ImportEdge}
    {below : List Frame} {above : List SourceUnit}
    (h : Followed index b w [] ({ unit, pending := edge :: pending } :: below))
    (hplaced : ∀ v ∈ w.order, v ∈ w'.order)
    (hcloses : ∀ u v, Closes b w u v → Closes b' w' u v)
    (htarget : ∀ v, index.target? unit.name edge.specifier = some v →
      v ∈ w'.order ∨ v ∈ above ∨ Closes b' w' unit v) :
    Followed index b' w' above ({ unit, pending } :: below) := by
  obtain ⟨htop, hbelow⟩ := h
  refine ⟨?_, hbelow.mono ?_ hcloses⟩
  · intro e he
    rcases htop e he with hpending | hdone
    · rcases List.mem_cons.1 hpending with rfl | hpending
      · exact Or.inr htarget
      · exact Or.inl hpending
    · refine Or.inr fun v hv => ?_
      rcases hdone v hv with horder | habove | hclose
      · exact Or.inl (hplaced v horder)
      · simp at habove
      · exact Or.inr (Or.inr (hcloses _ v hclose))
  · intro v hv
    rw [List.mem_singleton] at hv
    rcases hv with horder | heq
    · exact Or.inl (hplaced v horder)
    · rw [heq]
      exact Or.inr List.mem_cons_self

theorem Settled.finish (h : Settled index b w) {unit : SourceUnit} {below : List Frame}
    (hstack : w.stack = { unit, pending := [] } :: below) :
    Settled index b (w.finish unit below) := by
  have hcloses : ∀ u v, Closes b w u v → Closes b (w.finish unit below) u v :=
    fun u v hclose => ⟨isSome_get?_insert hclose.1, hclose.2⟩
  have hfollowed := h.followed
  rw [hstack] at hfollowed
  obtain ⟨htop, hbelow⟩ := hfollowed
  refine ⟨?_, ?_⟩
  · intro u hu v himports
    show [v, u].Sublist (w.order ++ [unit]) ∨ _
    rcases List.mem_append.1 hu with hold | hnew
    · rcases h.listed u hold v himports with hsub | hclose
      · exact Or.inl (hsub.trans (List.sublist_append_left _ _))
      · exact Or.inr (hcloses u v hclose)
    · rw [List.mem_singleton] at hnew
      subst hnew
      obtain ⟨edge, hedge, htarget⟩ := himports
      rcases htop edge hedge with hpending | hdone
      · simp at hpending
      · rcases hdone v htarget with horder | habove | hclose
        · exact Or.inl ((List.singleton_sublist.2 horder).append (List.Sublist.refl [u]))
        · simp at habove
        · exact Or.inr (hcloses u v hclose)
  · refine hbelow.mono ?_ hcloses
    intro v hv
    show v ∈ w.order ++ [unit] ∨ v ∈ []
    rw [List.mem_append]
    exact Or.inl hv

/-- A followed statement whose target is listed or closes a cycle can be taken off. -/
theorem Settled.advance (h : Settled index b w) (hgrows : b.Grows b') {unit : SourceUnit}
    {edge : ImportEdge} {pending : List ImportEdge} {below : List Frame}
    (hstack : w.stack = { unit, pending := edge :: pending } :: below)
    (htarget : ∀ v, index.target? unit.name edge.specifier = some v →
      v ∈ w.order ∨ Closes b' w unit v) :
    Settled index b' (w.advance unit pending below) := by
  have hcloses : ∀ u v, Closes b w u v → Closes b' (w.advance unit pending below) u v :=
    fun u v hclose => ⟨hclose.1, hgrows.reported hclose.2⟩
  have hfollowed := h.followed
  rw [hstack] at hfollowed
  refine ⟨?_, ?_⟩
  · intro u hu v himports
    exact (h.listed u hu v himports).imp id (hcloses u v)
  · refine hfollowed.advance (fun v hv => hv) hcloses ?_
    intro v hv
    exact (htarget v hv).imp id Or.inr

theorem Settled.enter (h : Settled index b w) (hgrows : b.Grows b') {unit target : SourceUnit}
    {edge : ImportEdge} {pending : List ImportEdge} {below : List Frame}
    (hstack : w.stack = { unit, pending := edge :: pending } :: below)
    (htarget : index.target? unit.name edge.specifier = some target) :
    Settled index b' ((w.advance unit pending below).enter target) := by
  have hcloses : ∀ u v, Closes b w u v →
      Closes b' ((w.advance unit pending below).enter target) u v :=
    fun u v hclose => ⟨isSome_get?_insert hclose.1, hgrows.reported hclose.2⟩
  have hfollowed := h.followed
  rw [hstack] at hfollowed
  refine ⟨?_, ?_⟩
  · intro u hu v himports
    exact (h.listed u hu v himports).imp id (hcloses u v)
  · refine ⟨fun e he => Or.inl he, ?_⟩
    refine hfollowed.advance (fun v hv => hv) hcloses ?_
    intro v hv
    rw [htarget, Option.some.injEq] at hv
    rw [hv]
    exact Or.inr (Or.inl List.mem_cons_self)

theorem Settled.move (hkeyed : index.WellKeyed) (hentry : entry ∈ index.units)
    (hw : Consistent index entry w) (hb : b.Sound index) (h : Settled index b w)
    {c : Bundler × Walk} (hmove : Move index b w c) : Settled index c.1 c.2 := by
  cases hmove with
  | finish hstack => exact h.finish hstack
  | @miss unit edge pending below hstack htarget =>
      refine h.advance (b.resolve_grows unit edge) hstack fun v hv => ?_
      rw [htarget] at hv
      simp at hv
  | @skip unit target edge pending below hstack htarget hmark =>
      refine h.advance (b.resolve_grows unit edge) hstack fun v hv => ?_
      rw [htarget, Option.some.injEq] at hv
      rw [← hv]
      exact Or.inl (hw.mem_order hkeyed hentry (UnitIndex.mem_units_of_target? htarget) hmark)
  | @close unit target edge pending below hstack htarget hmark =>
      have hgrows := (b.resolve_grows unit edge).trans
        (Bundler.reportCycle_grows _ (w.pathFrom target.key) edge)
      refine h.advance hgrows hstack fun v hv => ?_
      rw [htarget, Option.some.injEq] at hv
      rw [← hv]
      obtain ⟨hclosed, hunit, hmem, -⟩ := hw.closedBy hkeyed hentry hstack htarget hmark
      obtain ⟨cycle, hcycle, hall⟩ := (hb.resolve unit edge).exists_report hkeyed hclosed
      exact Or.inr ⟨by simp [hmark], cycle, hcycle, hall unit hunit, hall target hmem⟩
  | @enter unit target edge pending below hstack htarget hmark =>
      exact h.enter (b.resolve_grows unit edge) hstack htarget

end Walk

end SolidityBundler
