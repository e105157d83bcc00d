/-
What a bundler remembers is true.

A bundler carries the answers it gave, the texts it made and the cycles it reported from
one call to the next.  `Sound` says that none of this can be told from the index: a
remembered name is the one resolution gives, a remembered text is the one the index gives,
and every report names a real cycle.  It holds of a new bundler and every operation keeps
it, so an answer never depends on what was asked before.

The names alone are `Truthful`.  That part needs no assumption on the index, while a text is
remembered for the key of its unit and is the unit's own only where the keys tell units apart.

The operations are followed through two views.  `Grows` says what none of them undoes: the
index stays and the list of problems grows at its end.  `cycles` picks the cycles out of the
problems, and only `reportCycle` adds to it.
-/
import SolidityBundler.Bundle.Bundling
import SolidityBundler.Proofs.ImportGraph

namespace SolidityBundler

/-- The members and the closing statement, if the problem is a cycle. -/
def Finding.cycle? : Finding → Option (List SourceUnit × ImportEdge)
  | .unresolved _ _ => none
  | .cycle members edge => some (members, edge)

/-- The text of a unit with every statement that resolves commented out. -/
def UnitIndex.inlinedText (index : UnitIndex) (unit : SourceUnit) : Text :=
  commentOut unit.text
    (unit.imports.filter fun edge => (index.target? unit.name edge.specifier).isSome)

/-- A unit as a section of a bundle. -/
def UnitIndex.sectionOf (index : UnitIndex) (unit : SourceUnit) : Section where
  unit := unit.name
  body := Text.closeLine (index.inlinedText unit)

namespace Bundler

/-- The cycles reported so far, oldest first. -/
def cycles (b : Bundler) : List (List SourceUnit × ImportEdge) :=
  b.findings.filterMap Finding.cycle?

theorem mem_cycles {b : Bundler} {members : List SourceUnit} {edge : ImportEdge} :
    (members, edge) ∈ b.cycles ↔ .cycle members edge ∈ b.findings := by
  rw [cycles, List.mem_filterMap]
  constructor
  · rintro ⟨finding, hmem, hcycle⟩
    cases finding with
    | unresolved importer edge' => simp [Finding.cycle?] at hcycle
    | cycle members' edge' =>
        simp only [Finding.cycle?, Option.some.injEq, Prod.mk.injEq] at hcycle
        rw [← hcycle.1, ← hcycle.2]
        exact hmem
  · intro hmem
    exact ⟨_, hmem, rfl⟩

/-! ### What no operation undoes -/

/-- `b'` works on the same index and knows of every problem that `b` knows of. -/
structure Grows (b b' : Bundler) : Prop where
  index : b'.index = b.index
  findings : b.findings <+: b'.findings

theorem Grows.refl (b : Bundler) : Grows b b := ⟨rfl, List.prefix_refl _⟩

theorem Grows.trans {b b' b'' : Bundler} (h : Grows b b') (h' : Grows b' b'') : Grows b b'' :=
  ⟨h'.index.trans h.index, h.findings.trans h'.findings⟩

theorem Grows.cycles {b b' : Bundler} (h : Grows b b') : b.cycles <+: b'.cycles := by
  obtain ⟨later, hlater⟩ := h.findings
  refine ⟨later.filterMap Finding.cycle?, ?_⟩
  rw [Bundler.cycles, ← List.filterMap_append, hlater]
  rfl

theorem resolve_grows (b : Bundler) (importer : SourceUnit) (edge : ImportEdge) :
    Grows b (b.resolve importer edge).2 := by
  refine ⟨b.resolve_index importer edge, ?_⟩
  unfold resolve
  split
  · exact List.prefix_refl _
  · unfold resolveNew
    simp only
    split
    · exact List.prefix_refl _
    · exact List.prefix_append _ _

theorem reportCycle_grows (b : Bundler) (members : List SourceUnit) (edge : ImportEdge) :
    Grows b (b.reportCycle members edge) := by
  refine ⟨b.reportCycle_index members edge, ?_⟩
  unfold reportCycle
  simp only
  split
  · exact List.prefix_refl _
  · exact List.prefix_append _ _

theorem resolved_grows (b : Bundler) (unit : SourceUnit) (edges : List ImportEdge) :
    Grows b (b.resolved unit edges).2 := by
  induction edges generalizing b with
  | nil => exact Grows.refl b
  | cons edge edges ih => exact (b.resolve_grows unit edge).trans (ih _)

theorem inlinedText_grows (b : Bundler) (unit : SourceUnit) : Grows b (b.inlinedText unit).2 := by
  unfold inlinedText
  split
  · exact Grows.refl b
  · have h := b.resolved_grows unit unit.imports
    exact ⟨h.index, h.findings⟩

theorem sections_grows (b : Bundler) (units : List SourceUnit) : Grows b (b.sections units).2 := by
  induction units generalizing b with
  | nil => exact Grows.refl b
  | cons unit units ih => exact (b.inlinedText_grows unit).trans (ih _)

/-! ### Only a report adds a cycle -/

theorem resolve_cycles (b : Bundler) (importer : SourceUnit) (edge : ImportEdge) :
    (b.resolve importer edge).2.cycles = b.cycles ∧
      (b.resolve importer edge).2.reportedCycles = b.reportedCycles := by
  unfold resolve
  split
  · exact ⟨rfl, rfl⟩
  · unfold resolveNew
    simp only
    split
    · exact ⟨rfl, rfl⟩
    · refine ⟨?_, rfl⟩
      simp [cycles, report, remember, Finding.cycle?]

private theorem resolved_cycles (b : Bundler) (unit : SourceUnit) (edges : List ImportEdge) :
    (b.resolved unit edges).2.cycles = b.cycles ∧
      (b.resolved unit edges).2.reportedCycles = b.reportedCycles := by
  induction edges generalizing b with
  | nil => exact ⟨rfl, rfl⟩
  | cons edge edges ih =>
      obtain ⟨hcycles, hreported⟩ := b.resolve_cycles unit edge
      obtain ⟨hcycles', hreported'⟩ := ih (b.resolve unit edge).2
      exact ⟨hcycles'.trans hcycles, hreported'.trans hreported⟩

private theorem inlinedText_cycles (b : Bundler) (unit : SourceUnit) :
    (b.inlinedText unit).2.cycles = b.cycles ∧
      (b.inlinedText unit).2.reportedCycles = b.reportedCycles := by
  unfold inlinedText
  split
  · exact ⟨rfl, rfl⟩
  · exact b.resolved_cycles unit unit.imports

theorem sections_cycles (b : Bundler) (units : List SourceUnit) :
    (b.sections units).2.cycles = b.cycles := by
  induction units generalizing b with
  | nil => rfl
  | cons unit units ih => exact (ih _).trans (b.inlinedText_cycles unit).1

/-- The same members, in any order and any number of times. -/
theorem sameMembers_iff {keys others : List UnitKey} :
    sameMembers keys others = true ↔ ∀ key, key ∈ keys ↔ key ∈ others := by
  simp only [sameMembers, Bool.and_eq_true, List.all_eq_true, List.contains_iff_mem]
  constructor
  · rintro ⟨hsub, hsup⟩ key
    exact ⟨hsub key, hsup key⟩
  · intro h
    exact ⟨fun key => (h key).1, fun key => (h key).2⟩

/-! ### The invariant -/

/-- The names that a bundler over `index` remembers are those that resolution gives. -/
structure Truthful (index : UnitIndex) (b : Bundler) : Prop where
  index_eq : b.index = index
  remembered : ∀ key specifier name, b.resolutions.get? (key, specifier) = some name →
    name = index.targetName? key.name specifier

/-- All that a bundler over `index` remembers holds of the index. -/
structure Sound (index : UnitIndex) (b : Bundler) : Prop extends Truthful index b where
  /-- A remembered text is the text of its unit. -/
  inlined : ∀ unit ∈ index.units, ∀ text, b.inlinedTexts.get? unit.key = some text →
    text = index.inlinedText unit
  /-- The remembered members are those of the reports, in the same order. -/
  reported : b.reportedCycles = b.cycles.map fun cycle => cycle.1.map SourceUnit.key
  /-- Every report names a cycle. -/
  genuine : ∀ members edge, (members, edge) ∈ b.cycles → index.ClosedBy members edge

variable {index : UnitIndex} {b : Bundler}

theorem sound_ofIndex (index : UnitIndex) : Sound index (ofIndex index) where
  index_eq := rfl
  remembered := by
    intro key specifier name h
    simp [ofIndex] at h
  inlined := by
    intro unit _ text h
    simp [ofIndex] at h
  reported := rfl
  genuine := by
    intro members edge h
    simp [ofIndex, cycles] at h

theorem Truthful.tell (hb : Truthful index b) (entry : Log.Entry) :
    Truthful index (b.tell entry) := ⟨hb.index_eq, hb.remembered⟩

theorem Sound.tell (hb : Sound index b) (entry : Log.Entry) : Sound index (b.tell entry) :=
  ⟨hb.toTruthful.tell entry, hb.inlined, hb.reported, hb.genuine⟩

/-! ### Resolving -/

private theorem resolveNew_fst (b : Bundler) (importer : SourceUnit) (edge : ImportEdge) :
    (b.resolveNew importer edge).1 = b.index.target? importer.name edge.specifier := by
  unfold resolveNew
  simp only
  split
  · next target htarget => exact htarget.symm
  · next htarget => exact htarget.symm

/-- A first attempt that succeeds remembers the name and reports nothing. -/
theorem resolveNew_of_some {importer target : SourceUnit} {edge : ImportEdge}
    (h : b.index.target? importer.name edge.specifier = some target) :
    b.resolveNew importer edge = (some target,
      (b.remember importer.key edge.specifier
        (b.index.targetName? importer.name edge.specifier)).tell
          (.debug (resolvedMessage importer edge target))) := by
  unfold resolveNew
  simp only
  split
  · next found hfound =>
      rw [Option.some.inj (hfound.symm.trans h)]
  · next hnone =>
      have := hnone.symm.trans h
      simp at this

/-- A first attempt that fails remembers so and reports the statement. -/
theorem resolveNew_of_none {importer : SourceUnit} {edge : ImportEdge}
    (h : b.index.target? importer.name edge.specifier = none) :
    b.resolveNew importer edge = (none,
      (b.remember importer.key edge.specifier
        (b.index.targetName? importer.name edge.specifier)).report
          (.unresolved importer edge)) := by
  unfold resolveNew
  simp only
  split
  · next found hfound =>
      have := hfound.symm.trans h
      simp at this
  · rfl

theorem resolve_of_new {importer : SourceUnit} {edge : ImportEdge}
    (h : b.resolutions.get? (importer.key, edge.specifier) = none) :
    b.resolve importer edge = b.resolveNew importer edge := by
  unfold Bundler.resolve
  rw [h]

/-- A first attempt remembers its answer, whatever the answer is, and no text. -/
theorem resolveNew_remembers (b : Bundler) (importer : SourceUnit) (edge : ImportEdge) :
    (b.resolveNew importer edge).2.resolutions
        = b.resolutions.insert (importer.key, edge.specifier)
            (b.index.targetName? importer.name edge.specifier) ∧
      (b.resolveNew importer edge).2.inlinedTexts = b.inlinedTexts := by
  unfold resolveNew
  simp only
  split
  · exact ⟨rfl, rfl⟩
  · exact ⟨rfl, rfl⟩

/-- Whatever was asked before, a statement resolves to what the index gives. -/
theorem Truthful.resolve_eq (hb : Truthful index b) (importer : SourceUnit) (edge : ImportEdge) :
    (b.resolve importer edge).1 = index.target? importer.name edge.specifier := by
  unfold Bundler.resolve
  split
  · next name hname =>
      rw [hb.remembered _ _ _ hname, hb.index_eq]
      rfl
  · rw [resolveNew_fst, hb.index_eq]

theorem Truthful.resolve (hb : Truthful index b) (importer : SourceUnit) (edge : ImportEdge) :
    Truthful index (b.resolve importer edge).2 := by
  refine ⟨(b.resolve_index importer edge).trans hb.index_eq, ?_⟩
  unfold Bundler.resolve
  split
  · exact hb.remembered
  · intro key specifier name h
    rw [(b.resolveNew_remembers importer edge).1, Table.get?_insert] at h
    by_cases hkey : (importer.key, edge.specifier) = (key, specifier)
    · rw [if_pos hkey, Option.some.injEq, hb.index_eq] at h
      rw [Prod.mk.injEq] at hkey
      rw [← h, ← hkey.1, ← hkey.2]
      rfl
    · rw [if_neg hkey] at h
      exact hb.remembered key specifier name h

theorem Sound.resolve_eq (hb : Sound index b) (importer : SourceUnit) (edge : ImportEdge) :
    (b.resolve importer edge).1 = index.target? importer.name edge.specifier :=
  hb.toTruthful.resolve_eq importer edge

theorem Sound.resolve (hb : Sound index b) (importer : SourceUnit) (edge : ImportEdge) :
    Sound index (b.resolve importer edge).2 := by
  obtain ⟨hcycles, hreported⟩ := b.resolve_cycles importer edge
  refine ⟨hb.toTruthful.resolve importer edge, ?_, ?_, ?_⟩
  · unfold Bundler.resolve
    split
    · exact hb.inlined
    · rw [(b.resolveNew_remembers importer edge).2]
      exact hb.inlined
  · rw [hcycles, hreported]
    exact hb.reported
  · rw [hcycles]
    exact hb.genuine

/-! ### Reporting a cycle -/

theorem reportCycle_cycles (b : Bundler) (members : List SourceUnit) (edge : ImportEdge) :
    (b.reportCycle members edge).cycles =
      if b.reportedCycles.any (sameMembers (members.map SourceUnit.key)) then b.cycles
      else b.cycles ++ [(members, edge)] := by
  unfold reportCycle
  simp only
  split
  · rfl
  · simp [cycles, report, Finding.cycle?]

theorem Truthful.reportCycle (hb : Truthful index b) (members : List SourceUnit)
    (edge : ImportEdge) : Truthful index (b.reportCycle members edge) := by
  refine ⟨(b.reportCycle_index members edge).trans hb.index_eq, ?_⟩
  unfold Bundler.reportCycle
  simp only
  split
  · exact hb.remembered
  · exact hb.remembered

theorem Sound.reportCycle (hb : Sound index b) {members : List SourceUnit} {edge : ImportEdge}
    (hclosed : index.ClosedBy members edge) : Sound index (b.reportCycle members edge) := by
  have htruthful := hb.toTruthful.reportCycle members edge
  have hcycles := b.reportCycle_cycles members edge
  unfold Bundler.reportCycle at htruthful hcycles ⊢
  simp only at htruthful hcycles ⊢
  split
  · exact hb
  · next hnew =>
      rw [if_neg hnew] at htruthful hcycles
      rw [if_neg hnew] at hcycles
      refine ⟨htruthful, hb.inlined, ?_, ?_⟩
      · rw [hcycles, List.map_append, ← hb.reported]
        rfl
      · intro members' edge' h
        rw [hcycles, List.mem_append, List.mem_singleton] at h
        rcases h with hold | hthis
        · exact hb.genuine members' edge' hold
        · rw [Prod.mk.injEq] at hthis
          rw [hthis.1, hthis.2]
          exact hclosed

/-- A report that is left out was made before: either way some report names all the members. -/
theorem Sound.exists_report (hkeyed : index.WellKeyed) (hb : Sound index b)
    {members : List SourceUnit} {edge : ImportEdge} (hclosed : index.ClosedBy members edge) :
    ∃ cycle ∈ (b.reportCycle members edge).cycles, ∀ m ∈ members, m ∈ cycle.1 := by
  rw [reportCycle_cycles]
  split
  · next hany =>
      obtain ⟨keys, hkeys, hsame⟩ := List.any_eq_true.1 hany
      rw [hb.reported] at hkeys
      obtain ⟨⟨others, edge'⟩, hcycle, rfl⟩ := List.mem_map.1 hkeys
      refine ⟨(others, edge'), hcycle, ?_⟩
      intro m hm
      have hkey : m.key ∈ others.map SourceUnit.key :=
        (sameMembers_iff.1 hsame m.key).1 (List.mem_map_of_mem hm)
      obtain ⟨m', hm', heq⟩ := List.mem_map.1 hkey
      have hunits' : m' ∈ index.units := (hb.genuine others edge' hcycle).mem_units m' hm'
      rw [← hkeyed.identified m' hunits' m (hclosed.mem_units m hm) heq]
      exact hm'
  · exact ⟨(members, edge), by simp, fun m hm => hm⟩

/-! ### The text of a unit -/

theorem Sound.resolved (hb : Sound index b) (unit : SourceUnit) (edges : List ImportEdge) :
    Sound index (b.resolved unit edges).2 := by
  induction edges generalizing b with
  | nil => exact hb
  | cons edge edges ih => exact ih (hb.resolve unit edge)

theorem Sound.resolved_eq (hb : Sound index b) (unit : SourceUnit) (edges : List ImportEdge) :
    (b.resolved unit edges).1
      = edges.filter fun edge => (index.target? unit.name edge.specifier).isSome := by
  induction edges generalizing b with
  | nil => rfl
  | cons edge edges ih =>
      have hrest := ih (hb.resolve unit edge)
      simp only [Bundler.resolved, hb.resolve_eq unit edge, hrest, List.filter_cons]

/-- Whatever was asked before, a unit is inlined with the text that the index gives it. -/
theorem Sound.inlinedText_eq (hb : Sound index b) {unit : SourceUnit}
    (hunit : unit ∈ index.units) : (b.inlinedText unit).1 = index.inlinedText unit := by
  unfold inlinedText
  split
  · next text htext => exact hb.inlined unit hunit text htext
  · show commentOut unit.text (b.resolved unit unit.imports).1 = index.inlinedText unit
    rw [hb.resolved_eq unit unit.imports]
    rfl

theorem Sound.inlinedText (hkeyed : index.WellKeyed) (hb : Sound index b) {unit : SourceUnit}
    (hunit : unit ∈ index.units) : Sound index (b.inlinedText unit).2 := by
  have htext := hb.inlinedText_eq hunit
  unfold Bundler.inlinedText at htext ⊢
  split
  · exact hb
  · next hnew =>
      rw [hnew] at htext
      have hb' := hb.resolved unit unit.imports
      refine ⟨⟨hb'.index_eq, hb'.remembered⟩, ?_, hb'.reported, hb'.genuine⟩
      intro unit' hunit' text h
      simp only [Table.get?_insert] at h
      by_cases hkey : unit.key = unit'.key
      · rw [if_pos hkey, Option.some.injEq] at h
        rw [← h, ← hkeyed.identified unit hunit unit' hunit' hkey]
        exact htext
      · rw [if_neg hkey] at h
        exact hb'.inlined unit' hunit' text h

theorem Sound.sections (hkeyed : index.WellKeyed) (hb : Sound index b) {units : List SourceUnit}
    (hunits : ∀ unit ∈ units, unit ∈ index.units) : Sound index (b.sections units).2 := by
  induction units generalizing b with
  | nil => exact hb
  | cons unit units ih =>
      rw [List.forall_mem_cons] at hunits
      exact ih (hb.inlinedText hkeyed hunits.1) hunits.2

theorem Sound.sections_eq (hkeyed : index.WellKeyed) (hb : Sound index b)
    {units : List SourceUnit} (hunits : ∀ unit ∈ units, unit ∈ index.units) :
    (b.sections units).1 = units.map index.sectionOf := by
  induction units generalizing b with
  | nil => rfl
  | cons unit units ih =>
      rw [List.forall_mem_cons] at hunits
      have hrest := ih (hb.inlinedText hkeyed hunits.1) hunits.2
      simp only [Bundler.sections, hb.inlinedText_eq hunits.1, hrest, List.map_cons]
      rfl

end Bundler

end SolidityBundler
