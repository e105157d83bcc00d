/-
What a bundler has on record.

A problem is reported the first time it is met, and three memories decide what the first time
is: the specifiers that were tried, the member sets that were reported, and the units whose
text is made.  If one of them ran ahead of the problems, a problem would be lost for good.
`Accounted` says that none does.  The problems on record are those of the specifiers tried,
each once; no member set is reported twice; and a unit whose text is made has all its
specifiers tried, so making the text again would try nothing new.

What an operation adds to the record is a set of events, and `Records` says that it adds this
set and nothing else.  Operations one after the other add the union, so what a whole call adds
is put together from its parts.
-/
import Mathlib.Data.Finset.Dedup
import Mathlib.Data.Set.Lattice
import SolidityBundler.Proofs.Bundler.Sound

namespace SolidityBundler

/-- Something that bundling comes across. -/
inductive Event
  /-- A specifier is looked up for an importer. -/
  | tried (importer : UnitKey) (specifier : Text)
  /-- A statement leads back to a unit on the path, and these are the units from there on. -/
  | closed (members : Finset UnitKey)

/-- The specifiers of some statements of a unit. -/
def SourceUnit.triedBy (unit : SourceUnit) (edges : List ImportEdge) : Set Event :=
  { event | ∃ edge ∈ edges, event = .tried unit.key edge.specifier }

/-- The units that a cycle is told by, in no order. -/
def memberKeys (members : List SourceUnit) : Finset UnitKey :=
  (members.map SourceUnit.key).toFinset

namespace Finding

/-- The importer and the specifier, if the problem is that the specifier refers to nothing. -/
def unresolved? : Finding → Option (UnitKey × Text)
  | .unresolved importer edge => some (importer.key, edge.specifier)
  | .cycle _ _ => none

/-- The specifiers reported as unresolved, with their importers, oldest first. -/
def unresolvedPairs (findings : List Finding) : List (UnitKey × Text) :=
  findings.filterMap unresolved?

/-- The member sets of the cycles reported, oldest first. -/
def memberSets (findings : List Finding) : List (Finset UnitKey) :=
  (findings.filterMap cycle?).map fun cycle => memberKeys cycle.1

end Finding

namespace Bundler

/-- The specifiers that are remembered and the cycles that are reported. -/
def record (b : Bundler) : Set Event
  | .tried importer specifier => (b.resolutions.get? (importer, specifier)).isSome
  | .closed members => members ∈ Finding.memberSets b.findings

variable {index : UnitIndex} {b b' b'' : Bundler} {importer unit : SourceUnit}
  {edge : ImportEdge} {key : UnitKey} {specifier : Text} {events events' : Set Event}

theorem tried_mem_record :
    .tried key specifier ∈ b.record ↔ (b.resolutions.get? (key, specifier)).isSome := .rfl

theorem closed_mem_record {members : Finset UnitKey} :
    .closed members ∈ b.record ↔ members ∈ Finding.memberSets b.findings := .rfl

/-! ### The invariant -/

/-- The problems on record are exactly those that the memories answer for. -/
structure Accounted (index : UnitIndex) (b : Bundler) : Prop where
  /-- What is reported as unresolved was tried and refers to nothing, and conversely. -/
  unresolved : ∀ key specifier, (key, specifier) ∈ Finding.unresolvedPairs b.findings ↔
    .tried key specifier ∈ b.record ∧ index.target? key.name specifier = none
  unresolvedOnce : (Finding.unresolvedPairs b.findings).Nodup
  cyclesOnce : (Finding.memberSets b.findings).Nodup
  /-- Making a text tries all the specifiers of the unit. -/
  texts : ∀ unit ∈ index.units, (b.inlinedTexts.get? unit.key).isSome →
    ∀ edge ∈ unit.imports, .tried unit.key edge.specifier ∈ b.record

theorem accounted_ofIndex (index : UnitIndex) : Accounted index (ofIndex index) where
  unresolved := by simp [Finding.unresolvedPairs, ofIndex, tried_mem_record]
  unresolvedOnce := List.nodup_nil
  cyclesOnce := List.nodup_nil
  texts := by simp [ofIndex]

theorem record_ofIndex (index : UnitIndex) : (ofIndex index).record = ∅ := by
  ext event
  cases event with
  | tried key specifier => simp [tried_mem_record, ofIndex]
  | closed members => simp [closed_mem_record, Finding.memberSets, ofIndex]

/-- The operation that leads from `b` to `b'` adds these events to the record. -/
structure Records (index : UnitIndex) (events : Set Event) (b b' : Bundler) : Prop where
  accounted : b'.Accounted index
  record_eq : b'.record = b.record ∪ events

/-- What is on record already can be met again. -/
theorem Accounted.records (h : b.Accounted index) (hknown : events ⊆ b.record) :
    Records index events b b :=
  ⟨h, (Set.union_eq_self_of_subset_right hknown).symm⟩

theorem Records.trans (h : Records index events b b') (h' : Records index events' b' b'') :
    Records index (events ∪ events') b b'' :=
  ⟨h'.accounted, by rw [h'.record_eq, h.record_eq, Set.union_assoc]⟩

theorem Records.tell (h : Records index events b b') (message : Log.Entry) :
    Records index events b (b'.tell message) :=
  ⟨⟨h.accounted.unresolved, h.accounted.unresolvedOnce, h.accounted.cyclesOnce,
    h.accounted.texts⟩, h.record_eq⟩

/-! ### Resolving -/

private theorem Sound.unresolvedPairs_resolveNew (hb : b.Sound index) (importer : SourceUnit)
    (edge : ImportEdge) :
    Finding.unresolvedPairs (b.resolveNew importer edge).2.findings
      = if index.target? importer.name edge.specifier = none then
          Finding.unresolvedPairs b.findings ++ [(importer.key, edge.specifier)]
        else Finding.unresolvedPairs b.findings := by
  obtain rfl := hb.index_eq
  cases htarget : b.index.target? importer.name edge.specifier with
  | some target =>
      rw [resolveNew_of_some htarget]
      rfl
  | none =>
      rw [resolveNew_of_none htarget, if_pos rfl, Finding.unresolvedPairs, report,
        List.filterMap_append]
      rfl

private theorem record_of_insert {name : Option Text} (hresolutions : b'.resolutions
      = b.resolutions.insert (key, specifier) name) (hcycles : b'.cycles = b.cycles) :
    b'.record = b.record ∪ {.tried key specifier} := by
  ext event
  rw [Set.mem_union, Set.mem_singleton_iff]
  cases event with
  | tried key' specifier' =>
      rw [tried_mem_record, tried_mem_record, hresolutions, Table.get?_insert, Event.tried.injEq]
      by_cases hsame : (key, specifier) = (key', specifier')
      · rw [Prod.mk.injEq] at hsame
        simp [hsame.1, hsame.2]
      · rw [if_neg hsame]
        rw [Prod.mk.injEq] at hsame
        exact ⟨Or.inl, fun h => h.resolve_right fun heq => hsame ⟨heq.1.symm, heq.2.symm⟩⟩
  | closed members =>
      show members ∈ b'.cycles.map _ ↔ members ∈ b.cycles.map _ ∨ _
      rw [hcycles]
      simp

theorem Accounted.records_resolveNew (hb : b.Sound index) (h : b.Accounted index)
    (importer : SourceUnit) (edge : ImportEdge)
    (hnew : b.resolutions.get? (importer.key, edge.specifier) = none) :
    Records index {.tried importer.key edge.specifier} b (b.resolveNew importer edge).2 := by
  have hcycles := (b.resolve_cycles importer edge).1
  rw [resolve_of_new hnew] at hcycles
  obtain ⟨hresolutions, htexts⟩ := b.resolveNew_remembers importer edge
  have hpairs := hb.unresolvedPairs_resolveNew importer edge
  have hrecord := record_of_insert hresolutions hcycles
  refine ⟨⟨?_, ?_, ?_, ?_⟩, hrecord⟩
  · intro key specifier
    rw [hpairs, hrecord, Set.mem_union, Set.mem_singleton_iff, Event.tried.injEq, or_and_right,
      ← h.unresolved]
    split
    · next hnone =>
        rw [List.mem_append, List.mem_singleton, Prod.mk.injEq]
        refine or_congr_right ⟨fun heq => ⟨heq, ?_⟩, And.left⟩
        rw [heq.1, heq.2]
        exact hnone
    · next hsome =>
        refine ⟨Or.inl, ?_⟩
        rintro (hold | ⟨⟨rfl, rfl⟩, hnone⟩)
        · exact hold
        · exact absurd hnone hsome
  · rw [hpairs]
    split
    · refine List.nodup_append.2 ⟨h.unresolvedOnce, List.nodup_singleton _, ?_⟩
      intro old hold new hmem heq
      -- What is reported was tried, and this specifier was not.
      rw [heq, List.mem_singleton.1 hmem, h.unresolved, tried_mem_record, hnew] at hold
      simp at hold
    · exact h.unresolvedOnce
  · show ((b.resolveNew importer edge).2.cycles.map _).Nodup
    rw [hcycles]
    exact h.cyclesOnce
  · intro unit hunit htext edge' hedge'
    rw [htexts] at htext
    rw [hrecord]
    exact Or.inl (h.texts unit hunit htext edge' hedge')

/-- **The first failure of a specifier is reported, and no later one.** -/
theorem Accounted.records_resolve (hb : b.Sound index) (h : b.Accounted index)
    (importer : SourceUnit) (edge : ImportEdge) :
    Records index {.tried importer.key edge.specifier} b (b.resolve importer edge).2 := by
  cases hmemo : b.resolutions.get? (importer.key, edge.specifier) with
  | none =>
      rw [resolve_of_new hmemo]
      exact h.records_resolveNew hb importer edge hmemo
  | some name =>
      have hsame : (b.resolve importer edge).2 = b := by
        unfold Bundler.resolve
        rw [hmemo]
      rw [hsame]
      refine h.records (Set.singleton_subset_iff.2 ?_)
      rw [tried_mem_record, hmemo]
      rfl

/-! ### Reporting a cycle -/

private theorem Sound.any_sameMembers_iff (hb : b.Sound index) (members : List SourceUnit) :
    b.reportedCycles.any (sameMembers (members.map SourceUnit.key)) = true ↔
      memberKeys members ∈ Finding.memberSets b.findings := by
  have hsets : Finding.memberSets b.findings
      = b.reportedCycles.map fun keys => keys.toFinset := by
    rw [hb.reported, List.map_map]
    rfl
  rw [hsets, List.any_eq_true, List.mem_map]
  refine exists_congr fun keys => and_congr_right fun _ => ?_
  rw [sameMembers_iff, memberKeys, Finset.ext_iff]
  simp only [List.mem_toFinset]
  exact forall_congr' fun key => Iff.comm

/-- **Each member set is reported once.** -/
theorem Accounted.records_reportCycle (hb : b.Sound index) (h : b.Accounted index)
    (members : List SourceUnit) (edge : ImportEdge) :
    Records index {.closed (memberKeys members)} b (b.reportCycle members edge) := by
  have hiff := hb.any_sameMembers_iff members
  unfold Bundler.reportCycle
  simp only
  split
  · next hany => exact h.records (Set.singleton_subset_iff.2 (hiff.1 hany))
  · next hnew =>
      have hfresh : memberKeys members ∉ Finding.memberSets b.findings :=
        fun hmem => hnew (hiff.2 hmem)
      have hpairs : Finding.unresolvedPairs (b.findings ++ [.cycle members edge])
          = Finding.unresolvedPairs b.findings := by
        simp [Finding.unresolvedPairs, Finding.unresolved?]
      have hsets : Finding.memberSets (b.findings ++ [.cycle members edge])
          = Finding.memberSets b.findings ++ [memberKeys members] := by
        simp [Finding.memberSets, Finding.cycle?]
      refine ⟨⟨?_, ?_, ?_, h.texts⟩, ?_⟩
      · intro key specifier
        exact (iff_of_eq (congrArg _ hpairs)).trans (h.unresolved key specifier)
      · exact hpairs.symm ▸ h.unresolvedOnce
      · show (Finding.memberSets (b.findings ++ [.cycle members edge])).Nodup
        rw [hsets]
        refine List.nodup_append.2 ⟨h.cyclesOnce, List.nodup_singleton _, ?_⟩
        intro old hold new hnew heq
        rw [heq, List.mem_singleton.1 hnew] at hold
        exact hfresh hold
      · ext event
        rw [Set.mem_union, Set.mem_singleton_iff]
        cases event with
        | tried key specifier => simp [tried_mem_record, report]
        | closed keys =>
            show keys ∈ Finding.memberSets (b.findings ++ [.cycle members edge]) ↔ _
            rw [hsets, List.mem_append, List.mem_singleton, closed_mem_record,
              Event.closed.injEq]

/-! ### The text of a unit -/

theorem Accounted.records_resolved (hb : b.Sound index) (h : b.Accounted index) (unit : SourceUnit)
    (edges : List ImportEdge) :
    Records index (unit.triedBy edges) b (b.resolved unit edges).2 := by
  induction edges generalizing b with
  | nil => exact h.records (by simp [SourceUnit.triedBy])
  | cons edge edges ih =>
      have hfirst := h.records_resolve hb unit edge
      have hrest := ih (hb.resolve unit edge) hfirst.accounted
      have hevents : unit.triedBy (edge :: edges)
          = {.tried unit.key edge.specifier} ∪ unit.triedBy edges := by
        ext event
        simp [SourceUnit.triedBy]
      rw [hevents]
      exact hfirst.trans hrest

/-- Making the text of a unit tries its specifiers, the first time and, as far as the record
can tell, any other time. -/
theorem Accounted.records_inlinedText (hb : b.Sound index) (hkeyed : index.WellKeyed)
    (h : b.Accounted index) {unit : SourceUnit} (hunit : unit ∈ index.units) :
    Records index (unit.triedBy unit.imports) b (b.inlinedText unit).2 := by
  unfold Bundler.inlinedText
  split
  · next text htext =>
      refine h.records ?_
      rintro event ⟨edge, hedge, rfl⟩
      exact h.texts unit hunit (by rw [htext]; rfl) edge hedge
  · have hresolved := h.records_resolved hb unit unit.imports
    have haccounted := hresolved.accounted
    refine ⟨⟨haccounted.unresolved, haccounted.unresolvedOnce, haccounted.cyclesOnce, ?_⟩,
      hresolved.record_eq⟩
    intro other hother htext edge hedge
    simp only [Table.get?_insert] at htext
    by_cases hkey : unit.key = other.key
    · obtain rfl := hkeyed.identified unit hunit other hother hkey
      have hevent : Event.tried unit.key edge.specifier ∈ (b.resolved unit unit.imports).2.record := by
        rw [hresolved.record_eq]
        exact Or.inr ⟨edge, hedge, rfl⟩
      exact hevent
    · rw [if_neg hkey] at htext
      exact haccounted.texts other hother htext edge hedge

theorem Accounted.records_sections (hb : b.Sound index) (hkeyed : index.WellKeyed)
    (h : b.Accounted index) {units : List SourceUnit} (hunits : ∀ unit ∈ units, unit ∈ index.units) :
    Records index { event | ∃ unit ∈ units, event ∈ unit.triedBy unit.imports } b
      (b.sections units).2 := by
  induction units generalizing b with
  | nil => exact h.records (by simp)
  | cons unit units ih =>
      rw [List.forall_mem_cons] at hunits
      have hfirst := h.records_inlinedText hb hkeyed hunits.1
      have hrest := ih (hb.inlinedText hkeyed hunits.1) hfirst.accounted hunits.2
      have hevents : { event | ∃ u ∈ unit :: units, event ∈ u.triedBy u.imports }
          = unit.triedBy unit.imports ∪ { event | ∃ u ∈ units, event ∈ u.triedBy u.imports } := by
        ext event
        simp
      rw [hevents]
      exact hfirst.trans hrest

end Bundler

end SolidityBundler
