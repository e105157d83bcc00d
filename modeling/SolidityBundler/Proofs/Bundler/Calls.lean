/-
What a history of calls leaves on record.

Bundling an entry comes across the specifiers of every unit that the entry reaches: some are
tried by the walk and the rest by making the texts, but all of them are tried.  The cycles are
those of the walk.  A call on several entries comes across what each of them does, up to the
first unknown one, where it ends.

None of this mentions what was asked before.  So the record after a history is the union of
what its calls come across, each taken by itself, and `Accounted` turns the record into the
list of problems.
-/
import SolidityBundler.Proofs.InlineOrder
import SolidityBundler.Proofs.Walk.Meets

namespace SolidityBundler

namespace UnitIndex

/-- What bundling an entry comes across: the specifiers of the units that it reaches, and the
cycles on the walk from it. -/
def eventsFrom (index : UnitIndex) (entry : SourceUnit) : Set Event
  | .tried key specifier =>
      ∃ unit, index.Reaches entry unit ∧ .tried key specifier ∈ unit.triedBy unit.imports
  | .closed members => Walk.Meets index (.start entry) (.closed members)

/-- What bundling the entries of the given names comes across. -/
def eventsOf (index : UnitIndex) (names : List Text) : Set Event :=
  { event | ∃ name ∈ names, ∃ entry, index.lookup? name = some entry ∧
    event ∈ index.eventsFrom entry }

variable {index : UnitIndex} {entry : SourceUnit}

theorem eventsOf_nil (index : UnitIndex) : index.eventsOf [] = ∅ := by
  simp [eventsOf]

theorem eventsOf_cons {name : Text} (hlookup : index.lookup? name = some entry)
    (names : List Text) :
    index.eventsOf (name :: names) = index.eventsFrom entry ∪ index.eventsOf names := by
  ext event
  simp [eventsOf, hlookup]

/-- What the walk tries and what the texts of the inlined units try is, taken together, what the
reached units ask for. -/
theorem eventsFrom_eq (hkeyed : index.WellKeyed) (hentry : entry ∈ index.units) :
    index.eventsFrom entry = { event | Walk.Meets index (.start entry) event } ∪
      { event | ∃ unit ∈ index.inlineOrder entry, event ∈ unit.triedBy unit.imports } := by
  ext event
  simp only [Set.mem_union, Set.mem_ofPred_eq, mem_inlineOrder_iff hkeyed hentry]
  cases event with
  | tried key specifier =>
      constructor
      · exact Or.inr
      · rintro (hmeets | hreached)
        · exact hmeets.reached (Walk.consistent_start index entry)
        · exact hreached
  | closed members =>
      refine ⟨Or.inl, fun h => h.resolve_right ?_⟩
      rintro ⟨unit, -, edge, -, hevent⟩
      simp at hevent

end UnitIndex

namespace Bundler

variable {index : UnitIndex} {entry : SourceUnit} {b : Bundler}

/-! ### One call -/

theorem Accounted.records_bundle (hkeyed : index.WellKeyed) (hentry : entry ∈ index.units)
    (hb : b.Sound index) (h : b.Accounted index) :
    Records index (index.eventsFrom entry) b (b.bundle entry).2 := by
  obtain ⟨w, -, hw⟩ := hb.finished hkeyed hentry
  have hwalk := Walk.records_run hkeyed hentry (Walk.consistent_start index entry) hb h
  have hunits : ∀ unit ∈ index.inlineOrder entry, unit ∈ index.units :=
    fun _ => mem_units_of_mem_inlineOrder hkeyed hentry
  have htexts := hwalk.accounted.records_sections hw.sound hkeyed hunits
  rw [UnitIndex.eventsFrom_eq hkeyed hentry]
  rw [← hb.inlineOrder_eq hkeyed hentry] at htexts ⊢
  exact (hwalk.trans htexts).tell _

/-- A run comes across what its entries do, up to the first unknown one. -/
theorem Accounted.records_bundleEach (hkeyed : index.WellKeyed) (hb : b.Sound index)
    (h : b.Accounted index) (bundles : Table Text Bundle) (names : List Text) :
    Records index (index.eventsOf (knownFront index names)) b (b.bundleEach bundles names).2 := by
  let R (names : List Text) (b b' : Bundler) : Prop :=
    b.Accounted index → Records index (index.eventsOf names) b b'
  refine hb.bundleEach_induction (R := R) hkeyed ?_ ?_ bundles names h
  · intro b _ h
    exact h.records (by simp [UnitIndex.eventsOf_nil])
  · intro b b' name entry names hb hlookup hrest h
    have htold := (h.records (Set.empty_subset _)).tell (.unitStage "Flattening" name)
    have hfirst := htold.accounted.records_bundle hkeyed
      (UnitIndex.mem_units_of_lookup? hlookup) (hb.tell _)
    have hboth := (htold.trans hfirst).trans (hrest hfirst.accounted)
    rw [Set.empty_union] at hboth
    rw [UnitIndex.eventsOf_cons hlookup]
    exact hboth

theorem Accounted.records_bundleAll (hkeyed : index.WellKeyed) (hb : b.Sound index)
    (h : b.Accounted index) (entries : List Text) :
    Records index (index.eventsOf (knownFront index (sortedDistinct entries))) b
      (b.bundleAll entries).2 := by
  have hrecords := h.records_bundleEach hkeyed hb .empty (sortedDistinct entries)
  rcases b.bundleAll_snd_eq entries with heq | ⟨message, heq⟩
  · rw [heq]
    exact hrecords
  · rw [heq]
    exact hrecords.tell message

end Bundler

/-! ### Any calls -/

/-- A request to a bundler. -/
inductive Call
  | bundleAll (entries : List Text)
  | resolve (importer : SourceUnit) (edge : ImportEdge)
  | inlinedText (unit : SourceUnit)

namespace Call

/-- The unit that the call names belongs to the index. -/
def Over (index : UnitIndex) : Call → Prop
  | .bundleAll _ => True
  | .resolve importer _ => importer ∈ index.units
  | .inlinedText unit => unit ∈ index.units

/-- The bundler that has answered the call. -/
def after (b : Bundler) : Call → Bundler
  | .bundleAll entries => (b.bundleAll entries).2
  | .resolve importer edge => (b.resolve importer edge).2
  | .inlinedText unit => (b.inlinedText unit).2

/-- What the call comes across, whatever came before it. -/
def events (index : UnitIndex) : Call → Set Event
  | .bundleAll entries => index.eventsOf (Bundler.knownFront index (sortedDistinct entries))
  | .resolve importer edge => {.tried importer.key edge.specifier}
  | .inlinedText unit => unit.triedBy unit.imports

end Call

namespace Bundler

variable {index : UnitIndex} {b : Bundler} {call : Call} {calls : List Call}

/-- The bundler that has answered the calls. -/
def afterAll (b : Bundler) (calls : List Call) : Bundler := calls.foldl Call.after b

theorem Reached.after (h : Reached index b) (hover : call.Over index) :
    Reached index (call.after b) := by
  cases call with
  | bundleAll entries => exact h.bundleAll entries
  | resolve importer edge => exact h.resolve hover edge
  | inlinedText unit => exact h.inlinedText hover

theorem Sound.grows_after (hkeyed : index.WellKeyed) (hb : b.Sound index) (call : Call) :
    b.Grows (call.after b) := by
  cases call with
  | bundleAll entries => exact (hb.covers_bundleAll hkeyed entries).grows
  | resolve importer edge => exact b.resolve_grows importer edge
  | inlinedText unit => exact b.inlinedText_grows unit

theorem Accounted.records_after (hkeyed : index.WellKeyed) (hb : b.Sound index)
    (h : b.Accounted index) (hover : call.Over index) :
    Records index (call.events index) b (call.after b) := by
  cases call with
  | bundleAll entries => exact h.records_bundleAll hkeyed hb entries
  | resolve importer edge => exact h.records_resolve hb importer edge
  | inlinedText unit => exact h.records_inlinedText hb hkeyed hover

/-- **Calls add what each of them comes across, and undo nothing.** -/
theorem Reached.afterAll (hkeyed : index.WellKeyed) (hb : Reached index b)
    (h : b.Accounted index) (hover : ∀ call ∈ calls, call.Over index) :
    Reached index (b.afterAll calls) ∧ b.Grows (b.afterAll calls) ∧
      Records index { event | ∃ call ∈ calls, event ∈ call.events index } b
        (b.afterAll calls) := by
  induction calls generalizing b with
  | nil => exact ⟨hb, .refl b, h.records (by simp)⟩
  | cons call calls ih =>
      rw [List.forall_mem_cons] at hover
      have hsound := hb.sound hkeyed
      have hfirst := h.records_after hkeyed hsound hover.1
      obtain ⟨hreached, hgrows, hrest⟩ := ih (hb.after hover.1) hfirst.accounted hover.2
      have hevents : { event | ∃ c ∈ call :: calls, event ∈ c.events index }
          = call.events index ∪ { event | ∃ c ∈ calls, event ∈ c.events index } := by
        ext event
        simp
      rw [hevents]
      exact ⟨hreached, (hsound.grows_after hkeyed call).trans hgrows, hfirst.trans hrest⟩

/-- **After any calls, what is remembered is true and every problem is listed once.**  The
specifiers remembered are those that some call tried, with the names they resolve to, and the
ones that refer to nothing are the ones listed.  The cycles listed are those that some call met,
told apart by their members.  Later calls only add to the list, and the next call that succeeds
gives all of it. -/
theorem afterAll_lists_problems_once (hkeyed : index.WellKeyed)
    (hover : ∀ call ∈ calls, call.Over index) (hb : (ofIndex index).afterAll calls = b) :
    (∀ key specifier name, b.resolutions.get? (key, specifier) = some name →
      name = index.targetName? key.name specifier ∧
        name.bind index.lookup? = index.target? key.name specifier) ∧
    (∀ key specifier, (b.resolutions.get? (key, specifier)).isSome ↔
      ∃ call ∈ calls, .tried key specifier ∈ call.events index) ∧
    (Finding.unresolvedPairs b.findings).Nodup ∧
    (∀ key specifier, (key, specifier) ∈ Finding.unresolvedPairs b.findings ↔
      (∃ call ∈ calls, .tried key specifier ∈ call.events index) ∧
        index.target? key.name specifier = none) ∧
    (Finding.memberSets b.findings).Nodup ∧
    (∀ members, members ∈ Finding.memberSets b.findings ↔
      ∃ call ∈ calls, .closed members ∈ call.events index) ∧
    ∀ later, (∀ call ∈ later, call.Over index) →
      b.findings <+: (b.afterAll later).findings ∧
      ∀ entries bundling, ((b.afterAll later).bundleAll entries).1 = .ok bundling →
        b.findings <+: bundling.findings := by
  obtain ⟨hreached, -, hrecords⟩ :=
    Reached.new.afterAll hkeyed (accounted_ofIndex index) hover
  rw [hb] at hreached hrecords
  have hsound := hreached.sound hkeyed
  have haccounted := hrecords.accounted
  have hrecord : b.record = { event | ∃ call ∈ calls, event ∈ call.events index } := by
    rw [hrecords.record_eq, record_ofIndex, Set.empty_union]
  have htried : ∀ key specifier, .tried key specifier ∈ b.record ↔
      ∃ call ∈ calls, .tried key specifier ∈ call.events index := by
    intro key specifier
    rw [hrecord]
    rfl
  have hclosed : ∀ members, .closed members ∈ b.record ↔
      ∃ call ∈ calls, .closed members ∈ call.events index := by
    intro members
    rw [hrecord]
    rfl
  refine ⟨?_, htried, haccounted.unresolvedOnce, ?_, haccounted.cyclesOnce, hclosed, ?_⟩
  · intro key specifier name hname
    have htrue := hsound.remembered key specifier name hname
    exact ⟨htrue, by rw [htrue]; rfl⟩
  · intro key specifier
    rw [haccounted.unresolved, htried]
  · intro later hlater
    obtain ⟨hreached', hgrows, -⟩ := hreached.afterAll hkeyed haccounted hlater
    refine ⟨hgrows.findings, ?_⟩
    intro entries bundling hok
    rw [(bundleEach_of_bundleAll hok).2]
    exact hgrows.findings.trans
      ((hreached'.sound hkeyed).covers_bundleAll hkeyed entries).grows.findings

/-- A project unit that imports `b` and what is not there. -/
def gapped : SourceUnit := .ofText .project ['a'] (importOf ['b'] ++ importOf ['x']) none

/-- Two units that import each other, one of them the unit with the gap. -/
def gappedPair : UnitIndex where
  project := UnitIndex.unitsOf .project (.ofList [(['a'], gapped.text), (['b'], importOf ['a'])])
  library := .empty
  aliases := .empty

/-- A call that fails behind `b` has listed the gap and the cycle, and whatever is bundled next,
both are in the result. -/
theorem gappedPair_loses_no_problem :
    gappedPair.WellKeyed ∧ (∀ call ∈ [Call.bundleAll [['c'], ['b']]], call.Over gappedPair) ∧
      ∃ b, (ofIndex gappedPair).afterAll [.bundleAll [['c'], ['b']]] = b ∧
        (gapped.key, ['x']) ∈ Finding.unresolvedPairs b.findings ∧
        memberKeys [oneImport ['b'] ['a'], gapped] ∈ Finding.memberSets b.findings ∧
        ∀ entries bundling, (b.bundleAll entries).1 = .ok bundling →
          b.findings <+: bundling.findings := by
  have hkeyed : gappedPair.WellKeyed := UnitIndex.wellKeyed_unitsOf _ .empty .empty
  have hover : ∀ call ∈ [Call.bundleAll [['c'], ['b']]], call.Over gappedPair := by
    intro call hcall
    rw [List.mem_singleton.1 hcall]
    trivial
  obtain ⟨-, -, -, hpairs, -, hsets, hlater⟩ := afterAll_lists_problems_once hkeyed hover rfl
  have hlookup : gappedPair.lookup? ['b'] = some (oneImport ['b'] ['a']) := by decide
  have hfront : ['b'] ∈ knownFront gappedPair (sortedDistinct [['c'], ['b']]) := by decide
  refine ⟨hkeyed, hover, _, rfl, (hpairs _ _).2 ⟨?_, by decide⟩, (hsets _).2 ?_, ?_⟩
  · have himports : gappedPair.Imports (oneImport ['b'] ['a']) gapped := by
      unfold UnitIndex.Imports
      decide
    have hgap : ∃ edge ∈ gapped.imports, edge.specifier = ['x'] := by decide
    obtain ⟨edge, hedge, hspecifier⟩ := hgap
    exact ⟨_, List.mem_singleton_self _, ['b'], hfront, _, hlookup, gapped,
      Relation.ReflTransGen.single himports, edge, hedge, by rw [hspecifier]⟩
  · refine ⟨_, List.mem_singleton_self _, ['b'], hfront, _, hlookup, ?_⟩
    -- One step enters the unit with the gap, and its first statement leads back.
    let w := ((Walk.start (oneImport ['b'] ['a'])).advance (oneImport ['b'] ['a']) [] []).enter
      gapped
    have hclosed : Walk.Faces gappedPair w
        (.closed (memberKeys (w.pathFrom (oneImport ['b'] ['a']).key))) := .closed rfl rfl rfl
    have hpath : w.pathFrom (oneImport ['b'] ['a']).key = [oneImport ['b'] ['a'], gapped] := rfl
    rw [hpath] at hclosed
    exact .later rfl (.now hclosed)
  · exact (hlater [] (by simp)).2

end Bundler

end SolidityBundler
