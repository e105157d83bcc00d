/-
Entries do not influence one another.

What a bundler remembers is true, so an entry gets the bundle that the index gives it, and a
new bundler asked for that entry alone can only give the same.  What a call records is the union
of what its entries come across, and what an entry comes across is settled by the index; so it
is also the union of what new bundlers record, each asked for one entry.

A call that fails has taken up the entries in front of the unknown one, and for these the same
holds.
-/
import SolidityBundler.Proofs.Bundler.Calls

namespace SolidityBundler

/-- The problems that a new bundler has on record after a call, whether it succeeds or not. -/
def UnitIndex.recorded (index : UnitIndex) (names : List Text) : List Finding :=
  ((Bundler.ofIndex index).bundleAll names).2.findings

namespace Bundler

variable {index : UnitIndex} {b : Bundler} {entries names : List Text} {bundling : Bundling}

theorem knownFront_eq_self (hknown : ∀ name ∈ names, (index.lookup? name).isSome) :
    knownFront index names = names :=
  List.takeWhile_eq_self_iff.2 hknown

/-- What a new bundler has on record after a call. -/
theorem records_new (hkeyed : index.WellKeyed) (names : List Text) :
    ((ofIndex index).bundleAll names).2.Accounted index ∧
      ((ofIndex index).bundleAll names).2.record
        = index.eventsOf (knownFront index (sortedDistinct names)) := by
  have hrecords := (accounted_ofIndex index).records_bundleAll hkeyed (sound_ofIndex index) names
  refine ⟨hrecords.accounted, ?_⟩
  rw [hrecords.record_eq, record_ofIndex, Set.empty_union]

/-- **The record of a call is the union of the records of its entries**, up to the first unknown
one. -/
theorem mem_record_iff_alone (hkeyed : index.WellKeyed) (names : List Text) (event : Event) :
    event ∈ ((ofIndex index).bundleAll names).2.record ↔
      ∃ name ∈ knownFront index (sortedDistinct names),
        event ∈ ((ofIndex index).bundleAll [name]).2.record := by
  rw [(records_new hkeyed names).2]
  constructor
  · rintro ⟨name, hname, hevent⟩
    have hfront : knownFront index (sortedDistinct [name]) = [name] := by
      refine knownFront_eq_self fun other hother => ?_
      rw [List.mem_singleton.1 hother]
      exact List.mem_takeWhile_imp (p := fun name => (index.lookup? name).isSome) hname
    refine ⟨name, hname, ?_⟩
    rw [(records_new hkeyed [name]).2, hfront]
    exact ⟨name, List.mem_cons_self, hevent⟩
  · rintro ⟨name, hname, hevent⟩
    rw [(records_new hkeyed [name]).2] at hevent
    obtain ⟨other, hother, hevent⟩ := hevent
    have hsame : other = name :=
      List.mem_singleton.1 ((List.takeWhile_sublist _).subset hother)
    rw [hsame] at hevent
    exact ⟨name, hname, hevent⟩

theorem mem_unresolvedPairs_recorded (hkeyed : index.WellKeyed) (names : List Text)
    (pair : UnitKey × Text) :
    pair ∈ Finding.unresolvedPairs (index.recorded names) ↔
      ∃ name ∈ knownFront index (sortedDistinct names),
        pair ∈ Finding.unresolvedPairs (index.recorded [name]) := by
  obtain ⟨key, specifier⟩ := pair
  have hpairs : ∀ names, (key, specifier) ∈ Finding.unresolvedPairs (index.recorded names) ↔
      .tried key specifier ∈ ((ofIndex index).bundleAll names).2.record ∧
        index.target? key.name specifier = none :=
    fun names => (records_new hkeyed names).1.unresolved key specifier
  simp only [hpairs]
  rw [mem_record_iff_alone hkeyed names]
  constructor
  · rintro ⟨⟨name, hname, htried⟩, hnone⟩
    exact ⟨name, hname, htried, hnone⟩
  · rintro ⟨name, hname, htried, hnone⟩
    exact ⟨⟨name, hname, htried⟩, hnone⟩

theorem mem_memberSets_recorded (hkeyed : index.WellKeyed) (names : List Text)
    (members : Finset UnitKey) :
    members ∈ Finding.memberSets (index.recorded names) ↔
      ∃ name ∈ knownFront index (sortedDistinct names),
        members ∈ Finding.memberSets (index.recorded [name]) :=
  mem_record_iff_alone hkeyed names (.closed members)

theorem bundleAll_alone (hkeyed : index.WellKeyed) {name : Text}
    (hknown : (index.lookup? name).isSome) :
    ∃ alone, ((ofIndex index).bundleAll [name]).1 = .ok alone ∧
      alone.findings = index.recorded [name] ∧
      alone.bundles.get? name = (index.lookup? name).map index.bundleOf := by
  have hsound := sound_ofIndex index
  obtain ⟨alone, hok, hfindings, -⟩ :=
    hsound.bundleAll_ok hkeyed (List.forall_mem_singleton.2 hknown)
  refine ⟨alone, hok, hfindings, ?_⟩
  rw [hsound.get?_bundles hkeyed hok, if_pos List.mem_cons_self]

/-- If all entries are known, what is recorded for one of them is what its own call gives. -/
theorem exists_recorded_alone_iff (hkeyed : index.WellKeyed)
    (hknown : ∀ name ∈ entries, (index.lookup? name).isSome) (p : List Finding → Prop) :
    (∃ name ∈ knownFront index (sortedDistinct entries), p (index.recorded [name])) ↔
      ∃ name ∈ entries, ∃ alone, ((ofIndex index).bundleAll [name]).1 = .ok alone ∧
        p alone.findings := by
  rw [knownFront_eq_self fun name hname => hknown name (mem_sortedDistinct.1 hname)]
  constructor
  · rintro ⟨name, hname, hp⟩
    rw [mem_sortedDistinct] at hname
    obtain ⟨alone, hok, hfindings, -⟩ := bundleAll_alone hkeyed (hknown name hname)
    rw [← hfindings] at hp
    exact ⟨name, hname, alone, hok, hp⟩
  · rintro ⟨name, hname, alone, hok, hp⟩
    rw [(bundleEach_of_bundleAll hok).2] at hp
    exact ⟨name, mem_sortedDistinct.2 hname, hp⟩

/-- **Each entry of a call gets what a new bundler gives it alone.**  The bundles do not depend
on the calls before, on the other entries or on their number; and on a new bundler the
unresolved specifiers and the cycles recorded are those recorded for each entry alone, taken
together.  A call that fails records those of the entries in front of the first unknown one. -/
theorem bundleAll_treats_entries_alone (hkeyed : index.WellKeyed) (hb : Reached index b)
    (hok : (b.bundleAll entries).1 = .ok bundling) :
    (∀ name ∈ entries, ∃ alone bundle, ((ofIndex index).bundleAll [name]).1 = .ok alone ∧
      bundling.bundles.get? name = some bundle ∧ alone.bundles.get? name = some bundle) ∧
    (∃ together, ((ofIndex index).bundleAll entries).1 = .ok together ∧
      (∀ pair, pair ∈ Finding.unresolvedPairs together.findings ↔
        ∃ name ∈ entries, ∃ alone, ((ofIndex index).bundleAll [name]).1 = .ok alone ∧
          pair ∈ Finding.unresolvedPairs alone.findings) ∧
      ∀ members, members ∈ Finding.memberSets together.findings ↔
        ∃ name ∈ entries, ∃ alone, ((ofIndex index).bundleAll [name]).1 = .ok alone ∧
          members ∈ Finding.memberSets alone.findings) ∧
    ∀ names,
      (∀ pair, pair ∈ Finding.unresolvedPairs (index.recorded names) ↔
        ∃ name ∈ knownFront index (sortedDistinct names),
          pair ∈ Finding.unresolvedPairs (index.recorded [name])) ∧
      ∀ members, members ∈ Finding.memberSets (index.recorded names) ↔
        ∃ name ∈ knownFront index (sortedDistinct names),
          members ∈ Finding.memberSets (index.recorded [name]) := by
  have hsound := hb.sound hkeyed
  have hknown := hsound.known_of_bundleAll hkeyed hok
  refine ⟨?_, ?_, fun names => ⟨mem_unresolvedPairs_recorded hkeyed names,
    mem_memberSets_recorded hkeyed names⟩⟩
  · intro name hname
    obtain ⟨alone, hok', -, halone⟩ := bundleAll_alone hkeyed (hknown name hname)
    obtain ⟨entry, hlookup⟩ := Option.isSome_iff_exists.1 (hknown name hname)
    rw [hlookup, Option.map_some] at halone
    refine ⟨alone, index.bundleOf entry, hok', ?_, halone⟩
    rw [hsound.get?_bundles hkeyed hok, if_pos hname, hlookup, Option.map_some]
  · obtain ⟨together, hok', hfindings, -⟩ := (sound_ofIndex index).bundleAll_ok hkeyed hknown
    have hrecorded : together.findings = index.recorded entries := hfindings
    refine ⟨together, hok', ?_, ?_⟩
    · intro pair
      rw [hrecorded, mem_unresolvedPairs_recorded hkeyed entries]
      exact exists_recorded_alone_iff hkeyed hknown (pair ∈ Finding.unresolvedPairs ·)
    · intro members
      rw [hrecorded, mem_memberSets_recorded hkeyed entries]
      exact exists_recorded_alone_iff hkeyed hknown (members ∈ Finding.memberSets ·)

/-- After a call that failed, `a` gets the bundle that it gets alone, and alone or together with
`b` its gap is recorded. -/
theorem gappedPair_treated_alone :
    gappedPair.WellKeyed ∧ Reached gappedPair ((ofIndex gappedPair).bundleAll [['c'], ['b']]).2 ∧
      ∃ bundling alone together,
        (((ofIndex gappedPair).bundleAll [['c'], ['b']]).2.bundleAll [['a'], ['b']]).1
          = .ok bundling ∧
        ((ofIndex gappedPair).bundleAll [['a']]).1 = .ok alone ∧
        ((ofIndex gappedPair).bundleAll [['a'], ['b']]).1 = .ok together ∧
        bundling.bundles.get? ['a'] = alone.bundles.get? ['a'] ∧
        (gapped.key, ['x']) ∈ Finding.unresolvedPairs alone.findings ∧
        (gapped.key, ['x']) ∈ Finding.unresolvedPairs together.findings := by
  have hkeyed : gappedPair.WellKeyed := UnitIndex.wellKeyed_unitsOf _ .empty .empty
  have hreached : Reached gappedPair ((ofIndex gappedPair).bundleAll [['c'], ['b']]).2 :=
    .bundleAll .new [['c'], ['b']]
  have hknown : ∀ name ∈ [['a'], ['b']], (gappedPair.lookup? name).isSome := by decide
  obtain ⟨bundling, hok, -⟩ := (hreached.sound hkeyed).bundleAll_ok hkeyed hknown
  obtain ⟨hbundles, ⟨together, htogether, hpairs, -⟩, -⟩ :=
    bundleAll_treats_entries_alone hkeyed hreached hok
  obtain ⟨alone, bundle, halone, hget, hget'⟩ := hbundles ['a'] List.mem_cons_self
  have hgap : (gapped.key, ['x']) ∈ Finding.unresolvedPairs (gappedPair.recorded [['a']]) := by
    decide +kernel
  have hgap' : (gapped.key, ['x']) ∈ Finding.unresolvedPairs alone.findings := by
    rw [(bundleEach_of_bundleAll halone).2]
    exact hgap
  exact ⟨hkeyed, hreached, bundling, alone, together, hok, halone, htogether,
    hget.trans hget'.symm, hgap', (hpairs _).2 ⟨['a'], List.mem_cons_self, alone, halone, hgap'⟩⟩

end Bundler

end SolidityBundler
