/-
What is inlined, in which order, and which cycles are reported.

Three results about bundling, for any index whose units can be told apart and for known
entries.  A bundle holds exactly the units that its entry reaches, each once, the entry
last.  A unit stands behind everything it imports, except where an import closes a cycle,
and then a report names both units.  And on a new bundler the reports are exactly as good as
they look: there is one if and only if some entry reaches a cycle, and each is the cycle it
says.

The third follows from the second.  If nothing is reported, every import goes back in the
order, and along a cycle it would have to go back for ever.
-/
import SolidityBundler.Proofs.Bundler.History

namespace SolidityBundler

/-! ### Places in a list

`[v, u].Sublist l` says that `v` stands before `u` in `l`.
-/

private theorem eq_or_sublist_of_mem {α : Type} {u v : α} {l : List α} (hu : u ∈ l) (hv : v ∈ l) :
    v = u ∨ [u, v].Sublist l ∨ [v, u].Sublist l := by
  induction l with
  | nil => simp at hu
  | cons x rest ih =>
      rcases List.mem_cons.1 hu with rfl | hu' <;> rcases List.mem_cons.1 hv with rfl | hv'
      · exact Or.inl rfl
      · exact Or.inr (Or.inl ((List.singleton_sublist.2 hv').cons_cons u))
      · exact Or.inr (Or.inr ((List.singleton_sublist.2 hu').cons_cons v))
      · rcases ih hu' hv' with heq | hsub | hsub
        · exact Or.inl heq
        · exact Or.inr (Or.inl (hsub.cons x))
        · exact Or.inr (Or.inr (hsub.cons x))

theorem idxOf_lt_of_sublist {α : Type} [DecidableEq α] {u v : α} {l : List α}
    (hnodup : l.Nodup) (h : [v, u].Sublist l) : l.idxOf v < l.idxOf u := by
  induction l with
  | nil => simp at h
  | cons x rest ih =>
      rw [List.nodup_cons] at hnodup
      cases h with
      | cons _ hrest =>
          have hv : x ≠ v := fun heq => hnodup.1 (heq ▸ hrest.subset List.mem_cons_self)
          have hu : x ≠ u := fun heq => hnodup.1 (heq ▸ hrest.subset (by simp))
          rw [List.idxOf_cons_ne _ hv, List.idxOf_cons_ne _ hu]
          exact Nat.succ_lt_succ (ih hnodup.2 hrest)
      | cons_cons _ hrest =>
          have hu : v ≠ u := fun heq => hnodup.1 (heq ▸ List.singleton_sublist.1 hrest)
          rw [List.idxOf_cons_self, List.idxOf_cons_ne _ hu]
          exact Nat.succ_pos _

/-! ### The units of a bundle -/

theorem spansFrom_units (line : Int) (sections : List Section) :
    (spansFrom line sections).map Span.unit = sections.map Section.unit := by
  induction sections generalizing line with
  | nil => rfl
  | cons s rest ih => rw [spansFrom, List.map_cons, List.map_cons, ih]

namespace UnitIndex

variable {index : UnitIndex} {entry : SourceUnit}

theorem bundleOf_units (index : UnitIndex) (entry : SourceUnit) :
    (index.bundleOf entry).units = (index.inlineOrder entry).map SourceUnit.name := by
  show (spansFrom 1 _).map Span.unit = _
  rw [spansFrom_units, List.map_map]
  rfl

/-- **An entry is inlined with exactly the units it reaches.** -/
theorem mem_inlineOrder_iff (hkeyed : index.WellKeyed) (hentry : entry ∈ index.units)
    (unit : SourceUnit) : unit ∈ index.inlineOrder entry ↔ index.Reaches entry unit := by
  obtain ⟨w, horder, hw⟩ := (Bundler.sound_ofIndex index).finished hkeyed hentry
  rw [← horder]
  exact hw.mem_order_iff hkeyed hentry unit

/-- No two inlined units share origin and name. -/
theorem nodup_inlineOrder (hkeyed : index.WellKeyed) (hentry : entry ∈ index.units) :
    ((index.inlineOrder entry).map SourceUnit.key).Nodup := by
  obtain ⟨w, horder, hw⟩ := (Bundler.sound_ofIndex index).finished hkeyed hentry
  rw [← horder]
  exact hw.consistent.orderDistinct

theorem getLast?_inlineOrder (hkeyed : index.WellKeyed) (hentry : entry ∈ index.units) :
    (index.inlineOrder entry).getLast? = some entry := by
  obtain ⟨w, horder, hw⟩ := (Bundler.sound_ofIndex index).finished hkeyed hentry
  rw [← horder]
  exact hw.getLast?_order

/-- Where every import stands before its importer, no unit comes back to itself. -/
theorem not_cycle_of_ordered (hkeyed : index.WellKeyed) (hentry : entry ∈ index.units)
    (hordered : ∀ u ∈ index.inlineOrder entry, ∀ v, index.Imports u v →
      [v, u].Sublist (index.inlineOrder entry)) {unit : SourceUnit}
    (hunit : unit ∈ index.inlineOrder entry) : ¬ Relation.TransGen index.Imports unit unit := by
  have hnodup : (index.inlineOrder entry).Nodup := .of_map _ (nodup_inlineOrder hkeyed hentry)
  -- Along a row of imports the place in the order goes down.
  have hplace : ∀ v, Relation.TransGen index.Imports unit v → v ∈ index.inlineOrder entry ∧
      (index.inlineOrder entry).idxOf v < (index.inlineOrder entry).idxOf unit := by
    intro v hpath
    induction hpath with
    | single himports =>
        have hsub := hordered _ hunit _ himports
        exact ⟨hsub.subset List.mem_cons_self, idxOf_lt_of_sublist hnodup hsub⟩
    | tail _ himports ih =>
        have hsub := hordered _ ih.1 _ himports
        exact ⟨hsub.subset List.mem_cons_self,
          Nat.lt_trans (idxOf_lt_of_sublist hnodup hsub) ih.2⟩
  intro hcycle
  exact Nat.lt_irrefl _ (hplace unit hcycle).2

end UnitIndex

theorem Finding.message_cycle {members : List SourceUnit} {first : SourceUnit}
    (hfirst : members.head? = some first) (edge : ImportEdge) :
    (Finding.cycle members edge).message = "[FLT-0010] import cycle detected: " ++
      Text.join " -> " ((members ++ [first]).map SourceUnit.name) := by
  cases members with
  | nil => simp at hfirst
  | cons unit rest =>
      rw [List.head?_cons, Option.some.injEq] at hfirst
      subst hfirst
      rfl

namespace Bundler

variable {index : UnitIndex} {b : Bundler} {entries : List Text}

/-! ### Bundling known entries

A call on known entries succeeds whatever the bundler was asked before.  The index says what
the bundles are, so the order of a bundle is that of a new bundler.
-/

/-- A text that imports `name`. -/
def importOf (name : Text) : Text := importWord ++ [' ', '"'] ++ name ++ ['"', ';']

/-- A project unit that imports another one. -/
def oneImport (name other : Text) : SourceUnit := .ofText .project name (importOf other) none

/-- Two units that import each other. -/
def mutualPair : UnitIndex where
  project := UnitIndex.unitsOf .project
    (.ofList [(['a'], importOf ['b']), (['b'], importOf ['a'])])
  library := .empty
  aliases := .empty

theorem mutualPair_wellKeyed : mutualPair.WellKeyed := UnitIndex.wellKeyed_unitsOf _ .empty .empty

theorem mutualPair_imports :
    mutualPair.Imports (oneImport ['a'] ['b']) (oneImport ['b'] ['a']) ∧
      mutualPair.Imports (oneImport ['b'] ['a']) (oneImport ['a'] ['b']) := by
  unfold UnitIndex.Imports
  decide

theorem lookup?_mutualPair : mutualPair.lookup? ['a'] = some (oneImport ['a'] ['b']) := by decide

theorem mutualPair_known : ∀ name ∈ [['a']], (mutualPair.lookup? name).isSome := by decide

/-- **A bundle holds what its entry reaches, each unit once, the entry last.**  The edges are
those that the bundler resolves. -/
theorem bundleAll_inlines_reached (hkeyed : index.WellKeyed) (hb : Reached index b)
    (hknown : ∀ name ∈ entries, (index.lookup? name).isSome) :
    (∀ importer edge, (b.resolve importer edge).1
        = index.target? importer.name edge.specifier) ∧
      ∃ bundling, (b.bundleAll entries).1 = .ok bundling ∧
        ∀ name ∈ entries, ∃ entry, index.lookup? name = some entry ∧
          bundling.bundles.get? name = some (index.bundleOf entry) ∧
          (index.bundleOf entry).units = (index.inlineOrder entry).map SourceUnit.name ∧
          ((index.inlineOrder entry).map SourceUnit.key).Nodup ∧
          (∀ unit, unit ∈ index.inlineOrder entry ↔ index.Reaches entry unit) ∧
          (index.inlineOrder entry).getLast? = some entry := by
  have hsound := hb.sound hkeyed
  refine ⟨hsound.resolve_eq, ?_⟩
  obtain ⟨bundling, hok, -, hbundles, -⟩ := hsound.bundleAll_ok hkeyed hknown
  refine ⟨bundling, hok, ?_⟩
  intro name hname
  obtain ⟨entry, hentry, hlookup, hget⟩ := hbundles name hname
  exact ⟨entry, hlookup, hget, index.bundleOf_units entry,
    UnitIndex.nodup_inlineOrder hkeyed hentry, UnitIndex.mem_inlineOrder_iff hkeyed hentry,
    UnitIndex.getLast?_inlineOrder hkeyed hentry⟩

/-- A pair that imports each other, after a call that failed: either unit brings in both. -/
theorem mutualPair_inlines_both :
    mutualPair.WellKeyed ∧
      Reached mutualPair ((ofIndex mutualPair).bundleAll [['b'], ['c']]).2 ∧
      (∀ name ∈ [['a']], (mutualPair.lookup? name).isSome) ∧
      ∃ bundling bundle,
        (((ofIndex mutualPair).bundleAll [['b'], ['c']]).2.bundleAll [['a']]).1 = .ok bundling ∧
        bundling.bundles.get? ['a'] = some bundle ∧ ['b'] ∈ bundle.units ∧
        bundle.units.getLast? = some ['a'] := by
  have hreached : Reached mutualPair ((ofIndex mutualPair).bundleAll [['b'], ['c']]).2 :=
    .bundleAll .new [['b'], ['c']]
  refine ⟨mutualPair_wellKeyed, hreached, mutualPair_known, ?_⟩
  obtain ⟨-, bundling, hok, hbundles⟩ :=
    bundleAll_inlines_reached mutualPair_wellKeyed hreached mutualPair_known
  obtain ⟨entry, hlookup, hget, hunits, -, hreaches, hlast⟩ :=
    hbundles ['a'] List.mem_cons_self
  have hentry : entry = oneImport ['a'] ['b'] :=
    Option.some.inj (hlookup.symm.trans lookup?_mutualPair)
  subst hentry
  refine ⟨bundling, _, hok, hget, ?_, ?_⟩
  · rw [hunits]
    exact List.mem_map_of_mem (f := SourceUnit.name)
      ((hreaches _).2 (Relation.ReflTransGen.single mutualPair_imports.1))
  · rw [hunits, List.getLast?_map, hlast]
    rfl

/-- **Imports are inlined first, or a report names the cycle that prevents it.** -/
theorem bundleAll_inlines_imports_first (hkeyed : index.WellKeyed) (hb : Reached index b)
    (hknown : ∀ name ∈ entries, (index.lookup? name).isSome) :
    ∃ bundling, (b.bundleAll entries).1 = .ok bundling ∧
      ∀ name ∈ entries, ∃ entry, index.lookup? name = some entry ∧
        bundling.bundles.get? name = some (index.bundleOf entry) ∧
        (index.bundleOf entry).units = (index.inlineOrder entry).map SourceUnit.name ∧
        (index.inlineOrder entry).Nodup ∧
        (∀ u ∈ index.inlineOrder entry, ∀ v, index.Imports u v →
          [v, u].Sublist (index.inlineOrder entry) ∨
          (v = u ∨ [u, v].Sublist (index.inlineOrder entry)) ∧
            ∃ members edge, .cycle members edge ∈ bundling.findings ∧
              u ∈ members ∧ v ∈ members) ∧
        ((∀ members edge, .cycle members edge ∉ bundling.findings) →
          ∀ u ∈ index.inlineOrder entry, ∀ v, index.Imports u v →
            [v, u].Sublist (index.inlineOrder entry)) := by
  obtain ⟨bundling, hok, hfindings, hbundles, hcovers⟩ :=
    (hb.sound hkeyed).bundleAll_ok hkeyed hknown
  refine ⟨bundling, hok, ?_⟩
  intro name hname
  obtain ⟨entry, hentry, hlookup, hget⟩ := hbundles name hname
  have hordered : ∀ u ∈ index.inlineOrder entry, ∀ v, index.Imports u v →
      [v, u].Sublist (index.inlineOrder entry) ∨
      ∃ members edge, .cycle members edge ∈ bundling.findings ∧ u ∈ members ∧ v ∈ members := by
    intro u hu v himports
    rcases hcovers.ordered name hname entry hlookup u hu v himports with hsub | hreported
    · exact Or.inl hsub
    · obtain ⟨⟨members, edge⟩, hcycle, hboth⟩ := hreported
      rw [mem_cycles, ← hfindings] at hcycle
      exact Or.inr ⟨members, edge, hcycle, hboth⟩
  have hnodup : (index.inlineOrder entry).Nodup :=
    .of_map _ (UnitIndex.nodup_inlineOrder hkeyed hentry)
  refine ⟨entry, hlookup, hget, index.bundleOf_units entry, hnodup, ?_, ?_⟩
  · intro u hu v himports
    rcases hordered u hu v himports with hsub | hreport
    · exact Or.inl hsub
    · have hv : v ∈ index.inlineOrder entry := by
        rw [UnitIndex.mem_inlineOrder_iff hkeyed hentry] at hu ⊢
        exact hu.tail himports
      rcases eq_or_sublist_of_mem hu hv with heq | hsub | hsub
      · exact Or.inr ⟨Or.inl heq, hreport⟩
      · exact Or.inr ⟨Or.inr hsub, hreport⟩
      · exact Or.inl hsub
  · intro hnone u hu v himports
    rcases hordered u hu v himports with hsub | ⟨members, edge, hcycle, -⟩
    · exact hsub
    · exact absurd hcycle (hnone members edge)

/-- The same pair: one of the two stands before what it imports, so both are on record, though
the report was made by the call before. -/
theorem mutualPair_reported_before :
    mutualPair.WellKeyed ∧
      Reached mutualPair ((ofIndex mutualPair).bundleAll [['b']]).2 ∧
      (∀ name ∈ [['a']], (mutualPair.lookup? name).isSome) ∧
      ∃ bundling,
        (((ofIndex mutualPair).bundleAll [['b']]).2.bundleAll [['a']]).1 = .ok bundling ∧
        ∃ members edge, .cycle members edge ∈ bundling.findings ∧
          oneImport ['a'] ['b'] ∈ members ∧ oneImport ['b'] ['a'] ∈ members := by
  have hreached : Reached mutualPair ((ofIndex mutualPair).bundleAll [['b']]).2 :=
    .bundleAll .new [['b']]
  refine ⟨mutualPair_wellKeyed, hreached, mutualPair_known, ?_⟩
  obtain ⟨bundling, hok, hbundles⟩ :=
    bundleAll_inlines_imports_first mutualPair_wellKeyed hreached mutualPair_known
  obtain ⟨entry, hlookup, -, -, hnodup, hordered, -⟩ := hbundles ['a'] List.mem_cons_self
  have hentry : entry = oneImport ['a'] ['b'] :=
    Option.some.inj (hlookup.symm.trans lookup?_mutualPair)
  subst hentry
  refine ⟨bundling, hok, ?_⟩
  have hmem := UnitIndex.mem_units_of_lookup? hlookup
  have hiff := UnitIndex.mem_inlineOrder_iff mutualPair_wellKeyed hmem
  have ha := (hiff _).2 Relation.ReflTransGen.refl
  have hb := (hiff _).2 (Relation.ReflTransGen.single mutualPair_imports.1)
  rcases hordered _ ha _ mutualPair_imports.1 with hba | ⟨-, members, edge, hcycle, hboth⟩
  · rcases hordered _ hb _ mutualPair_imports.2 with hab | ⟨-, members, edge, hcycle, hboth⟩
    · exact absurd (idxOf_lt_of_sublist hnodup hab)
        (Nat.lt_asymm (idxOf_lt_of_sublist hnodup hba))
    · exact ⟨members, edge, hcycle, hboth.2, hboth.1⟩
  · exact ⟨members, edge, hcycle, hboth⟩

/-- **A new bundler reports a cycle if and only if an entry reaches one, and every report is
true.**  The members of a report are distinct and import each other in a row, and at its line
and column the last one imports the first. -/
theorem bundleAll_reports_iff_cycle (hkeyed : index.WellKeyed)
    (hknown : ∀ name ∈ entries, (index.lookup? name).isSome) :
    ∃ bundling, ((ofIndex index).bundleAll entries).1 = .ok bundling ∧
      ((∃ members edge, .cycle members edge ∈ bundling.findings) ↔
        ∃ name ∈ entries, ∃ entry unit, index.lookup? name = some entry ∧
          index.Reaches entry unit ∧ Relation.TransGen index.Imports unit unit) ∧
      ∀ finding ∈ bundling.findings, ∀ members edge, finding = .cycle members edge →
        (members.map SourceUnit.key).Nodup ∧ members.IsChain index.Imports ∧
        ∃ first last, members.head? = some first ∧ members.getLast? = some last ∧
          edge ∈ last.imports ∧ index.target? last.name edge.specifier = some first ∧
          finding.diagnostic.line = some edge.position.line ∧
          finding.diagnostic.column = some edge.position.column ∧
          finding.diagnostic.unitName = some last.name ∧
          finding.diagnostic.message = .proper ("[FLT-0010] import cycle detected: " ++
            Text.join " -> " ((members ++ [first]).map SourceUnit.name)) := by
  obtain ⟨bundling, hok, hfindings, -, hcovers⟩ :=
    (sound_ofIndex index).bundleAll_ok hkeyed hknown
  refine ⟨bundling, hok, ⟨?_, ?_⟩, ?_⟩
  · rintro ⟨members, edge, hfinding⟩
    rw [hfindings, ← mem_cycles] at hfinding
    obtain ⟨first, hfirst, hcycle⟩ := (hcovers.sound.genuine members edge hfinding).exists_cycle
    rcases hcovers.reports _ hfinding with hold | ⟨name, hname, entry, hlookup, hreach⟩
    · simp [cycles, ofIndex] at hold
    · exact ⟨name, hname, entry, first, hlookup, hreach first hfirst, hcycle⟩
  · rintro ⟨name, hname, entry, unit, hlookup, hreach, hcycle⟩
    have hentry := UnitIndex.mem_units_of_lookup? hlookup
    by_contra hnone
    refine UnitIndex.not_cycle_of_ordered hkeyed hentry ?_
      ((UnitIndex.mem_inlineOrder_iff hkeyed hentry unit).2 hreach) hcycle
    intro u hu v himports
    rcases hcovers.ordered name hname entry hlookup u hu v himports with hsub | hreported
    · exact hsub
    · obtain ⟨⟨members, edge⟩, hmem, -⟩ := hreported
      rw [mem_cycles, ← hfindings] at hmem
      exact absurd ⟨members, edge, hmem⟩ hnone
  · rintro finding hfinding members edge rfl
    rw [hfindings, ← mem_cycles] at hfinding
    have hclosed := hcovers.sound.genuine members edge hfinding
    obtain ⟨first, last, hfirst, hlast, hedge, htarget⟩ := hclosed.closing
    refine ⟨hclosed.distinct, hclosed.chain, first, last, hfirst, hlast, hedge, htarget, rfl, rfl,
      ?_, ?_⟩
    · show members.getLast?.map SourceUnit.name = some last.name
      rw [hlast]
      rfl
    · exact congrArg Reported.proper (Finding.message_cycle hfirst edge)

/-- The same pair is reported as a cycle. -/
theorem mutualPair_is_cycle :
    mutualPair.WellKeyed ∧ (∀ name ∈ [['a']], (mutualPair.lookup? name).isSome) ∧
      ∃ bundling, ((ofIndex mutualPair).bundleAll [['a']]).1 = .ok bundling ∧
        ∃ members edge, .cycle members edge ∈ bundling.findings := by
  refine ⟨mutualPair_wellKeyed, mutualPair_known, ?_⟩
  obtain ⟨bundling, hok, hiff, -⟩ :=
    bundleAll_reports_iff_cycle mutualPair_wellKeyed mutualPair_known
  refine ⟨bundling, hok, hiff.2 ⟨['a'], List.mem_cons_self, oneImport ['a'] ['b'],
    oneImport ['a'] ['b'], lookup?_mutualPair, Relation.ReflTransGen.refl, ?_⟩⟩
  exact (Relation.TransGen.single mutualPair_imports.1).tail mutualPair_imports.2

end Bundler

end SolidityBundler
