/-
Names that a bundle holds twice.

A project unit and a library unit may share a name.  The project unit then shadows the other
one, but a suffix alias still leads to it, since an alias stands for what the library holds.  So
a bundle can hold both, one behind the other under the same name, and nothing else is ever
repeated: origin and name tell inlined units apart, and there are two origins.

What a shadowed unit is inlined for is always an alias.  Looking up its own name gives the
project unit, whichever kind of specifier asked for that name.
-/
import SolidityBundler.Proofs.Index.Lookup
import SolidityBundler.Proofs.InlineOrder

namespace SolidityBundler

/-- A name occurs as often as there are units of either origin with it. -/
private theorem count_map_name (units : List SourceUnit) (name : Text) :
    (units.map SourceUnit.name).count name
      = (units.map SourceUnit.key).count { origin := .project, name } +
        (units.map SourceUnit.key).count { origin := .library, name } := by
  induction units with
  | nil => rfl
  | cons unit units ih =>
      rw [List.map_cons, List.map_cons, List.count_cons, List.count_cons, List.count_cons, ih]
      by_cases hname : unit.name = name
      · subst hname
        cases horigin : unit.origin with
        | project =>
            simp only [SourceUnit.key, horigin, UnitKey.mk.injEq, beq_iff_eq, beq_self_eq_true,
              if_true, reduceCtorEq, false_and, if_false]
            omega
        | library =>
            simp only [SourceUnit.key, horigin, UnitKey.mk.injEq, beq_iff_eq, beq_self_eq_true,
              if_true, reduceCtorEq, false_and, if_false]
            omega
      · have hkey : ∀ origin, (unit.key == { origin, name }) = false := by
          intro origin
          rw [beq_eq_false_iff_ne]
          exact fun heq => hname (congrArg UnitKey.name heq)
        rw [hkey, hkey, if_neg (by simpa using hname)]
        simp only [if_false, Nat.add_zero, Bool.false_eq_true]

theorem count_name_le_two {units : List SourceUnit} (h : (units.map SourceUnit.key).Nodup)
    (name : Text) :
    (units.map SourceUnit.name).count name ≤ 2 ∧
      ((units.map SourceUnit.name).count name = 2 →
        (∃ u ∈ units, u.key = { origin := .project, name }) ∧
          ∃ v ∈ units, v.key = { origin := .library, name }) := by
  have honce := List.nodup_iff_count_le_one.1 h
  have hproject := honce { origin := .project, name }
  have hlibrary := honce { origin := .library, name }
  have hmem : ∀ key, 0 < (units.map SourceUnit.key).count key → ∃ u ∈ units, u.key = key := by
    intro key hpos
    exact List.mem_map.1 (List.count_pos_iff.1 hpos)
  rw [count_map_name]
  refine ⟨by omega, fun htwo => ⟨hmem _ (by omega), hmem _ (by omega)⟩⟩

namespace UnitIndex

/-- A library unit whose name a project unit has as well. -/
def Shadowed (index : UnitIndex) (unit : SourceUnit) : Prop :=
  unit.origin = .library ∧ index.project.contains unit.name = true

variable {index : UnitIndex}

private theorem Filed.contains_project_of_key (hfiled : index.Filed) {unit : SourceUnit}
    {name : Text} (hmem : unit ∈ index.units) (hkey : unit.key = { origin := .project, name }) :
    index.project.contains name = true := by
  rcases get?_of_mem_units hmem with ⟨stored, hproject⟩ | ⟨stored, hlibrary⟩
  · have hsame := hfiled.project _ _ hproject
    rw [hkey, UnitKey.mk.injEq] at hsame
    rw [Table.contains, hsame.2, hproject]
    rfl
  · have hsame := hfiled.library _ _ hlibrary
    rw [hkey, UnitKey.mk.injEq] at hsame
    exact absurd hsame.1 (by decide)

/-- **Only an alias leads to a shadowed unit.** -/
theorem Filed.get?_aliases_of_shadowed (hfiled : index.Filed) {unit : SourceUnit} {name : Text}
    (hshadowed : index.Shadowed unit) (hlookup : index.lookup? name = some unit) :
    index.aliases.get? name = some unit.name ∧ name ≠ unit.name := by
  obtain ⟨horigin, hproject⟩ := hshadowed
  rw [lookup?_eq_or] at hlookup
  cases hname : index.project.get? name with
  | some found =>
      rw [hname, Option.some_or] at hlookup
      obtain rfl : found = unit := Option.some.inj hlookup
      have hkey : found.origin = .project :=
        congrArg UnitKey.origin (hfiled.project _ _ hname)
      rw [horigin] at hkey
      cases hkey
  | none =>
      have hne : name ≠ unit.name := by
        rintro rfl
        rw [Table.contains, hname] at hproject
        cases hproject
      rw [hname, Option.none_or] at hlookup
      have hkey : unit.name = (index.aliases.get? name).getD name :=
        congrArg UnitKey.name (hfiled.library _ _ hlookup)
      cases halias : index.aliases.get? name with
      | some target =>
          rw [halias, Option.getD_some] at hkey
          exact ⟨congrArg some hkey.symm, hne⟩
      | none =>
          rw [halias, Option.getD_none] at hkey
          exact absurd hkey.symm hne

end UnitIndex

namespace Bundler

variable {index : UnitIndex} {b : Bundler} {entries : List Text}

/-- **A bundle repeats a name only for a project unit and the library unit that it shadows.**  No
unit is inlined twice, so a name occurs at most twice.  A shadowed unit is inlined because it is
the entry or because an inlined unit imports it, and in either case an alias led to it: its own
name gives the project unit. -/
theorem bundleAll_repeats_shadowed_only {project library : Table Text Text}
    (hindex : UnitIndex.ofTexts project library = .ok index) (hb : Reached index b)
    (hknown : ∀ name ∈ entries, (index.lookup? name).isSome) :
    ∃ bundling, (b.bundleAll entries).1 = .ok bundling ∧
      ∀ name ∈ entries, ∃ entry bundle, index.lookup? name = some entry ∧
        bundling.bundles.get? name = some bundle ∧
        bundle.units = (index.inlineOrder entry).map SourceUnit.name ∧
        ((index.inlineOrder entry).map SourceUnit.key).Nodup ∧
        (∀ repeated, bundle.units.count repeated ≤ 2 ∧
          (bundle.units.count repeated = 2 →
            (∃ u ∈ index.inlineOrder entry, u.key = { origin := .project, name := repeated }) ∧
            ∃ v ∈ index.inlineOrder entry, v.key = { origin := .library, name := repeated } ∧
              index.Shadowed v)) ∧
        ∀ v ∈ index.inlineOrder entry, index.Shadowed v →
          (∀ found, index.lookup? found = some v →
            index.aliases.get? found = some v.name ∧ found ≠ v.name) ∧
          (v = entry ∨ ∃ u ∈ index.inlineOrder entry, ∃ edge ∈ u.imports, ∃ found,
            index.targetName? u.name edge.specifier = some found ∧
            index.lookup? found = some v) := by
  have hfiled := UnitIndex.filed_ofTexts hindex
  have hkeyed := hfiled.wellKeyed
  obtain ⟨bundling, hok, -, hbundles, -⟩ := (hb.sound hkeyed).bundleAll_ok hkeyed hknown
  refine ⟨bundling, hok, ?_⟩
  intro name hname
  obtain ⟨entry, hentry, hlookup, hget⟩ := hbundles name hname
  have hdistinct := UnitIndex.nodup_inlineOrder hkeyed hentry
  have hmem := UnitIndex.mem_inlineOrder_iff hkeyed hentry
  refine ⟨entry, _, hlookup, hget, index.bundleOf_units entry, hdistinct, ?_, ?_⟩
  · intro repeated
    rw [index.bundleOf_units entry]
    obtain ⟨hle, htwice⟩ := count_name_le_two hdistinct repeated
    refine ⟨hle, fun htwo => ?_⟩
    obtain ⟨⟨u, hu, hukey⟩, v, hv, hvkey⟩ := htwice htwo
    refine ⟨⟨u, hu, hukey⟩, v, hv, hvkey, congrArg UnitKey.origin hvkey, ?_⟩
    have hvname : v.name = repeated := congrArg UnitKey.name hvkey
    have humem := mem_units_of_mem_inlineOrder hkeyed hentry hu
    rw [hvname]
    exact hfiled.contains_project_of_key humem hukey
  · intro v hv hshadowed
    refine ⟨fun found hfound => ?_, ?_⟩
    · exact hfiled.get?_aliases_of_shadowed hshadowed hfound
    · rcases Relation.ReflTransGen.cases_tail ((hmem v).1 hv) with hsame | ⟨u, hreach, himports⟩
      · exact Or.inl hsame
      · obtain ⟨edge, hedge, htarget⟩ := himports
        obtain ⟨found, hfound, hlookup⟩ := Option.bind_eq_some_iff.1 htarget
        exact Or.inr ⟨u, (hmem u).2 hreach, edge, hedge, found, hfound, hlookup⟩

/-- A project with a unit `v/u` and a unit that imports both `u` and `v/u`. -/
def clashingProject : Table Text Text :=
  .ofList [("m".toList, importOf "u" ++ importOf "v/u"), ("v/u".toList, [])]

/-- A library with a unit of the same name. -/
def clashingLibrary : Table Text Text := .ofList [("v/u".toList, ['x'])]

def clashingEntry : SourceUnit := .ofText .project "m" (importOf "u" ++ importOf "v/u") none

def clashingUnits : List SourceUnit :=
  [.ofText .library "v/u" ['x'] none, .ofText .project "v/u" [] none, clashingEntry]

theorem inlineOrder_clashing :
    (UnitIndex.overTexts clashingProject clashingLibrary).inlineOrder clashingEntry
      = clashingUnits := by
  decide +kernel

private theorem lookup?_clashing :
    (UnitIndex.overTexts clashingProject clashingLibrary).lookup? ['m'] = some clashingEntry := by
  decide

private theorem clashing_known : ∀ name ∈ [['m']],
    ((UnitIndex.overTexts clashingProject clashingLibrary).lookup? name).isSome := by
  decide

/-- The alias brings in the library unit beside the project unit that shadows it, and the bundle
holds their name twice. -/
theorem clashing_repeats_name :
    ∃ index bundling bundle,
      UnitIndex.ofTexts clashingProject clashingLibrary = .ok index ∧
      ((ofIndex index).bundleAll [['m']]).1 = .ok bundling ∧
      bundling.bundles.get? ['m'] = some bundle ∧
      bundle.units = ["v/u".toList, "v/u".toList, "m".toList] ∧ ¬ bundle.units.Nodup := by
  have hkeyed := UnitIndex.wellKeyed_ofTexts (UnitIndex.ofTexts_eq clashingProject clashingLibrary)
  obtain ⟨bundling, hok, -, hbundles, -⟩ :=
    (sound_ofIndex (UnitIndex.overTexts clashingProject clashingLibrary)).bundleAll_ok hkeyed
      clashing_known
  obtain ⟨entry, -, hlookup, hget⟩ := hbundles ['m'] List.mem_cons_self
  have hentry : entry = clashingEntry := Option.some.inj (hlookup.symm.trans lookup?_clashing)
  subst hentry
  have hunits := UnitIndex.bundleOf_units
    (UnitIndex.overTexts clashingProject clashingLibrary) clashingEntry
  rw [inlineOrder_clashing] at hunits
  refine ⟨_, bundling, _, UnitIndex.ofTexts_eq _ _, hok, hget, hunits, ?_⟩
  rw [hunits]
  decide

/-- The library unit of that bundle is shadowed, and what leads to it is the alias `u`. -/
theorem clashing_reached_by_alias :
    ∃ index, UnitIndex.ofTexts clashingProject clashingLibrary = .ok index ∧
      Reached index (ofIndex index) ∧ (∀ name ∈ [['m']], (index.lookup? name).isSome) ∧
      index.Shadowed (.ofText .library "v/u" ['x'] none) ∧
      ∃ u ∈ clashingUnits, ∃ edge ∈ u.imports, ∃ found,
        index.targetName? u.name edge.specifier = some found ∧
        index.aliases.get? found = some "v/u".toList ∧ found ≠ "v/u".toList := by
  have hindex := UnitIndex.ofTexts_eq clashingProject clashingLibrary
  have hshadowed : (UnitIndex.overTexts clashingProject clashingLibrary).Shadowed
      (.ofText .library "v/u" ['x'] none) := ⟨rfl, by decide⟩
  refine ⟨_, hindex, .new, clashing_known, hshadowed, ?_⟩
  obtain ⟨bundling, -, hbundles⟩ := bundleAll_repeats_shadowed_only hindex .new clashing_known
  obtain ⟨entry, bundle, hlookup, -, -, -, -, hreached⟩ := hbundles ['m'] List.mem_cons_self
  have hentry : entry = clashingEntry := Option.some.inj (hlookup.symm.trans lookup?_clashing)
  subst hentry
  rw [inlineOrder_clashing] at hreached
  obtain ⟨halias, hbrought⟩ := hreached _ List.mem_cons_self hshadowed
  rcases hbrought with hsame | ⟨u, hu, edge, hedge, found, hfound, hlookup⟩
  · exact absurd hsame (by decide)
  · exact ⟨u, hu, edge, hedge, found, hfound, halias found hlookup⟩

end Bundler

end SolidityBundler
