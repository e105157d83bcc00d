/-
What a listing says of the units that an entry inlines.

A listing has a line for each inlined unit, in the order in which they are inlined.  The line gives
the name of the unit and the tiers that know this name, the first one in front.  It is made from
the name alone.  Names tell units apart within the project and within the library, but a unit of
each may have one name, and then the line for either of them says `project` first.

So a line is right about where its unit comes from unless the unit is a library unit that a project
unit shadows.  Nothing that asks for such a unit by its own name gets it; it is inlined for an alias
that an inlined unit imports.
-/
import SolidityBundler.CommandLine.Program
import SolidityBundler.Proofs.Build.Sources
import SolidityBundler.Proofs.Shadowing

namespace SolidityBundler

namespace UnitIndex

variable {index : UnitIndex} {unit : SourceUnit} {name : Text}

/-! ### The first tier of a name -/

theorem head?_tiersOf_eq_project_iff :
    (index.tiersOf name).head? = some .project ↔ index.project.contains name = true := by
  rw [tiersOf, Tier.order, List.filter_cons]
  by_cases hproject : index.provides name .project = true
  · rw [if_pos hproject]
    exact iff_of_true rfl hproject
  · rw [if_neg hproject]
    refine iff_of_false (fun hhead => ?_) hproject
    have hmem := (List.mem_filter.1 (List.mem_of_head? hhead)).1
    exact absurd hmem (by decide)

private theorem Filed.provides_name (hfiled : index.Filed) (hunit : unit ∈ index.units) :
    (unit.origin = .project ∧ index.provides unit.name .project = true) ∨
      (unit.origin = .library ∧ index.provides unit.name .library = true) := by
  rcases get?_of_mem_units hunit with ⟨name, hget⟩ | ⟨name, hget⟩
  · have hkey := hfiled.project _ _ hget
    have hname : unit.name = name := congrArg UnitKey.name hkey
    refine Or.inl ⟨congrArg UnitKey.origin hkey, ?_⟩
    rw [provides, Table.contains, hname, hget]
    rfl
  · have hkey := hfiled.library _ _ hget
    have hname : unit.name = name := congrArg UnitKey.name hkey
    refine Or.inr ⟨congrArg UnitKey.origin hkey, ?_⟩
    rw [provides, Table.contains, hname, hget]
    rfl

private theorem Filed.tiersOf_ne_nil (hfiled : index.Filed) (hunit : unit ∈ index.units) :
    index.tiersOf unit.name ≠ [] := by
  rcases hfiled.provides_name hunit with ⟨-, htier⟩ | ⟨-, htier⟩
  · exact List.ne_nil_of_mem (List.mem_filter.2 ⟨by decide, htier⟩)
  · exact List.ne_nil_of_mem (List.mem_filter.2 ⟨by decide, htier⟩)

/-- **The first tier of its name tells where a unit comes from, unless it is shadowed.** -/
theorem Filed.first_tier_iff (hfiled : index.Filed) (hunit : unit ∈ index.units) :
    ((index.tiersOf unit.name).head? = some .project ↔ unit.origin = .project) ↔
      ¬ index.Shadowed unit := by
  rw [head?_tiersOf_eq_project_iff, Shadowed]
  rcases hfiled.provides_name hunit with ⟨horigin, htier⟩ | ⟨horigin, -⟩
  · have hcontains : index.project.contains unit.name = true := htier
    simp [horigin, hcontains]
  · simp [horigin]

end UnitIndex

/-! ### Listings -/

namespace CommandLine

variable {settings : Settings} {tree : FileTree} {index : UnitIndex} {entry : Text}

/-- What a line says of the tiers behind the first one. -/
def shadowedPart (tiers : List Tier) : Text :=
  if tiers.isEmpty then [] else ", shadows " ++ Text.join ", " (tiers.map Tier.label)

private theorem listingLine_eq {name : Text} {tier : Tier} {others : List Tier}
    (h : index.tiersOf name = tier :: others) :
    listingLine index name = name ++ "  [" ++ tier.label ++ shadowedPart others ++ "]" := by
  unfold listingLine
  rw [h]
  rfl

private theorem contains_of_entryName? {name : Text}
    (h : entryName? settings index entry = some name) : index.project.contains name = true := by
  unfold entryName? at h
  split at h
  · next hentry =>
      obtain rfl := Option.some.inj h
      exact hentry
  · exact (Option.filter_eq_some_iff.1 h).2

theorem units_of_bundleAll (hfiled : index.Filed) {unit : SourceUnit}
    (hunit : index.project.get? unit.name = some unit) :
    ∃ bundling, ((Bundler.ofIndex index).bundleAll [unit.name]).1 = .ok bundling ∧
      (bundling.bundles.get? unit.name).elim [] Bundle.units
        = (index.inlineOrder unit).map SourceUnit.name := by
  have hlookup := UnitIndex.lookup?_of_get?_project hunit
  have hknown : ∀ name ∈ [unit.name], (index.lookup? name).isSome := by
    rw [List.forall_mem_singleton, hlookup]
    rfl
  obtain ⟨bundling, hok, -, hbundles, -⟩ :=
    (Bundler.sound_ofIndex index).bundleAll_ok hfiled.wellKeyed hknown
  obtain ⟨found, -, hfound, hget⟩ := hbundles _ List.mem_cons_self
  obtain rfl : unit = found := Option.some.inj (hlookup.symm.trans hfound)
  refine ⟨bundling, hok, ?_⟩
  rw [hget]
  exact index.bundleOf_units unit

/-- A listing is one of a project unit, with a line for each name that it inlines. -/
theorem of_output_runImports (h : (runImports settings entry tree).output ≠ []) :
    ∃ index log, ∃ unit : SourceUnit, Build.discover settings tree = (.ok index, log) ∧
      index.project.get? unit.name = some unit ∧
      entryName? settings index entry = some unit.name ∧
      (runImports settings entry tree).output
        = ((index.inlineOrder unit).map SourceUnit.name).map (listingLine index) := by
  cases hdiscovered : Build.discover settings tree with
  | mk result log =>
      unfold runImports at h ⊢
      rw [hdiscovered] at h ⊢
      cases result with
      | error e => exact absurd rfl h
      | ok index =>
          dsimp only at h ⊢
          cases hentry : entryName? settings index entry with
          | none =>
              rw [hentry] at h
              exact absurd rfl h
          | some name =>
              have hfiled := Build.filed_of_discover hdiscovered
              obtain ⟨unit, hunit⟩ := Option.isSome_iff_exists.1 (contains_of_entryName? hentry)
              obtain rfl : unit.name = name := congrArg UnitKey.name (hfiled.project _ _ hunit)
              obtain ⟨bundling, hok, hunits⟩ := units_of_bundleAll hfiled hunit
              refine ⟨index, log, unit, rfl, hunit, hentry, ?_⟩
              rw [hentry] at h
              dsimp only at h ⊢
              rw [hok, Except.toOption, Option.getD_some, hunits] at h ⊢
              split at h
              · exact absurd rfl h
              · rfl

/-- **What a listing says.**  It is one of a project unit and has a line for each unit that this one
inlines, in that order.  The line gives the name of the unit and the tiers of the name, and the
first tier is right about where the unit comes from unless the unit is shadowed.  A shadowed unit
is inlined for an alias that an inlined unit imports, and not for its own name. -/
theorem runImports_tells_first_tier (settings : Settings) (entry : Text) (tree : FileTree)
    (hprints : (runImports settings entry tree).output ≠ []) :
    ∃ index log, ∃ unit : SourceUnit, Build.discover settings tree = (.ok index, log) ∧
      index.project.get? unit.name = some unit ∧
      entryName? settings index entry = some unit.name ∧
      (runImports settings entry tree).output.length = (index.inlineOrder unit).length ∧
      ∀ (i : Nat) (u : SourceUnit), (index.inlineOrder unit)[i]? = some u →
        ∃ tier others, index.tiersOf u.name = tier :: others ∧
          (runImports settings entry tree).output[i]?
            = some (u.name ++ "  [" ++ tier.label ++ shadowedPart others ++ "]") ∧
          ((tier = .project ↔ u.origin = .project) ↔ ¬ index.Shadowed u) ∧
          (index.Shadowed u → ∃ importer ∈ index.inlineOrder unit, ∃ edge ∈ importer.imports,
            ∃ name, index.targetName? importer.name edge.specifier = some name ∧
              index.aliases.get? name = some u.name ∧ name ≠ u.name) := by
  obtain ⟨index, log, unit, hdiscovered, hunit, hentry, houtput⟩ := of_output_runImports hprints
  have hfiled := Build.filed_of_discover hdiscovered
  have hmem : unit ∈ index.units := List.mem_append_left _ (Table.mem_values_of_get? hunit)
  have horder := UnitIndex.mem_inlineOrder_iff hfiled.wellKeyed hmem
  refine ⟨index, log, unit, hdiscovered, hunit, hentry, ?_, ?_⟩
  · rw [houtput, List.length_map, List.length_map]
  · intro i u hu
    have hinlined := List.mem_of_getElem? hu
    have hknown := Bundler.mem_units_of_mem_inlineOrder hfiled.wellKeyed hmem hinlined
    obtain ⟨tier, others, htiers⟩ := List.exists_cons_of_ne_nil (hfiled.tiersOf_ne_nil hknown)
    refine ⟨tier, others, htiers, ?_, ?_, ?_⟩
    · rw [houtput, List.getElem?_map, List.getElem?_map, hu]
      exact congrArg some (listingLine_eq htiers)
    · have hfirst := hfiled.first_tier_iff hknown
      rw [htiers, List.head?_cons, Option.some.injEq] at hfirst
      exact hfirst
    · intro hshadowed
      rcases Relation.ReflTransGen.cases_tail ((horder u).1 hinlined) with hsame | hlast
      · -- The unit itself is one of the project.
        have hkey : unit.origin = .project :=
          congrArg UnitKey.origin (hfiled.project _ _ hunit)
        rw [← hsame, hshadowed.1] at hkey
        cases hkey
      · obtain ⟨importer, hreach, edge, hedge, htarget⟩ := hlast
        obtain ⟨name, hname, hlookup⟩ := Option.bind_eq_some_iff.1 htarget
        obtain ⟨halias, hne⟩ := hfiled.get?_aliases_of_shadowed hshadowed hlookup
        exact ⟨importer, (horder importer).2 hreach, edge, hedge, name, hname, halias, hne⟩

/-- A unit that imports `u.sol`, a library that has it as `v/u.sol`, and a project unit of that
name. -/
def shadowedTree : FileTree :=
  (((FileTree.empty []).place (.ofText "contracts/m.sol")
      (.file (Utf8.encode "import \"u.sol\";"))).place
    (.ofText "contracts/v/u.sol") (.file [])).place
    (.ofText "node_modules/v/u.sol") (.file [])

private theorem output_shadowedTree : (runImports {} "m.sol" shadowedTree).output
    = ["v/u.sol  [project, shadows library]".toList, "m.sol  [project]".toList] := by
  decide +kernel

private theorem shadowedTree_prints : (runImports {} "m.sol" shadowedTree).output ≠ [] := by
  rw [output_shadowedTree]
  exact List.cons_ne_nil _ _

/-- Each of its two lines is right about its unit unless that one is shadowed. -/
theorem shadowedTree_lists : (runImports {} "m.sol" shadowedTree).output ≠ [] ∧
    ∃ index log, ∃ unit : SourceUnit, Build.discover {} shadowedTree = (.ok index, log) ∧
      (index.inlineOrder unit).length = 2 ∧ ∀ u ∈ index.inlineOrder unit, ∃ tier others,
        index.tiersOf u.name = tier :: others ∧
          ((tier = .project ↔ u.origin = .project) ↔ ¬ index.Shadowed u) := by
  obtain ⟨index, log, unit, hdiscovered, -, -, hlength, hlines⟩ :=
    runImports_tells_first_tier {} "m.sol" shadowedTree shadowedTree_prints
  refine ⟨shadowedTree_prints, index, log, unit, hdiscovered, ?_, fun u hu => ?_⟩
  · rw [← hlength, output_shadowedTree]
    rfl
  · obtain ⟨i, hi⟩ := List.getElem?_of_mem hu
    obtain ⟨tier, others, htiers, -, hright, -⟩ := hlines i u hi
    exact ⟨tier, others, htiers, hright⟩

/-- The first line is that of the library unit, and it says `project` first. -/
theorem shadowedTree_misattributed :
    ∃ index log, ∃ unit u : SourceUnit, Build.discover {} shadowedTree = (.ok index, log) ∧
      index.project.get? "m.sol" = some unit ∧ (index.inlineOrder unit)[0]? = some u ∧
      u.origin = .library ∧ (index.tiersOf u.name).head? = some .project ∧
      (runImports {} "m.sol" shadowedTree).output[0]?
        = some "v/u.sol  [project, shadows library]".toList := by
  have hfirst : ((Build.discover {} shadowedTree).1.toOption.bind fun index =>
      (index.project.get? "m.sol").bind fun unit => (index.inlineOrder unit)[0]?.map fun u =>
        (u.origin, (index.tiersOf u.name).head?)) = some (.library, some .project) := by
    decide +kernel
  cases hdiscovered : Build.discover {} shadowedTree with
  | mk result log =>
      rw [hdiscovered, Option.bind_eq_some_iff] at hfirst
      obtain ⟨index, hindex, hfirst⟩ := hfirst
      obtain ⟨unit, hunit, hfirst⟩ := Option.bind_eq_some_iff.1 hfirst
      obtain ⟨u, hu, hfirst⟩ := Option.map_eq_some_iff.1 hfirst
      obtain ⟨horigin, htier⟩ := Prod.mk.inj hfirst
      cases result with
      | error e => cases hindex
      | ok found =>
          obtain rfl : found = index := Option.some.inj hindex
          refine ⟨found, log, unit, u, rfl, hunit, hu, horigin, htier, ?_⟩
          rw [output_shadowedTree]
          rfl

end CommandLine

end SolidityBundler
