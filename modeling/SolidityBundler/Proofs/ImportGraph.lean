/-
The graph of imports.

The units of an index make a graph: a unit leads to every unit that one of its statements
refers to.  What bundling does is said in terms of this graph, of the units that can be
reached from an entry and of the cycles among them.

The program tells units apart by origin and name alone.  `WellKeyed` is what makes that
harmless: no two units of the index share both.  An index over texts and an index over
files are well keyed whatever the texts, the files and the aliases are, because a unit is
stored under its own name and the two tables hold units of different origin.
-/
import Mathlib.Data.List.Chain
import Mathlib.Logic.Relation
import SolidityBundler.Bundle.Resolution
import SolidityBundler.File.Source
import SolidityBundler.Proofs.Except
import SolidityBundler.Proofs.Table

namespace SolidityBundler

namespace UnitIndex

/-- Every unit is stored under its own name, and origin and name tell the units apart. -/
structure WellKeyed (index : UnitIndex) : Prop where
  project : ∀ name unit, index.project.get? name = some unit → unit.name = name
  library : ∀ name unit, index.library.get? name = some unit → unit.name = name
  identified : ∀ u ∈ index.units, ∀ v ∈ index.units, u.key = v.key → u = v

variable {index : UnitIndex}

/-- A unit of the index stands in one of the two tables. -/
theorem get?_of_mem_units {unit : SourceUnit} (h : unit ∈ index.units) :
    (∃ name, index.project.get? name = some unit) ∨
      (∃ name, index.library.get? name = some unit) := by
  rcases List.mem_append.1 h with hproject | hlibrary
  · exact Or.inl (Table.exists_get?_of_mem_values hproject)
  · exact Or.inr (Table.exists_get?_of_mem_values hlibrary)

/-- A name stands for a unit of the project, or for what the library holds under the name that it
is an alias of, if it is one. -/
theorem lookup?_eq_or (index : UnitIndex) (name : Text) :
    index.lookup? name = (index.project.get? name).or
      (index.library.get? ((index.aliases.get? name).getD name)) := by
  rw [lookup?, lookupWithTier?]
  cases index.project.get? name with
  | some unit => rfl
  | none =>
      cases index.aliases.get? name with
      | some target => simp [Function.comp_def]
      | none => simp [Function.comp_def]

theorem lookup?_of_get?_project {name : Text} {entry : SourceUnit}
    (h : index.project.get? name = some entry) : index.lookup? name = some entry := by
  rw [lookup?_eq_or, h, Option.some_or]

theorem isSome_lookup?_of_mem_project {name : Text} (h : name ∈ index.project.keys) :
    (index.lookup? name).isSome := by
  obtain ⟨entry, hentry⟩ := Table.mem_keys_iff.1 h
  rw [lookup?_of_get?_project hentry]
  rfl

/-- Units of the project are known under their own names. -/
theorem WellKeyed.lookup?_name (hkeyed : index.WellKeyed) {unit : SourceUnit}
    (h : unit ∈ index.project.values) :
    unit.name ∈ index.project.keys ∧ index.lookup? unit.name = some unit := by
  obtain ⟨name, hget⟩ := Table.exists_get?_of_mem_values h
  obtain rfl := hkeyed.project name unit hget
  exact ⟨Table.mem_keys_iff.2 ⟨unit, hget⟩, lookup?_of_get?_project hget⟩

/-- Every unit stands in the table of its origin, under its own name. -/
structure Filed (index : UnitIndex) : Prop where
  project : ∀ name unit, index.project.get? name = some unit →
    unit.key = { origin := .project, name }
  library : ∀ name unit, index.library.get? name = some unit →
    unit.key = { origin := .library, name }

/-- Units filed by origin and name can be told apart. -/
theorem Filed.wellKeyed (h : index.Filed) : index.WellKeyed where
  project := fun name unit hget => congrArg UnitKey.name (h.project name unit hget)
  library := fun name unit hget => congrArg UnitKey.name (h.library name unit hget)
  identified := by
    intro u hu v hv hkey
    rcases get?_of_mem_units hu with ⟨n, hn⟩ | ⟨n, hn⟩ <;>
      rcases get?_of_mem_units hv with ⟨m, hm⟩ | ⟨m, hm⟩
    · rw [h.project n u hn, h.project m v hm, UnitKey.mk.injEq] at hkey
      rw [hkey.2, hm] at hn
      exact (Option.some.inj hn).symm
    · rw [h.project n u hn, h.library m v hm, UnitKey.mk.injEq] at hkey
      exact absurd hkey.1 (by decide)
    · rw [h.library n u hn, h.project m v hm, UnitKey.mk.injEq] at hkey
      exact absurd hkey.1 (by decide)
    · rw [h.library n u hn, h.library m v hm, UnitKey.mk.injEq] at hkey
      rw [hkey.2, hm] at hn
      exact (Option.some.inj hn).symm

theorem key_of_get?_unitsOf {origin : Origin} {texts : Table Text Text} {name : Text}
    {unit : SourceUnit} (h : (unitsOf origin texts).get? name = some unit) :
    unit.key = { origin, name } := by
  rw [unitsOf, Table.get?_mapValues, Option.map_eq_some_iff] at h
  obtain ⟨text, -, rfl⟩ := h
  rfl

theorem filed_unitsOf (project library : Table Text Text) (aliases : Table Text Text) :
    Filed {
      project := unitsOf .project project
      library := unitsOf .library library
      aliases } :=
  ⟨fun _ _ => key_of_get?_unitsOf, fun _ _ => key_of_get?_unitsOf⟩

/-- An index whose units hold texts at hand is well keyed, with any aliases. -/
theorem wellKeyed_unitsOf (project library : Table Text Text) (aliases : Table Text Text) :
    WellKeyed {
      project := unitsOf .project project
      library := unitsOf .library library
      aliases } :=
  (filed_unitsOf project library aliases).wellKeyed

theorem filed_ofTexts {project library : Table Text Text}
    (h : ofTexts project library = .ok index) : index.Filed := by
  unfold ofTexts ofTiers at h
  split at h
  · simp at h
  · rw [← Except.ok.inj h]
    exact filed_unitsOf project library _

theorem wellKeyed_ofTexts {project library : Table Text Text}
    (h : ofTexts project library = .ok index) : index.WellKeyed :=
  (filed_ofTexts h).wellKeyed

end UnitIndex

namespace FileTree

variable {tree : FileTree} {origin : Origin} {sources : Table Text TreePath}
  {units : Table Text SourceUnit} {name : Text} {unit : SourceUnit}

private theorem key_of_load {path : TreePath} (h : tree.load origin name path = .ok unit) :
    unit.key = { origin, name } := by
  obtain ⟨bytes, -, h⟩ := exists_of_bind_eq_ok h
  obtain ⟨text, -, h⟩ := exists_of_bind_eq_ok h
  rw [← Except.ok.inj h]
  rfl

/-- A unit among those loaded was read from the file of its name. -/
theorem exists_load_of_get? (h : tree.loadAll origin sources = .ok units)
    (hget : units.get? name = some unit) :
    ∃ path, (name, path) ∈ sources.entries ∧ tree.load origin name path = .ok unit := by
  obtain ⟨pairs, hpairs, h⟩ := exists_of_bind_eq_ok h
  obtain rfl := Except.ok.inj h
  obtain ⟨⟨name', path⟩, hmem, hentry⟩ :=
    exists_mem_of_mapM hpairs _ (Table.mem_of_get?_ofList hget)
  obtain ⟨found, hload, hpair⟩ := exists_of_bind_eq_ok hentry
  obtain ⟨rfl, rfl⟩ := Prod.mk.inj (Except.ok.inj hpair)
  exact ⟨path, hmem, hload⟩

private theorem key_of_get?_loadAll (h : tree.loadAll origin sources = .ok units)
    (hget : units.get? name = some unit) : unit.key = { origin, name } := by
  obtain ⟨path, -, hload⟩ := exists_load_of_get? h hget
  exact key_of_load hload

end FileTree

namespace UnitIndex

variable {index : UnitIndex}

theorem filed_ofFiles {tree : FileTree} {project library : Table Text TreePath}
    (h : ofFiles tree project library = .ok index) : index.Filed := by
  obtain ⟨units, hproject, h⟩ := exists_of_bind_eq_ok h
  obtain ⟨others, hlibrary, h⟩ := exists_of_bind_eq_ok h
  rw [← Except.ok.inj h]
  exact ⟨fun _ _ => FileTree.key_of_get?_loadAll hproject,
    fun _ _ => FileTree.key_of_get?_loadAll hlibrary⟩

/-! ### Edges and paths -/

/-- A statement of `u` refers to `v`. -/
def Imports (index : UnitIndex) (u v : SourceUnit) : Prop :=
  ∃ edge ∈ u.imports, index.target? u.name edge.specifier = some v

/-- `v` is `u` itself, or what `u` imports directly or through others. -/
abbrev Reaches (index : UnitIndex) : SourceUnit → SourceUnit → Prop :=
  Relation.ReflTransGen index.Imports

theorem mem_units_of_target? {importer specifier : Text} {unit : SourceUnit}
    (h : index.target? importer specifier = some unit) : unit ∈ index.units := by
  obtain ⟨name, -, hlookup⟩ := Option.bind_eq_some_iff.1 h
  exact mem_units_of_lookup? hlookup

theorem Imports.mem_units {u v : SourceUnit} (h : index.Imports u v) : v ∈ index.units := by
  obtain ⟨edge, -, htarget⟩ := h
  exact mem_units_of_target? htarget

theorem Reaches.mem_units {u v : SourceUnit} (h : index.Reaches u v) (hu : u ∈ index.units) :
    v ∈ index.units := by
  rcases Relation.ReflTransGen.cases_tail h with rfl | ⟨w, -, hstep⟩
  · exact hu
  · exact hstep.mem_units

/-! ### Cycles

A cycle is reported as a list of units and one statement: each unit imports the next one,
and the statement, which belongs to the last, leads back to the first.
-/

/-- The members import each other in a row, and `edge` leads from the last to the first. -/
structure ClosedBy (index : UnitIndex) (members : List SourceUnit) (edge : ImportEdge) : Prop where
  distinct : (members.map SourceUnit.key).Nodup
  chain : members.IsChain index.Imports
  closing : ∃ first last, members.head? = some first ∧ members.getLast? = some last ∧
    edge ∈ last.imports ∧ index.target? last.name edge.specifier = some first

theorem reaches_of_chain {first : SourceUnit} {members : List SourceUnit}
    (hchain : members.IsChain index.Imports) (hfirst : members.head? = some first) :
    ∀ m ∈ members, index.Reaches first m := by
  induction members generalizing first with
  | nil => simp at hfirst
  | cons unit rest ih =>
      rw [List.head?_cons, Option.some.injEq] at hfirst
      subst hfirst
      intro m hm
      rcases List.mem_cons.1 hm with rfl | hm
      · exact Relation.ReflTransGen.refl
      · cases rest with
        | nil => simp at hm
        | cons next rest =>
            rw [List.isChain_cons_cons] at hchain
            exact Relation.ReflTransGen.head hchain.1 (ih hchain.2 rfl m hm)

theorem ClosedBy.mem_units {members : List SourceUnit} {edge : ImportEdge}
    (h : index.ClosedBy members edge) : ∀ m ∈ members, m ∈ index.units := by
  obtain ⟨first, last, hfirst, -, -, htarget⟩ := h.closing
  intro m hm
  exact (reaches_of_chain h.chain hfirst m hm).mem_units (mem_units_of_target? htarget)

/-- The first member of a cycle comes back to itself. -/
theorem ClosedBy.exists_cycle {members : List SourceUnit} {edge : ImportEdge}
    (h : index.ClosedBy members edge) :
    ∃ first ∈ members, Relation.TransGen index.Imports first first := by
  obtain ⟨first, last, hfirst, hlast, hedge, htarget⟩ := h.closing
  have hreach : index.Reaches first last :=
    reaches_of_chain h.chain hfirst last (List.mem_of_getLast? hlast)
  exact ⟨first, List.mem_of_head? hfirst, Relation.TransGen.tail' hreach ⟨edge, hedge, htarget⟩⟩

end UnitIndex

end SolidityBundler
