/-
The index of units.

An import is looked up in three tiers: the project's own units, then the aliases of library
units, then the library units under their full names.  The first tier that knows a name
serves it and shadows the others.  An alias leads to a unit of the library, and an index
whose aliases do not is never built.

`merged` is the same index as a single table, filled from the last tier to the first.
-/
import SolidityBundler.Index.Alias
import SolidityBundler.Source.Unit

namespace SolidityBundler

inductive Tier
  | project
  | aliased
  | library
  deriving DecidableEq, Repr

def Tier.label : Tier → Text
  | .project => "project"
  | .aliased => "alias"
  | .library => "library"

/-- The tiers in the order in which they are asked. -/
def Tier.order : List Tier := [.project, .aliased, .library]

/-- Units by name, in three tiers. -/
structure UnitIndex where
  project : Table Text SourceUnit
  library : Table Text SourceUnit
  /-- Alias to the library name it stands for. -/
  aliases : Table Text Text

/-- An alias whose target is no library unit. -/
structure DanglingAlias where
  name : Text
  target : Text
  deriving DecidableEq, Repr

/-- What whoever gave the alias is told. -/
def DanglingAlias.message (dangling : DanglingAlias) : Text :=
  "Alias '" ++ dangling.name ++ "' points to unknown library unit '" ++ dangling.target ++ "'"

/-- A name that one tier serves while another has it too. -/
structure Collision where
  name : Text
  winner : Tier
  shadowed : Tier
  deriving DecidableEq, Repr

namespace UnitIndex

/-! ### Construction -/

/-- The first alias whose target is missing from the library. -/
def dangling? (library : Table Text SourceUnit) (aliases : Table Text Text) :
    Option DanglingAlias :=
  (aliases.entries.find? fun (_, target) => !library.contains target).map
    fun (name, target) => { name, target }

def ofTiers (project library : Table Text SourceUnit) (aliases : Table Text Text) :
    Except DanglingAlias UnitIndex :=
  match dangling? library aliases with
  | some dangling => .error dangling
  | none => .ok { project, library, aliases }

def unitsOf (origin : Origin) (texts : Table Text Text) : Table Text SourceUnit :=
  texts.mapValues fun name text => .ofText origin name text none

/-- The aliases of a library, as alias to owning name. -/
def namedAliases {α : Type} (library : Table Text α) : Table Text Text :=
  aliasTable (library.mapValues fun name _ => name)

def ofTexts (project library : Table Text Text) : Except DanglingAlias UnitIndex :=
  ofTiers (unitsOf .project project) (unitsOf .library library) (namedAliases library)

/-! ### Lookup -/

/-- The unit that the first tier knowing a name holds, and that tier. -/
def lookupWithTier? (index : UnitIndex) (name : Text) : Option (SourceUnit × Tier) :=
  match index.project.get? name with
  | some unit => some (unit, .project)
  | none =>
      match index.aliases.get? name with
      | some target => (index.library.get? target).map (·, .aliased)
      | none => (index.library.get? name).map (·, .library)

def lookup? (index : UnitIndex) (name : Text) : Option SourceUnit :=
  (index.lookupWithTier? name).map Prod.fst

def contains (index : UnitIndex) (name : Text) : Bool := (index.lookupWithTier? name).isSome

def provides (index : UnitIndex) (name : Text) : Tier → Bool
  | .project => index.project.contains name
  | .aliased => index.aliases.contains name
  | .library => index.library.contains name

def tiersOf (index : UnitIndex) (name : Text) : List Tier :=
  Tier.order.filter (index.provides name)

def names (index : UnitIndex) : List Text :=
  sortedDistinct (index.project.keys ++ index.aliases.keys ++ index.library.keys)

/-- The tiers behind the first one that know a name. -/
def collisionsOf (index : UnitIndex) (name : Text) : List Collision :=
  match index.tiersOf name with
  | [] => []
  | winner :: others => others.map fun shadowed => { name, winner, shadowed }

/-- Everything that is shadowed, in the order of names and tiers. -/
def collisions (index : UnitIndex) : List Collision := index.names.flatMap index.collisionsOf

/-- All units that a name can stand for. -/
def units (index : UnitIndex) : List SourceUnit := index.project.values ++ index.library.values

theorem mem_units_of_lookup? {index : UnitIndex} {name : Text} {unit : SourceUnit}
    (h : index.lookup? name = some unit) : unit ∈ index.units := by
  simp only [lookup?, lookupWithTier?, Option.map_eq_some_iff] at h
  obtain ⟨⟨found, tier⟩, hfound, rfl⟩ := h
  split at hfound
  · next hproject =>
      simp only [Option.some.injEq, Prod.mk.injEq] at hfound
      obtain ⟨rfl, -⟩ := hfound
      exact List.mem_append_left _ (Table.mem_values_of_get? hproject)
  · split at hfound <;>
    · simp only [Option.map_eq_some_iff, Prod.mk.injEq] at hfound
      obtain ⟨unit, hlibrary, rfl, -⟩ := hfound
      exact List.mem_append_right _ (Table.mem_values_of_get? hlibrary)

/-! ### The index as one table -/

/-- Adds pairs to a table, replacing what is there. -/
def overlay (table : Table Text SourceUnit) (pairs : List (Text × SourceUnit)) :
    Table Text SourceUnit :=
  pairs.foldl (fun table (name, unit) => table.insert name unit) table

/-- The library, then its aliases, then the project, in one table. -/
def merged (index : UnitIndex) : Table Text SourceUnit :=
  let aliased := index.aliases.entries.filterMap fun (name, target) =>
    (index.library.get? target).map (name, ·)
  overlay (overlay (overlay .empty index.library.entries) aliased) index.project.entries

/-! ### Leaving units out -/

/-- The index without the units of the given names.  An alias is kept when its target is, and the
suffixes of names are not claimed anew. -/
def without (index : UnitIndex) (dropped : List Text) : UnitIndex where
  project := index.project.filter fun name _ => !dropped.contains name
  library := index.library.filter fun name _ => !dropped.contains name
  aliases := index.aliases.filter fun _ target =>
    index.library.contains target && !dropped.contains target

end UnitIndex

end SolidityBundler
