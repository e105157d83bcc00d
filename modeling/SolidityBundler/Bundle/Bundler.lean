/-
The state of a bundler.

A bundler works on one index and remembers what it has done: how each specifier of each
unit was resolved, which cycles it has reported, and the text each unit is inlined with.  What
it remembers only saves work and repetition: a resolution that was recorded is given again,
a problem is reported the first time it is met.

Each operation returns its answer together with the new state.
-/
import SolidityBundler.Bundle.Finding
import SolidityBundler.Bundle.Layout
import SolidityBundler.Bundle.Resolution
import SolidityBundler.Log

namespace SolidityBundler

/-- An index and what was done on it so far. -/
structure Bundler where
  index : UnitIndex
  /-- Every problem met, oldest first. -/
  findings : List Finding := []
  /-- The name found for each importing unit and specifier that was tried. -/
  resolutions : Table (UnitKey × Text) (Option Text) := .empty
  /-- The members of each cycle that was reported. -/
  reportedCycles : List (List UnitKey) := []
  /-- The text of units whose inlined statements are commented out. -/
  inlinedTexts : Table UnitKey Text := .empty
  log : List Log.Entry := []

namespace Bundler

def ofIndex (index : UnitIndex) : Bundler := { index }

def tell (b : Bundler) (entry : Log.Entry) : Bundler := { b with log := b.log ++ [entry] }

def report (b : Bundler) (finding : Finding) : Bundler :=
  { b with findings := b.findings ++ [finding] }

/-! ### Resolving a statement -/

def remember (b : Bundler) (importer : UnitKey) (specifier : Text) (name : Option Text) : Bundler :=
  { b with resolutions := b.resolutions.insert (importer, specifier) name }

def resolvedMessage (importer : SourceUnit) (edge : ImportEdge) (target : SourceUnit) : Text :=
  "Resolved '" ++ edge.specifier ++ "' in '" ++ importer.name ++ "' to '" ++ target.name ++ "'"

def resolveNew (b : Bundler) (importer : SourceUnit) (edge : ImportEdge) :
    Option SourceUnit × Bundler :=
  let name := b.index.targetName? importer.name edge.specifier
  let b := b.remember importer.key edge.specifier name
  match name.bind b.index.lookup? with
  | some target => (some target, b.tell (.debug (resolvedMessage importer edge target)))
  | none => (none, b.report (.unresolved importer edge))

/-- The unit that a statement refers to.  The first failure of a specifier in a unit is
reported; a specifier that was tried before gives the recorded answer. -/
def resolve (b : Bundler) (importer : SourceUnit) (edge : ImportEdge) :
    Option SourceUnit × Bundler :=
  match b.resolutions.get? (importer.key, edge.specifier) with
  | some name => (name.bind b.index.lookup?, b)
  | none => b.resolveNew importer edge

theorem resolve_index (b : Bundler) (importer : SourceUnit) (edge : ImportEdge) :
    (b.resolve importer edge).2.index = b.index := by
  unfold resolve
  split
  · rfl
  · unfold resolveNew
    simp only
    split <;> rfl

theorem mem_units_of_resolve {b : Bundler} {importer target : SourceUnit} {edge : ImportEdge}
    (h : (b.resolve importer edge).1 = some target) : target ∈ b.index.units := by
  have of_bind : ∀ {index : UnitIndex} {name : Option Text},
      name.bind index.lookup? = some target → target ∈ index.units := by
    intro index name hname
    obtain ⟨name, -, hlookup⟩ := Option.bind_eq_some_iff.1 hname
    exact UnitIndex.mem_units_of_lookup? hlookup
  unfold resolve at h
  split at h
  · exact of_bind h
  · unfold resolveNew at h
    simp only at h
    split at h
    · next hfound =>
        obtain rfl := Option.some.inj h
        exact of_bind hfound
    · simp at h

/-! ### Reporting a cycle -/

def sameMembers (keys others : List UnitKey) : Bool :=
  keys.all others.contains && others.all keys.contains

/-- Reports a cycle unless one with the same members was reported before. -/
def reportCycle (b : Bundler) (members : List SourceUnit) (edge : ImportEdge) : Bundler :=
  let keys := members.map SourceUnit.key
  if b.reportedCycles.any (sameMembers keys) then b
  else { b with reportedCycles := b.reportedCycles ++ [keys] }.report (.cycle members edge)

theorem reportCycle_index (b : Bundler) (members : List SourceUnit) (edge : ImportEdge) :
    (b.reportCycle members edge).index = b.index := by
  unfold reportCycle
  simp only
  split <;> rfl

/-! ### The text of a unit -/

/-- The statements among `edges` that refer to a unit. -/
def resolved (b : Bundler) (unit : SourceUnit) : List ImportEdge → List ImportEdge × Bundler
  | [] => ([], b)
  | edge :: edges =>
      let (target, b) := b.resolve unit edge
      let (rest, b) := b.resolved unit edges
      (if target.isSome then edge :: rest else rest, b)

/-- The text of a unit with every statement that refers to a unit commented out. -/
def inlinedText (b : Bundler) (unit : SourceUnit) : Text × Bundler :=
  match b.inlinedTexts.get? unit.key with
  | some text => (text, b)
  | none =>
      let (edges, b) := b.resolved unit unit.imports
      let text := commentOut unit.text edges
      (text, { b with inlinedTexts := b.inlinedTexts.insert unit.key text })

def sections (b : Bundler) : List SourceUnit → List Section × Bundler
  | [] => ([], b)
  | unit :: units =>
      let (text, b) := b.inlinedText unit
      let (rest, b) := b.sections units
      ({ unit := unit.name, body := Text.closeLine text } :: rest, b)

end Bundler

end SolidityBundler
