/-
A specifier is tried under several names.

The three ways in which a specifier is tried are three names, some of which may be left out,
and the first of them that the index knows is taken.  Which names are tried depends on the
importer and the specifier alone, so two indexes that know the same of these names, and under
the same unit, resolve the specifier alike.
-/
import SolidityBundler.Bundle.Resolution

namespace SolidityBundler

/-- The names that a specifier is tried as, in order. -/
def candidateNames (importer specifier : Text) : List Text :=
  let relative := relativeName importer specifier
  let stripped := SlashPath.dropRelative specifier
  specifier ::
    ((if SlashPath.isRelative specifier && !leavesRoot relative then [relative] else []) ++
      (if !stripped.isEmpty && stripped != specifier then [stripped] else []))

namespace UnitIndex

/-- **A specifier refers to what the first known name stands for.** -/
theorem targetName?_eq_find? (index : UnitIndex) (importer specifier : Text) :
    index.targetName? importer specifier
      = (candidateNames importer specifier).find? index.contains := by
  have hrelative : ∀ p : Bool, ∀ name : Text,
      (if p then [name] else []).find? index.contains
        = if p && index.contains name then some name else none := by
    intro p name
    cases p <;> cases h : index.contains name <;> simp [h]
  unfold targetName? candidateNames
  simp only
  by_cases hexact : index.contains specifier = true
  · rw [if_pos hexact, List.find?_cons_of_pos hexact]
  · rw [if_neg hexact, List.find?_cons_of_neg hexact, List.find?_append, hrelative, hrelative]
    unfold relativeName? strippedName?
    by_cases hrel : SlashPath.isRelative specifier = true
    · simp [hrel]
    · simp [hrel]

theorem contains_eq (index : UnitIndex) (name : Text) :
    index.contains name = (index.lookup? name).isSome := by
  rw [contains, lookup?, Option.isSome_map]

/-- An index that knows no more names than another one, and the unit that the other one finds
under its name, resolves to the same name. -/
private theorem find?_contains_eq {small full : UnitIndex} {names : List Text}
    (hmiss : ∀ name, full.lookup? name = none → small.lookup? name = none)
    (hhit : ∀ name unit, names.find? full.contains = some name →
      full.lookup? name = some unit → small.lookup? name = some unit) :
    names.find? small.contains = names.find? full.contains := by
  induction names with
  | nil => rfl
  | cons name rest ih =>
      cases hfull : full.lookup? name with
      | none =>
          have hname : ¬ full.contains name = true := by
            rw [contains_eq, hfull]
            simp
          have hname' : ¬ small.contains name = true := by
            rw [contains_eq, hmiss name hfull]
            simp
          rw [List.find?_cons_of_neg hname, List.find?_cons_of_neg hname']
          refine ih fun found unit hfound => hhit found unit ?_
          rw [List.find?_cons_of_neg hname, hfound]
      | some unit =>
          have hname : full.contains name = true := by rw [contains_eq, hfull]; rfl
          have hname' : small.contains name = true := by
            rw [contains_eq, hhit name unit (List.find?_cons_of_pos hname) hfull]
            rfl
          rw [List.find?_cons_of_pos hname, List.find?_cons_of_pos hname']

/-- Two indexes give a specifier the same name and the same unit. -/
def Agree (small full : UnitIndex) (importer specifier : Text) : Prop :=
  small.targetName? importer specifier = full.targetName? importer specifier ∧
    small.target? importer specifier = full.target? importer specifier

/-- **Where the smaller index keeps the target, the two agree.** -/
theorem agree_of_kept {small full : UnitIndex} {importer specifier : Text}
    (hmiss : ∀ name, full.lookup? name = none → small.lookup? name = none)
    (hhit : ∀ name unit, full.target? importer specifier = some unit →
      full.lookup? name = some unit → small.lookup? name = some unit) :
    Agree small full importer specifier := by
  have hname : small.targetName? importer specifier = full.targetName? importer specifier := by
    rw [targetName?_eq_find?, targetName?_eq_find?]
    refine find?_contains_eq hmiss fun name unit hfound hlookup => hhit name unit ?_ hlookup
    rw [target?, targetName?_eq_find?, hfound]
    exact hlookup
  refine ⟨hname, ?_⟩
  rw [target?, hname, target?]
  cases hfound : full.targetName? importer specifier with
  | none => rfl
  | some name =>
      rw [Option.bind_some, Option.bind_some]
      cases hlookup : full.lookup? name with
      | none => exact hmiss name hlookup
      | some unit =>
          refine hhit name unit ?_ hlookup
          rw [target?, hfound]
          exact hlookup

end UnitIndex

end SolidityBundler
