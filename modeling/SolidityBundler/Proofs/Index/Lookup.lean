/-
Looking names up in an index over texts.

An index over texts is built from two tables and always comes about, since an alias leads to
the library name that owns it.  So what a name stands for can be said in terms of the two
tables: a project text, or the library text of the owner of an alias, or a library text.

From this follows what a smaller index does.  Leaving texts out never brings a unit to a name
that had none.  And a name keeps its unit as long as that unit is kept: no text that is left
out can have stood in front of it, and no alias can come to stand in front of it, because the
owner of a suffix stays the first among fewer names.
-/
import SolidityBundler.Proofs.ImportGraph
import SolidityBundler.Proofs.Index.Alias

namespace SolidityBundler.UnitIndex

variable {project library : Table Text Text}

/-- The index over texts. -/
def overTexts (project library : Table Text Text) : UnitIndex where
  project := unitsOf .project project
  library := unitsOf .library library
  aliases := namedAliases library

theorem get?_unitsOf (origin : Origin) (texts : Table Text Text) (name : Text) :
    (unitsOf origin texts).get? name
      = (texts.get? name).map fun text => .ofText origin name text none :=
  Table.get?_mapValues _ texts name

/-- **Texts always make an index.** -/
theorem ofTexts_eq (project library : Table Text Text) :
    ofTexts project library = .ok (overTexts project library) := by
  have hnone : dangling? (unitsOf .library library) (namedAliases library) = none := by
    rw [dangling?, Option.map_eq_none_iff, List.find?_eq_none]
    rintro ⟨suffix, owner⟩ hentry
    have hget := Table.find?_of_mem (namedAliases library).distinct hentry
    change (namedAliases library).get? suffix = some owner at hget
    rw [get?_namedAliases, owner?_eq_some_iff] at hget
    obtain ⟨text, htext⟩ := Table.mem_keys_iff.1 hget.2.1
    simp [Table.contains, get?_unitsOf, htext]
  rw [ofTexts, ofTiers, hnone]
  rfl

/-- What a name stands for: a project unit, or the library unit of the name that owns it as an
alias, or the library unit of that name itself. -/
theorem lookup?_overTexts (project library : Table Text Text) (name : Text) :
    (overTexts project library).lookup? name
      = ((unitsOf .project project).get? name).or
          ((unitsOf .library library).get? ((owner? library.keys name).getD name)) := by
  rw [lookup?_eq_or, overTexts, get?_namedAliases]

/-- The text of the unit is among those of the tables. -/
def Keeps (project library : Table Text Text) (unit : SourceUnit) : Prop :=
  match unit.origin with
  | .project => project.contains unit.name = true
  | .library => library.contains unit.name = true

theorem contains_unitsOf (origin : Origin) (texts : Table Text Text) (name : Text) :
    (unitsOf origin texts).contains name = texts.contains name := by
  rw [Table.contains, Table.contains, get?_unitsOf, Option.isSome_map]

private theorem contains_of_keeps_project {unit : SourceUnit} {name : Text}
    (h : Keeps project library unit) (hkey : unit.key = { origin := .project, name }) :
    (unitsOf .project project).contains name = true := by
  rw [SourceUnit.key, UnitKey.mk.injEq] at hkey
  rw [Keeps, hkey.1, hkey.2] at h
  rw [contains_unitsOf]
  exact h

private theorem contains_of_keeps_library {unit : SourceUnit} {name : Text}
    (h : Keeps project library unit) (hkey : unit.key = { origin := .library, name }) :
    (unitsOf .library library).contains name = true := by
  rw [SourceUnit.key, UnitKey.mk.injEq] at hkey
  rw [Keeps, hkey.1, hkey.2] at h
  rw [contains_unitsOf]
  exact h

/-! ### Leaving texts out -/

variable {project' library' : Table Text Text}

private theorem owner?_eq_none_of_within (h : library'.Within library) {suffix : Text}
    (hfree : suffix ∉ library.keys) (hnone : owner? library.keys suffix = none) :
    owner? library'.keys suffix = none := by
  cases howner : owner? library'.keys suffix with
  | none => rfl
  | some owner =>
      obtain ⟨-, hmem, hsuffix, -⟩ := owner?_eq_some_iff.1 howner
      obtain ⟨other, hother⟩ := exists_owner? hfree (h.mem_keys hmem) hsuffix
      rw [hother] at hnone
      simp at hnone

private theorem owner?_of_within (h : library'.Within library) {suffix owner : Text}
    (howner : owner? library.keys suffix = some owner) (hkept : owner ∈ library'.keys) :
    owner? library'.keys suffix = some owner := by
  obtain ⟨hfree, -, hsuffix, hleast⟩ := owner?_eq_some_iff.1 howner
  refine owner?_eq_some_iff.2 ⟨fun hmem => hfree (h.mem_keys hmem), hkept, hsuffix, ?_⟩
  intro other hother
  exact hleast other (h.mem_keys hother)

theorem within_unitsOf (origin : Origin) (h : project'.Within project) :
    (unitsOf origin project').Within (unitsOf origin project) := by
  intro name unit hunit
  rw [get?_unitsOf, Option.map_eq_some_iff] at hunit ⊢
  obtain ⟨text, htext, heq⟩ := hunit
  exact ⟨text, h name text htext, heq⟩

/-- A name that stands for nothing stands for nothing among fewer texts. -/
theorem lookup?_eq_none_of_within (hproject : project'.Within project)
    (hlibrary : library'.Within library) {name : Text}
    (h : (overTexts project library).lookup? name = none) :
    (overTexts project' library').lookup? name = none := by
  rw [lookup?_overTexts, Option.or_eq_none_iff] at h ⊢
  obtain ⟨hnoProject, hnoLibrary⟩ := h
  refine ⟨(within_unitsOf _ hproject).get?_eq_none hnoProject, ?_⟩
  cases howner : owner? library.keys name with
  | some owner =>
      obtain ⟨text, htext⟩ := Table.mem_keys_iff.1 (owner?_eq_some_iff.1 howner).2.1
      rw [howner, Option.getD_some, get?_unitsOf, htext] at hnoLibrary
      simp at hnoLibrary
  | none =>
      rw [howner, Option.getD_none] at hnoLibrary
      have hfree : name ∉ library.keys := by
        rw [Table.notMem_keys_iff]
        rwa [get?_unitsOf, Option.map_eq_none_iff] at hnoLibrary
      rw [owner?_eq_none_of_within hlibrary hfree howner, Option.getD_none]
      exact (within_unitsOf _ hlibrary).get?_eq_none hnoLibrary

/-- **A name keeps its unit as long as the unit's text is kept.** -/
theorem lookup?_of_within (hproject : project'.Within project)
    (hlibrary : library'.Within library) {name : Text} {unit : SourceUnit}
    (h : (overTexts project library).lookup? name = some unit)
    (hkept : Keeps project' library' unit) :
    (overTexts project' library').lookup? name = some unit := by
  rw [lookup?_overTexts] at h ⊢
  cases hunit : (unitsOf .project project).get? name with
  | some found =>
      rw [hunit, Option.some_or, Option.some.injEq] at h
      subst h
      have hcontains := contains_of_keeps_project hkept (key_of_get?_unitsOf hunit)
      rw [(within_unitsOf _ hproject).get?_eq hcontains, hunit, Option.some_or]
  | none =>
      rw [hunit, Option.none_or] at h
      rw [(within_unitsOf _ hproject).get?_eq_none hunit, Option.none_or]
      have hcontains := contains_of_keeps_library hkept (key_of_get?_unitsOf h)
      -- The unit is the library unit of this name, and its text is kept.
      have hmem : (owner? library.keys name).getD name ∈ library'.keys := by
        rw [contains_unitsOf] at hcontains
        exact Table.mem_keys_iff.2 (Option.isSome_iff_exists.1 hcontains)
      have howner : owner? library'.keys name = owner? library.keys name := by
        cases howner : owner? library.keys name with
        | some owner =>
            rw [howner, Option.getD_some] at hmem
            exact owner?_of_within hlibrary howner hmem
        | none =>
            rw [howner, Option.getD_none] at hmem
            unfold owner?
            rw [if_pos hmem]
      rw [howner, (within_unitsOf _ hlibrary).get?_eq hcontains, h]

end SolidityBundler.UnitIndex
