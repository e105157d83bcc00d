/-
What a specifier falls back to.

A specifier that is no name of its own and has nothing at its place beside the importer is looked
up once more, without its relative segments.  All of them are taken out, also those that stand
behind an ordinary segment, and a `..` taken out there does not take the segment in front of it
along.  So `x/../M` comes to `x/M`.

Taking out only the relative segments in front gives the same name exactly if there are no others.
If there are others the two names differ, and it takes one unit to tell them apart: an index that
holds nothing but a unit of the one name answers the one fallback and not the other.  Which of the
two names will do depends on the place beside the importer, which must stay empty.
-/
import SolidityBundler.Proofs.Bundler.Kept
import SolidityBundler.Proofs.RelativeImports

namespace SolidityBundler

/-! ### Relative segments in front and behind -/

namespace SlashPath

/-- The specifier without the relative segments in front. -/
def dropLeading (specifier : Text) : Text :=
  ofSegments ((segments specifier).dropWhile isRelativeSegment)

/-- No relative segment stands behind an ordinary one. -/
def RelativeInFront (specifier : Text) : Prop :=
  ∀ segment ∈ (segments specifier).dropWhile isRelativeSegment, isRelativeSegment segment = false

theorem dropRelative_eq (specifier : Text) : dropRelative specifier
    = ofSegments (((segments specifier).dropWhile isRelativeSegment).filter
        (!isRelativeSegment ·)) := by
  have hfront : ((segments specifier).takeWhile isRelativeSegment).filter
      (!isRelativeSegment ·) = [] := by
    rw [List.filter_eq_nil_iff]
    intro segment hsegment
    simp [List.mem_takeWhile_imp hsegment]
  rw [dropRelative]
  conv_lhs => rw [← List.takeWhile_append_dropWhile (p := isRelativeSegment)
    (l := segments specifier), List.filter_append, hfront, List.nil_append]

private theorem not_relative_of_dropWhile {specifier first : Text} {rest : List Text}
    (h : (segments specifier).dropWhile isRelativeSegment = first :: rest) :
    isRelativeSegment first = false := by
  have hfirst := List.head_dropWhile_not isRelativeSegment (l := segments specifier)
    (by rw [h]; exact List.cons_ne_nil _ _)
  simpa only [h, List.head_cons] using hfirst

theorem dropRelative_eq_dropLeading {specifier : Text} (h : RelativeInFront specifier) :
    dropRelative specifier = dropLeading specifier := by
  rw [dropRelative_eq, dropLeading, List.filter_eq_self.2]
  intro segment hsegment
  simp [h segment hsegment]

/-! ### A relative segment behind an ordinary one -/

variable {specifier : Text}

theorem exists_ordinary_of_not_inFront (h : ¬ RelativeInFront specifier) :
    ∃ first rest, (segments specifier).dropWhile isRelativeSegment = first :: rest ∧
      isRelativeSegment first = false ∧ ∀ segment ∈ first :: rest, '/' ∉ segment := by
  cases hleft : (segments specifier).dropWhile isRelativeSegment with
  | nil =>
      refine absurd (fun segment hsegment => ?_) h
      rw [hleft] at hsegment
      exact absurd hsegment List.not_mem_nil
  | cons first rest =>
      refine ⟨first, rest, rfl, not_relative_of_dropWhile hleft, ?_⟩
      intro segment hsegment
      rw [← hleft] at hsegment
      exact Text.notMem_of_mem_split ((List.dropWhile_sublist _).subset hsegment)

theorem segments_dropLeading (h : ¬ RelativeInFront specifier) :
    segments (dropLeading specifier) = (segments specifier).dropWhile isRelativeSegment := by
  obtain ⟨first, rest, hleft, -, hslash⟩ := exists_ordinary_of_not_inFront h
  rw [dropLeading, hleft]
  exact segments_ofSegments (List.cons_ne_nil _ _) hslash

private theorem not_plain_dropLeading (h : ¬ RelativeInFront specifier) :
    ¬ Plain (dropLeading specifier) := by
  rw [Plain, segments_dropLeading h]
  exact h

private theorem plain_dropRelative (h : ¬ RelativeInFront specifier) :
    Plain (dropRelative specifier) := by
  obtain ⟨first, rest, hleft, hfirst, hslash⟩ := exists_ordinary_of_not_inFront h
  have hkept : segments (dropRelative specifier)
      = (first :: rest).filter (!isRelativeSegment ·) := by
    rw [dropRelative_eq, hleft]
    apply segments_ofSegments
    · rw [List.filter_cons_of_pos (by simp [hfirst])]
      exact List.cons_ne_nil _ _
    · intro segment hsegment
      exact hslash segment (List.mem_of_mem_filter hsegment)
  rw [Plain, hkept]
  intro segment hsegment
  simpa using List.of_mem_filter hsegment

private theorem not_plain_of_not_inFront (h : ¬ RelativeInFront specifier) : ¬ Plain specifier := by
  intro hplain
  exact h fun segment hsegment => hplain segment ((List.dropWhile_sublist _).subset hsegment)

private theorem dropLeading_ne_of_first (first : Text) {path : Text} {rest : List Text}
    (h : ¬ RelativeInFront specifier) (hpath : segments path = first :: rest)
    (hfirst : isRelativeSegment first = true) : dropLeading specifier ≠ path := by
  obtain ⟨first', rest', hleft, hfirst', -⟩ := exists_ordinary_of_not_inFront h
  intro hsame
  have hsegments := segments_dropLeading h
  rw [hsame, hpath, hleft, List.cons.injEq] at hsegments
  rw [← hsegments.1, hfirst] at hfirst'
  exact Bool.noConfusion hfirst'

private theorem dropLeading_ne_nil (h : ¬ RelativeInFront specifier) : dropLeading specifier ≠ [] :=
  dropLeading_ne_of_first [] h (rfl : segments [] = [[]]) rfl

private theorem dropLeading_ne_of_isRelative (h : ¬ RelativeInFront specifier)
    (hrelative : isRelative specifier = true) : dropLeading specifier ≠ specifier := by
  rw [isRelative, Bool.or_eq_true, List.isPrefixOf_iff_prefix, List.isPrefixOf_iff_prefix]
    at hrelative
  rcases hrelative with ⟨rest, hrest⟩ | ⟨rest, hrest⟩
  · exact dropLeading_ne_of_first here h (by rw [← hrest]; rfl) rfl
  · exact dropLeading_ne_of_first up h (by rw [← hrest]; rfl) rfl

end SlashPath

/-! ### The last lookup -/

namespace UnitIndex

/-- The last lookup of a specifier, of what is left of it as `name`. -/
def lookupRest? (index : UnitIndex) (specifier name : Text) : Option SourceUnit :=
  if name = [] ∨ name = specifier then none else index.lookup? name

/-- The index knows neither the specifier nor its place beside the importer. -/
def Misses (index : UnitIndex) (importer specifier : Text) : Prop :=
  index.lookup? specifier = none ∧
    (SlashPath.isRelative specifier = true → leavesRoot (relativeName importer specifier) = false →
      index.lookup? (relativeName importer specifier) = none)

/-- **What is found nowhere else is looked up without its relative segments.** -/
theorem Misses.target?_eq {index : UnitIndex} {importer specifier : Text}
    (h : index.Misses importer specifier) : index.target? importer specifier
      = index.lookupRest? specifier (SlashPath.dropRelative specifier) := by
  obtain ⟨hexact, hbeside⟩ := h
  have hrelative : (if SlashPath.isRelative specifier &&
      !leavesRoot (relativeName importer specifier) then [relativeName importer specifier]
      else []).findSome? index.lookup? = none := by
    split
    · next htried =>
        rw [Bool.and_eq_true, Bool.not_eq_true'] at htried
        rw [List.findSome?_cons, hbeside htried.1 htried.2, List.findSome?_nil]
    · rfl
  rw [target?_eq_findSome?, candidateNames, List.findSome?_cons, hexact]
  simp only
  rw [List.findSome?_append, hrelative, Option.none_or, lookupRest?]
  by_cases hempty : SlashPath.dropRelative specifier = []
  · simp [hempty]
  · by_cases hsame : SlashPath.dropRelative specifier = specifier
    · simp [hsame]
    · simp [hempty, hsame]

/-- The index of a single project unit. -/
def holding (name : Text) : UnitIndex := overTexts (.ofList [(name, [])]) .empty

private theorem lookup?_holding (name other : Text) : (holding name).lookup? other
    = if name = other then some (.ofText .project other [] none) else none := by
  have hlibrary : ∀ owner, (unitsOf .library .empty).get? owner = none := by
    intro owner
    rw [get?_unitsOf, Table.get?_empty, Option.map_none]
  rw [holding, lookup?_overTexts, hlibrary, Option.or_none, get?_unitsOf, Table.ofList,
    List.foldl_cons, List.foldl_nil, Table.get?_insert, Table.get?_empty]
  by_cases hname : name = other
  · rw [if_pos hname, if_pos hname, Option.map_some]
  · rw [if_neg hname, if_neg hname, Option.map_none]

private theorem misses_holding {name importer specifier : Text} (hspecifier : name ≠ specifier)
    (hrelative : SlashPath.isRelative specifier = true →
      leavesRoot (relativeName importer specifier) = false →
      name ≠ relativeName importer specifier) : (holding name).Misses importer specifier := by
  constructor
  · rw [lookup?_holding, if_neg hspecifier]
  · intro hrel hleaves
    rw [lookup?_holding, if_neg (hrelative hrel hleaves)]

/-- Of the two fallbacks of a specifier, an index with nothing but a unit of that name answers the
one it holds, unless it holds the place beside the importer. -/
theorem exists_misses_of_not_inFront (importer : Text) {specifier : Text}
    (h : ¬ SlashPath.RelativeInFront specifier) :
    ∃ index : UnitIndex, index.Misses importer specifier ∧
      index.lookupRest? specifier (SlashPath.dropRelative specifier)
        ≠ index.lookupRest? specifier (SlashPath.dropLeading specifier) := by
  have hplain := SlashPath.plain_dropRelative h
  have hne : SlashPath.dropRelative specifier ≠ SlashPath.dropLeading specifier := by
    intro hsame
    rw [hsame] at hplain
    exact SlashPath.not_plain_dropLeading h hplain
  have hnew : SlashPath.dropRelative specifier ≠ specifier := by
    intro hsame
    rw [hsame] at hplain
    exact SlashPath.not_plain_of_not_inFront h hplain
  have hnonempty : SlashPath.dropRelative specifier ≠ [] := by
    intro hempty
    rw [hempty] at hplain
    exact SlashPath.not_plain_of_first [] [] rfl (by simp) hplain
  by_cases hbeside : SlashPath.isRelative specifier = true ∧
      SlashPath.dropRelative specifier = relativeName importer specifier
  · obtain ⟨hrelative, hplace⟩ := hbeside
    have hspecifier := SlashPath.dropLeading_ne_of_isRelative h hrelative
    refine ⟨holding (SlashPath.dropLeading specifier), misses_holding hspecifier ?_, ?_⟩
    · intro _ _ hsame
      exact hne (hplace.trans hsame.symm)
    · rw [lookupRest?, lookupRest?, if_neg (not_or.2 ⟨hnonempty, hnew⟩),
        if_neg (not_or.2 ⟨SlashPath.dropLeading_ne_nil h, hspecifier⟩), lookup?_holding,
        lookup?_holding, if_neg (Ne.symm hne), if_pos rfl]
      simp
  · refine ⟨holding (SlashPath.dropRelative specifier), misses_holding hnew ?_, ?_⟩
    · intro hrelative _ hsame
      exact hbeside ⟨hrelative, hsame⟩
    · rw [lookupRest?, lookupRest?, if_neg (not_or.2 ⟨hnonempty, hnew⟩), lookup?_holding,
        lookup?_holding, if_pos rfl, if_neg hne, ite_self]
      simp

end UnitIndex

namespace Bundler

/-- **A specifier that is found neither as it is spelled nor beside its importer leads to what is
left of it without its relative segments, wherever they stand.**  Over all indexes that is the same
as leaving out those in front exactly if there are no others. -/
theorem resolve_falls_back (importer : SourceUnit) (edge : ImportEdge) :
    (∀ (index : UnitIndex) (calls : List Call), index.Misses importer.name edge.specifier →
      (((ofIndex index).afterAll calls).resolve importer edge).1
        = index.lookupRest? edge.specifier (SlashPath.dropRelative edge.specifier)) ∧
    ((∀ (index : UnitIndex) (calls : List Call), index.Misses importer.name edge.specifier →
      (((ofIndex index).afterAll calls).resolve importer edge).1
        = index.lookupRest? edge.specifier (SlashPath.dropLeading edge.specifier)) ↔
      SlashPath.RelativeInFront edge.specifier) := by
  have hresolve : ∀ (index : UnitIndex) (calls : List Call),
      index.Misses importer.name edge.specifier →
      (((ofIndex index).afterAll calls).resolve importer edge).1
        = index.lookupRest? edge.specifier (SlashPath.dropRelative edge.specifier) := by
    intro index calls hmisses
    rw [resolve_afterAll, hmisses.target?_eq]
  refine ⟨hresolve, ?_, ?_⟩
  · intro hleading
    by_contra hbehind
    obtain ⟨index, hmisses, hdiffer⟩ :=
      UnitIndex.exists_misses_of_not_inFront importer.name hbehind
    exact hdiffer ((hresolve index [] hmisses).symm.trans (hleading index [] hmisses))
  · intro hinFront index calls hmisses
    rw [hresolve index calls hmisses, SlashPath.dropRelative_eq_dropLeading hinFront]

/-- A unit whose import goes down into a directory and back up. -/
def detouring : SourceUnit := .ofText .project ['m'] (importOf "x/../u") none

def detourProject : Table Text Text :=
  .ofList [(detouring.name, detouring.text), ("x/u".toList, [])]

private theorem misses_detour : ∀ edge ∈ detouring.imports,
    (UnitIndex.overTexts detourProject .empty).Misses detouring.name edge.specifier := by
  unfold UnitIndex.Misses
  decide

/-- The import falls back to the file in the directory that it leaves again, also on a bundler that
has bundled the unit before. -/
theorem detour_falls_back : ∃ index, UnitIndex.ofTexts detourProject .empty = .ok index ∧
    ∀ edge ∈ detouring.imports, index.Misses detouring.name edge.specifier ∧
      (((ofIndex index).afterAll [.bundleAll [['m']]]).resolve detouring edge).1
        = some (.ofText .project "x/u" [] none) := by
  refine ⟨_, UnitIndex.ofTexts_eq _ _, fun edge hedge => ⟨misses_detour edge hedge, ?_⟩⟩
  rw [(resolve_falls_back detouring edge).1 _ _ (misses_detour edge hedge)]
  revert edge
  decide

/-- Without the relative segments in front, of which it has none, the same specifier leads
nowhere. -/
theorem detour_enters_left_directory :
    ∃ index edge, UnitIndex.ofTexts detourProject .empty = .ok index ∧
      detouring ∈ index.units ∧ detouring.imports = [edge] ∧
      index.Misses detouring.name edge.specifier ∧
      index.lookupRest? edge.specifier (SlashPath.dropLeading edge.specifier) = none ∧
      ((ofIndex index).resolve detouring edge).1 = some (.ofText .project "x/u" [] none) :=
  ⟨_, _, UnitIndex.ofTexts_eq _ _, by decide, rfl, misses_detour _ List.mem_cons_self, by decide,
    by decide⟩

end Bundler

end SolidityBundler
