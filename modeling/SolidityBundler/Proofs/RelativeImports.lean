/-
Where relative imports lead.

Over plain names, that is names without empty, `.` or `..` segments, an index knows plain names
only, for an alias is the end of a library name.  A specifier that starts with `./` or `../` is
therefore never known as it is spelled, and neither is a normal path that begins with `..`.  So
such a specifier leads to the place where its walk from the importer's directory ends, if the
index knows that place, and otherwise it is looked up without its relative segments.

No alias comes in between: a name of the library is no alias, so the unit at the place is the
one that is stored under its name.
-/
import SolidityBundler.Proofs.Index.Lookup
import SolidityBundler.Proofs.InlineOrder
import SolidityBundler.Proofs.Path.Descent
import SolidityBundler.Proofs.Resolution

namespace SolidityBundler

/-! ### Plain names -/

namespace SlashPath

private theorem suffix_of_mem_properTails {α : Type} {l tail : List α} (h : tail ∈ properTails l) :
    tail ≠ [] ∧ tail <:+ l := by
  fun_induction properTails l with
  | case1 => simp at h
  | case2 => simp at h
  | case3 x y rest ih =>
      rcases List.mem_cons.1 h with rfl | h
      · exact ⟨List.cons_ne_nil _ _, List.suffix_cons _ _⟩
      · obtain ⟨hne, hsuffix⟩ := ih h
        exact ⟨hne, hsuffix.trans (List.suffix_cons _ _)⟩

private theorem Plain.of_mem_suffixes {name suffix : Text} (h : Plain name)
    (hmem : suffix ∈ suffixes name) : Plain suffix := by
  obtain ⟨tail, htail, rfl⟩ := List.mem_map.1 hmem
  obtain ⟨hne, hsuffix⟩ := suffix_of_mem_properTails htail
  have hsegs : segments (ofSegments tail) = tail :=
    segments_ofSegments hne fun segment hsegment =>
      Text.notMem_of_mem_split (hsuffix.subset hsegment)
  intro segment hsegment
  rw [hsegs] at hsegment
  exact h segment (hsuffix.subset hsegment)

/-- A path that begins with a relative segment is not plain. -/
theorem not_plain_of_first (segment : Text) (rest : List Text)
    (hrelative : isRelativeSegment segment = true) (hslash : '/' ∉ segment) :
    ¬ Plain (ofSegments (segment :: rest)) := by
  have hmem : segment ∈ segments (ofSegments (segment :: rest)) := by
    cases rest with
    | nil =>
        rw [ofSegments_singleton, segments, Text.split_of_notMem hslash]
        exact List.mem_singleton_self _
    | cons next rest =>
        rw [← List.singleton_append,
          ofSegments_append (List.cons_ne_nil _ _) (List.cons_ne_nil _ _), segments,
          Text.split_append_cons, ofSegments_singleton, Text.split_of_notMem hslash]
        exact List.mem_append_left _ (List.mem_singleton_self _)
  intro hplain
  rw [hplain segment hmem] at hrelative
  exact Bool.noConfusion hrelative

theorem not_plain_of_isRelative {specifier : Text} (h : isRelative specifier = true) :
    ¬ Plain specifier := by
  rw [isRelative, Bool.or_eq_true, List.isPrefixOf_iff_prefix, List.isPrefixOf_iff_prefix] at h
  rw [← ofSegments_segments specifier]
  rcases h with ⟨rest, rfl⟩ | ⟨rest, rfl⟩
  · exact not_plain_of_first here (segments rest) rfl (by decide)
  · exact not_plain_of_first up (segments rest) rfl (by decide)

private theorem not_plain_of_leavesRoot {path : Text} (h : leavesRoot path = true) : ¬ Plain path :=
  not_plain_of_isRelative (by rw [isRelative, Bool.or_eq_true]; exact Or.inr h)

end SlashPath

/-- Where a relative specifier leads as a name: to where its walk ends, or to no plain name. -/
theorem relativeName_eq {importer specifier : Text} (himporter : SlashPath.Plain importer)
    (hrelative : SlashPath.isRelative specifier = true) :
    (∃ place, SlashPath.walkFrom? importer specifier = some place ∧
      relativeName importer specifier = SlashPath.ofSegments place) ∨
    ((∀ place, SlashPath.walkFrom? importer specifier = some place → ¬ SlashPath.Plain
        (SlashPath.ofSegments place)) ∧
      ¬ SlashPath.Plain (relativeName importer specifier)) := by
  obtain ⟨hsegments, hhead⟩ := SlashPath.segments_join_directory himporter hrelative
  obtain ⟨hstays, hleaves⟩ := SlashPath.normalize_eq hhead
  rw [hsegments, ← SlashPath.walkFrom?_eq himporter] at hstays hleaves
  cases hwalk : SlashPath.walkFrom? importer specifier with
  | none =>
      obtain ⟨rest, hrest⟩ := hleaves hwalk
      refine Or.inr ⟨by simp, ?_⟩
      rw [relativeName, hrest]
      exact SlashPath.not_plain_of_first SlashPath.up rest rfl (by decide)
  | some place =>
      have hname := (hstays place hwalk).2
      by_cases hempty : SlashPath.ofSegments place = []
      · refine Or.inr ⟨?_, ?_⟩
        · rintro _ ⟨⟩
          rw [hempty]
          exact SlashPath.not_plain_of_first [] [] rfl (by simp)
        · rw [relativeName, hname, if_pos hempty]
          exact SlashPath.not_plain_of_first SlashPath.here [] rfl (by decide)
      · refine Or.inl ⟨place, rfl, ?_⟩
        rw [relativeName, hname, if_neg hempty]

namespace UnitIndex

variable {project library : Table Text Text}

/-- Every name of the two tables is plain. -/
def PlainNames (project library : Table Text Text) : Prop :=
  ∀ name ∈ project.keys ++ library.keys, SlashPath.Plain name

/-- Over plain names an index knows plain names only. -/
theorem plain_of_contains (hplain : PlainNames project library) {name : Text}
    (h : (overTexts project library).contains name = true) : SlashPath.Plain name := by
  rw [contains_eq, lookup?_overTexts, Option.isSome_iff_exists] at h
  obtain ⟨unit, hunit⟩ := h
  rcases Option.or_eq_some_iff.1 hunit with hproject | ⟨-, hlibrary⟩
  · rw [get?_unitsOf, Option.map_eq_some_iff] at hproject
    obtain ⟨text, htext, -⟩ := hproject
    exact hplain name (List.mem_append_left _ (Table.mem_keys_iff.2 ⟨text, htext⟩))
  · cases howner : owner? library.keys name with
    | some owner =>
        obtain ⟨-, hmem, hsuffix, -⟩ := owner?_eq_some_iff.1 howner
        exact (hplain owner (List.mem_append_right _ hmem)).of_mem_suffixes hsuffix
    | none =>
        rw [howner, Option.getD_none, get?_unitsOf, Option.map_eq_some_iff] at hlibrary
        obtain ⟨text, htext, -⟩ := hlibrary
        exact hplain name (List.mem_append_right _ (Table.mem_keys_iff.2 ⟨text, htext⟩))

theorem lookup?_eq_none_of_not_plain (hplain : PlainNames project library) {name : Text}
    (h : ¬ SlashPath.Plain name) : (overTexts project library).lookup? name = none := by
  rw [← Option.not_isSome_iff_eq_none, ← contains_eq]
  exact fun hcontains => h (plain_of_contains hplain hcontains)

theorem plain_of_mem_units (hplain : PlainNames project library) {unit : SourceUnit}
    (h : unit ∈ (overTexts project library).units) : SlashPath.Plain unit.name := by
  have hname : ∀ {origin : Origin} {texts : Table Text Text} {name : Text},
      (unitsOf origin texts).get? name = some unit → unit.name = name ∧ name ∈ texts.keys := by
    intro origin texts name hget
    refine ⟨congrArg UnitKey.name (key_of_get?_unitsOf hget), ?_⟩
    rw [get?_unitsOf, Option.map_eq_some_iff] at hget
    obtain ⟨text, htext, -⟩ := hget
    exact Table.mem_keys_iff.2 ⟨text, htext⟩
  rcases get?_of_mem_units h with ⟨name, hget⟩ | ⟨name, hget⟩
  · obtain ⟨hunit, hmem⟩ := hname hget
    exact hunit ▸ hplain name (List.mem_append_left _ hmem)
  · obtain ⟨hunit, hmem⟩ := hname hget
    exact hunit ▸ hplain name (List.mem_append_right _ hmem)

/-- No alias is spelled like a name of the library, so it does not matter which of the two tiers
is asked first. -/
theorem lookup?_eq_library_first (project library : Table Text Text) (name : Text) :
    let index := overTexts project library
    index.lookup? name = ((index.project.get? name).or (index.library.get? name)).or
      ((index.aliases.get? name).bind index.library.get?) := by
  simp only
  rw [lookup?_overTexts]
  show _ = (((unitsOf .project project).get? name).or ((unitsOf .library library).get? name)).or
    (((namedAliases library).get? name).bind (unitsOf .library library).get?)
  rw [get?_namedAliases]
  cases howner : owner? library.keys name with
  | none => simp
  | some owner =>
      have hfree := (owner?_eq_some_iff.1 howner).1
      rw [Table.notMem_keys_iff] at hfree
      rw [get?_unitsOf .library library name, hfree]
      simp

/-! ### The first name that leads to a unit -/

theorem target?_eq_findSome? (index : UnitIndex) (importer specifier : Text) :
    index.target? importer specifier
      = (candidateNames importer specifier).findSome? index.lookup? := by
  rw [target?, targetName?_eq_find?]
  induction candidateNames importer specifier with
  | nil => rfl
  | cons name rest ih =>
      cases hname : index.lookup? name with
      | none =>
          have hcontains : ¬ index.contains name = true := by simp [contains_eq, hname]
          rw [List.find?_cons_of_neg hcontains, ih, List.findSome?_cons, hname]
      | some unit =>
          have hcontains : index.contains name = true := by simp [contains_eq, hname]
          rw [List.find?_cons_of_pos hcontains, List.findSome?_cons, hname, Option.bind_some, hname]

variable {importer specifier : Text}

/-- What a relative specifier refers to, in terms of its normal form. -/
theorem target?_of_isRelative (hplain : PlainNames project library)
    (hrelative : SlashPath.isRelative specifier = true) :
    (overTexts project library).target? importer specifier
      = ((overTexts project library).lookup? (relativeName importer specifier)).or
          ((overTexts project library).lookup? (SlashPath.dropRelative specifier)) := by
  have hspecifier := lookup?_eq_none_of_not_plain hplain
    (SlashPath.not_plain_of_isRelative hrelative)
  -- What is not tried is not plain, so it makes no difference that it is not.
  have htried : ∀ (p : Bool) (name : Text),
      (p = false → (overTexts project library).lookup? name = none) →
      (if p then [name] else []).findSome? (overTexts project library).lookup?
        = (overTexts project library).lookup? name := by
    intro p name hskipped
    cases p with
    | false => rw [hskipped rfl]; rfl
    | true => simp
  rw [target?_eq_findSome?, candidateNames, List.findSome?_cons, hspecifier]
  simp only
  rw [List.findSome?_append, htried, htried]
  · intro hskipped
    simp only [Bool.and_eq_false_iff, Bool.not_eq_false', List.isEmpty_iff, bne_eq_false_iff_eq]
      at hskipped
    rcases hskipped with hempty | hsame
    · rw [hempty]
      exact lookup?_eq_none_of_not_plain hplain
        (SlashPath.not_plain_of_first [] [] rfl (by simp))
    · rw [hsame, hspecifier]
  · intro hskipped
    rw [hrelative, Bool.true_and, Bool.not_eq_false'] at hskipped
    exact lookup?_eq_none_of_not_plain hplain (SlashPath.not_plain_of_leavesRoot hskipped)

end UnitIndex

namespace Bundler

variable {index : UnitIndex} {b : Bundler} {project library : Table Text Text}
  {importer : SourceUnit} {edge : ImportEdge}

/-- **A relative import leads to the file at its place.**  Where the walk of the specifier from
the directory of the importer ends at a name that the index knows, the import leads to the
project unit of that name, or else to the library unit of that name, or else to the library unit
that the name is an alias of.  Where the walk goes up from the root or ends elsewhere, only the
specifier without its relative segments is looked up. -/
theorem resolve_follows_relative (hindex : UnitIndex.ofTexts project library = .ok index)
    (hplain : UnitIndex.PlainNames project library) (hb : Reached index b)
    (himporter : importer ∈ index.units)
    (hrelative : SlashPath.isRelative edge.specifier = true) :
    (∀ place, SlashPath.walkFrom? importer.name edge.specifier = some place →
      index.contains (SlashPath.ofSegments place) = true →
      (b.resolve importer edge).1.isSome ∧
      (b.resolve importer edge).1
        = ((index.project.get? (SlashPath.ofSegments place)).or
            (index.library.get? (SlashPath.ofSegments place))).or
          ((index.aliases.get? (SlashPath.ofSegments place)).bind index.library.get?)) ∧
    ((∀ place, SlashPath.walkFrom? importer.name edge.specifier = some place →
      index.contains (SlashPath.ofSegments place) = false) →
      (b.resolve importer edge).1 = index.lookup? (SlashPath.dropRelative edge.specifier)) := by
  have hkeyed := UnitIndex.wellKeyed_ofTexts hindex
  rw [(hb.sound hkeyed).resolve_eq]
  have heq : index = UnitIndex.overTexts project library :=
    Except.ok.inj (hindex.symm.trans (UnitIndex.ofTexts_eq project library))
  subst heq
  rw [UnitIndex.target?_of_isRelative hplain hrelative]
  have hname := relativeName_eq (UnitIndex.plain_of_mem_units hplain himporter) hrelative
  refine ⟨?_, ?_⟩
  · intro place hwalk hcontains
    rcases hname with ⟨place', hwalk', hrelativeName⟩ | ⟨hnotPlain, -⟩
    · obtain rfl := Option.some.inj (hwalk.symm.trans hwalk')
      rw [UnitIndex.contains_eq, Option.isSome_iff_exists] at hcontains
      obtain ⟨unit, hunit⟩ := hcontains
      rw [← UnitIndex.lookup?_eq_library_first, hrelativeName, hunit, Option.some_or]
      exact ⟨rfl, rfl⟩
    · exact absurd (UnitIndex.plain_of_contains hplain hcontains) (hnotPlain place hwalk)
  · intro hunknown
    have hnone : (UnitIndex.overTexts project library).lookup?
        (relativeName importer.name edge.specifier) = none := by
      rcases hname with ⟨place, hwalk, hrelativeName⟩ | ⟨-, hnotPlain⟩
      · have := hunknown place hwalk
        rw [UnitIndex.contains_eq, Option.isSome_eq_false_iff, Option.isNone_iff_eq_none] at this
        rw [hrelativeName, this]
      · exact UnitIndex.lookup?_eq_none_of_not_plain hplain hnotPlain
    rw [hnone, Option.none_or]

/-- A project unit `p/a` with an import beside it and one that leaves the root. -/
def climbing : SourceUnit :=
  .ofText .project ['p', '/', 'a'] (importOf "./q/w" ++ importOf "../../w") none

def climbingProject : Table Text Text := .ofList [(climbing.name, climbing.text)]

/-- Two library files whose names end in `w`. -/
def twoEndings : Table Text Text := .ofList [("x/w".toList, []), ("p/q/w".toList, ['x'])]

/-- The import beside the unit leads to the file there, and so does the other one, because the
deeper of the two names owns the ending. -/
theorem climbing_resolves :
    ∃ index, UnitIndex.ofTexts climbingProject twoEndings = .ok index ∧
      UnitIndex.PlainNames climbingProject twoEndings ∧ Reached index (ofIndex index) ∧
      climbing ∈ index.units ∧
      ∀ edge ∈ climbing.imports, SlashPath.isRelative edge.specifier = true ∧
        ((ofIndex index).resolve climbing edge).1
          = some (.ofText .library "p/q/w" ['x'] none) := by
  have hindex := UnitIndex.ofTexts_eq climbingProject twoEndings
  have hplain : UnitIndex.PlainNames climbingProject twoEndings := by
    unfold UnitIndex.PlainNames SlashPath.Plain
    decide
  have himporter : climbing ∈ (UnitIndex.overTexts climbingProject twoEndings).units := by decide
  have hrelative : ∀ edge ∈ climbing.imports, SlashPath.isRelative edge.specifier = true := by
    decide
  refine ⟨_, hindex, hplain, .new, himporter, fun edge hedge => ⟨hrelative edge hedge, ?_⟩⟩
  obtain ⟨hstays, hleaves⟩ := resolve_follows_relative (b := ofIndex _) hindex hplain .new himporter
    (hrelative edge hedge)
  have hspecifiers : ∀ edge ∈ climbing.imports,
      edge.specifier = "./q/w" ∨ edge.specifier = "../../w" := by decide
  rcases hspecifiers edge hedge with hbeside | habove
  · rw [hbeside] at hstays
    rw [(hstays [['p'], ['q'], ['w']] (by decide) (by decide)).2]
    decide
  · have hnone : SlashPath.walkFrom? climbing.name "../../w" = none := by decide
    rw [habove, hnone] at hleaves
    rw [hleaves (by simp)]
    decide

end Bundler

end SolidityBundler
