/-
The sources of a build, and the names of what it writes.

The units of a build are the files found below its roots, each under the way that leads to it.  A
file system has no entries without a name, none called `.` or `..`, and none with a slash in its
name; so a way to a file is a plain name, and it can be taken from any directory to give a file
below it.  The artifact of a source has its name with another ending, so artifacts have plain names
too, and sources with different names have different artifacts.
-/
import SolidityBundler.Proofs.Build.Outcome
import SolidityBundler.Proofs.File.Following
import SolidityBundler.Proofs.Index.Located

namespace SolidityBundler

/-! ### Names of sources -/

/-- The entries of a file system have names: none is empty, `.` or `..`, and none has a slash. -/
def FileTree.Named (tree : FileTree) : Prop :=
  ∀ address ∈ tree.nodes.keys, ∀ segment ∈ address,
    SlashPath.isRelativeSegment segment = false ∧ '/' ∉ segment

instance (tree : FileTree) : Decidable tree.Named :=
  inferInstanceAs (Decidable (∀ address ∈ tree.nodes.keys, ∀ segment ∈ address, _ ∧ _))

private theorem SlashPath.exists_ofSegments_eq {segs : List Text} {last : Text}
    (h : segs.getLast? = some last) : ∃ front, SlashPath.ofSegments segs = front ++ last := by
  obtain ⟨front, rfl⟩ := List.getLast?_eq_some_iff.1 h
  by_cases hfront : front = []
  · subst hfront
    exact ⟨[], rfl⟩
  · refine ⟨SlashPath.ofSegments front ++ ['/'], ?_⟩
    rw [SlashPath.ofSegments_append hfront (List.cons_ne_nil _ _), SlashPath.ofSegments_singleton]
    simp

namespace FileTree

variable {tree : FileTree} {base address way : Address} {root : TreePath}

private theorem sourceBelow?_eq_some_iff {node : FileNode} :
    sourceBelow? base address node = some way ↔
    (∃ content, node = .file content) ∧ address = base ++ way ∧
      ∃ last, way.getLast? = some last ∧ isSourceName last := by
  constructor
  · intro h
    cases node with
    | directory => cases h
    | file content =>
        dsimp only [sourceBelow?] at h
        split at h
        · next hcond =>
            obtain rfl : address.drop base.length = way := Option.some.inj h
            rw [Bool.and_eq_true, List.isPrefixOf_iff_prefix, Option.any_eq_true] at hcond
            obtain ⟨⟨way, rfl⟩, last, hlast, hending⟩ := hcond
            rw [List.drop_left] at hlast ⊢
            exact ⟨⟨content, rfl⟩, rfl, last, hlast, hending⟩
        · cases h
  · rintro ⟨⟨content, rfl⟩, rfl, last, hlast, hending⟩
    dsimp only [sourceBelow?]
    rw [if_pos, List.drop_left]
    rw [List.drop_left, hlast, Bool.and_eq_true, List.isPrefixOf_iff_prefix]
    exact ⟨List.prefix_append _ _, hending⟩

/-- Below a directory are the files whose names have the ending of sources. -/
theorem mem_sourcesBelow_iff : way ∈ tree.sourcesBelow base ↔
    (∃ content, (base ++ way, .file content) ∈ tree.nodes.entries) ∧
      ∃ last, way.getLast? = some last ∧ isSourceName last := by
  have hmem : way ∈ tree.sourcesBelow base ↔
      ∃ entry ∈ tree.nodes.entries, sourceBelow? base entry.1 entry.2 = some way := by
    refine (mem_sortBy fun x y hxy hyx => ?_).trans List.mem_filterMap
    rw [decide_eq_false_iff_not, List.not_lt] at hxy hyx
    exact List.le_antisymm hyx hxy
  rw [hmem]
  constructor
  · rintro ⟨⟨address, node⟩, hentry, hbelow⟩
    obtain ⟨⟨content, rfl⟩, rfl, hlast⟩ := sourceBelow?_eq_some_iff.1 hbelow
    exact ⟨⟨content, hentry⟩, hlast⟩
  · rintro ⟨⟨content, hentry⟩, hlast⟩
    exact ⟨_, hentry, sourceBelow?_eq_some_iff.2 ⟨⟨content, rfl⟩, rfl, hlast⟩⟩

theorem Named.of_mem_sourcesBelow (hnamed : tree.Named) (h : way ∈ tree.sourcesBelow base) :
    SlashPath.Plain (SlashPath.ofSegments way) ∧ isSourceName (SlashPath.ofSegments way) := by
  obtain ⟨⟨content, hentry⟩, last, hlast, hending⟩ := mem_sourcesBelow_iff.1 h
  have haddress : ∀ segment ∈ way, SlashPath.isRelativeSegment segment = false ∧ '/' ∉ segment := by
    intro segment hsegment
    exact hnamed _ (List.mem_map_of_mem hentry) segment (List.mem_append_right _ hsegment)
  have hne : way ≠ [] := by
    rintro rfl
    cases hlast
  refine ⟨?_, ?_⟩
  · intro segment hsegment
    rw [SlashPath.segments_ofSegments hne fun s hs => (haddress s hs).2] at hsegment
    exact (haddress segment hsegment).1
  · obtain ⟨front, hfront⟩ := SlashPath.exists_ofSegments_eq hlast
    rw [isSourceName, List.isSuffixOf_iff_suffix] at hending ⊢
    rw [hfront]
    exact hending.trans (List.suffix_append front last)

theorem locate_of_follow (h : tree.follow root = .found base .directory) :
    tree.locate root = .ok (tree.namedSources base) := by
  rw [locate, h]

theorem follow_of_locate {sources : Table Text TreePath} (h : tree.locate root = .ok sources) :
    ∃ base, tree.follow root = .found base .directory ∧ sources = tree.namedSources base := by
  unfold locate at h
  split at h
  · next base hfollow => exact ⟨base, hfollow, (Except.ok.inj h).symm⟩
  all_goals cases h

/-- What is located has the way to it as its name. -/
theorem exists_way_of_namedSources {name : Text} {path : TreePath}
    (h : (tree.namedSources base).get? name = some path) :
    ∃ way ∈ tree.sourcesBelow base, name = SlashPath.ofSegments way ∧
      path = .absolute (base ++ way) := by
  obtain ⟨way, hway, hentry⟩ := List.mem_map.1 (Table.mem_of_get?_ofList h)
  obtain ⟨hname, hpath⟩ := Prod.mk.inj hentry
  exact ⟨way, hway, hname.symm, hpath.symm⟩

theorem Named.of_mem_locate (hnamed : tree.Named) {sources : Table Text TreePath}
    (h : tree.locate root = .ok sources) {name : Text} (hname : name ∈ sources.keys) :
    SlashPath.Plain name ∧ isSourceName name := by
  obtain ⟨base, -, rfl⟩ := follow_of_locate h
  obtain ⟨path, hpath⟩ := Table.mem_keys_iff.1 hname
  obtain ⟨way, hway, rfl, -⟩ := exists_way_of_namedSources hpath
  exact hnamed.of_mem_sourcesBelow hway

end FileTree

/-! ### Names of artifacts -/

theorem Text.exists_split_append {sep : Char} (s : Text) {t : Text} (h : sep ∉ t) :
    ∃ front last, split sep s = front ++ [last] ∧ split sep (s ++ t) = front ++ [last ++ t] := by
  induction s with
  | nil => exact ⟨[], [], rfl, split_of_notMem h⟩
  | cons c rest ih =>
      obtain ⟨front, last, hrest, hmore⟩ := ih
      by_cases hc : c = sep
      · refine ⟨[] :: front, last, ?_, ?_⟩
        · rw [split, if_pos hc, hrest, List.cons_append]
        · rw [List.cons_append, split, if_pos hc, hmore, List.cons_append]
      · rw [List.cons_append, split, split, if_neg hc, if_neg hc, hrest, hmore]
        cases front with
        | nil => exact ⟨[], c :: last, rfl, rfl⟩
        | cons piece front => exact ⟨(c :: piece) :: front, last, rfl, rfl⟩

/-- A plain name stays one with another ending that is longer than a relative segment. -/
private theorem SlashPath.Plain.of_append {s t t' : Text} (h : SlashPath.Plain (s ++ t))
    (ht : '/' ∉ t) (ht' : '/' ∉ t') (hlong : 2 < t'.length) : SlashPath.Plain (s ++ t') := by
  obtain ⟨front, last, hs, hst⟩ := Text.exists_split_append s ht
  obtain ⟨front', last', hs', hst'⟩ := Text.exists_split_append s ht'
  obtain ⟨rfl, hlast⟩ := List.append_inj' (hs.symm.trans hs') rfl
  obtain rfl : last = last' := List.head_eq_of_cons_eq hlast
  intro segment hsegment
  rw [SlashPath.segments, hst', List.mem_append, List.mem_singleton] at hsegment
  rcases hsegment with hfront | rfl
  · refine h segment ?_
    rw [SlashPath.segments, hst]
    exact List.mem_append_left _ hfront
  · have hlength : 2 < (last ++ t').length := by
      rw [List.length_append]
      omega
    have hne : ∀ word : Text, word.length ≤ 2 → last ++ t' ≠ word := by
      rintro word hword rfl
      omega
    rw [SlashPath.isRelativeSegment, Bool.or_eq_false_iff, Bool.or_eq_false_iff]
    refine ⟨⟨?_, ?_⟩, ?_⟩
    · exact beq_eq_false_iff_ne.2 (hne _ (by decide))
    · exact beq_eq_false_iff_ne.2 (hne _ (by decide))
    · rw [List.isEmpty_eq_false_iff]
      exact hne [] (by decide)

theorem artifactName_append {source : Text} (h : isSourceName source) :
    artifactName source ++ sourceEnding = source := by
  have hsuffix : sourceEnding <:+ source := List.isSuffixOf_iff_suffix.1 h
  obtain ⟨stem, rfl⟩ := hsuffix
  have hends : sourceEnding.isSuffixOf (stem ++ sourceEnding) = true := h
  rw [artifactName, Text.dropEnding?, if_pos hends]
  simp

/-- The name of the file of an artifact. -/
def artifactFile (source : Text) : Text := artifactName source ++ ".json"

theorem artifactName_inj {source other : Text} (h : isSourceName source) (h' : isSourceName other)
    (heq : artifactName source = artifactName other) : source = other := by
  rw [← artifactName_append h, ← artifactName_append h', heq]

theorem plain_artifactFile {source : Text} (h : isSourceName source)
    (hplain : SlashPath.Plain source) : SlashPath.Plain (artifactFile source) := by
  rw [← artifactName_append h] at hplain
  exact hplain.of_append (by decide) (by decide) (by decide)

/-! ### Units read from files -/

namespace FileTree

variable {tree : FileTree} {origin : Origin} {sources : Table Text TreePath}
  {units : Table Text SourceUnit} {name : Text} {unit : SourceUnit}

private theorem mem_keys_of_loadAll (h : tree.loadAll origin sources = .ok units)
    (hname : name ∈ units.keys) : name ∈ sources.keys := by
  obtain ⟨unit, hget⟩ := Table.mem_keys_iff.1 hname
  obtain ⟨path, hmem, -⟩ := exists_load_of_get? h hget
  exact List.mem_map.2 ⟨_, hmem, rfl⟩

/-- Loading leaves no carriage return in a text. -/
theorem carriageReturn_notMem_of_load {path : TreePath}
    (h : tree.load origin name path = .ok unit) : '\r' ∉ unit.text := by
  obtain ⟨bytes, -, h⟩ := exists_of_bind_eq_ok h
  obtain ⟨text, htext, h⟩ := exists_of_bind_eq_ok h
  obtain rfl := Except.ok.inj h
  rw [mapError_eq_ok_iff, Utf8.readSource] at htext
  cases hdecode : Utf8.decode (Utf8.dropByteOrderMark bytes) with
  | error fault =>
      rw [hdecode] at htext
      cases htext
  | ok decoded =>
      rw [hdecode] at htext
      obtain rfl := Except.ok.inj htext
      exact Text.carriageReturn_notMem_normalizeNewlines decoded

end FileTree

/-! ### The index of a build -/

namespace Build

variable {settings : Settings} {tree : FileTree} {index : UnitIndex} {log : List Log.Entry}

theorem ofFiles_of_discover (h : discover settings tree = (.ok index, log)) :
    ∃ project, tree.locate settings.contractsPath = .ok project ∧
      UnitIndex.ofFiles tree project (tree.locateLibraries settings.libraryRoots) = .ok index := by
  unfold discover at h
  dsimp only at h
  split at h
  · cases h
  · next project hproject =>
      split at h
      · cases h
      · next found hfiles =>
          obtain rfl : found = index := Except.ok.inj (congrArg Prod.fst h)
          exact ⟨project, hproject, hfiles⟩

theorem loadAll_of_discover (h : discover settings tree = (.ok index, log)) :
    ∃ project, tree.locate settings.contractsPath = .ok project ∧
      tree.loadAll .project project = .ok index.project ∧
      tree.loadAll .library (tree.locateLibraries settings.libraryRoots) = .ok index.library := by
  obtain ⟨project, hproject, hfiles⟩ := ofFiles_of_discover h
  obtain ⟨units, hunits, hfiles⟩ := exists_of_bind_eq_ok hfiles
  obtain ⟨others, hothers, hfiles⟩ := exists_of_bind_eq_ok hfiles
  obtain rfl := Except.ok.inj hfiles
  exact ⟨project, hproject, hunits, hothers⟩

theorem filed_of_discover (h : discover settings tree = (.ok index, log)) : index.Filed := by
  obtain ⟨_, -, hfiles⟩ := ofFiles_of_discover h
  exact UnitIndex.filed_ofFiles hfiles

theorem wellKeyed_of_discover (h : discover settings tree = (.ok index, log)) :
    index.WellKeyed :=
  (filed_of_discover h).wellKeyed

/-- Project units have plain names with the ending of sources. -/
theorem plain_of_discover (h : discover settings tree = (.ok index, log)) (hnamed : tree.Named)
    {name : Text} (hname : name ∈ index.project.keys) :
    SlashPath.Plain name ∧ isSourceName name := by
  obtain ⟨project, hproject, hunits, -⟩ := loadAll_of_discover h
  exact hnamed.of_mem_locate hproject (FileTree.mem_keys_of_loadAll hunits hname)

theorem carriageReturn_notMem_of_discover (h : discover settings tree = (.ok index, log))
    {unit : SourceUnit} (hunit : unit ∈ index.units) : '\r' ∉ unit.text := by
  obtain ⟨project, -, hunits, hothers⟩ := loadAll_of_discover h
  rcases List.mem_append.1 hunit with hmem | hmem
  · obtain ⟨name, hget⟩ := Table.exists_get?_of_mem_values hmem
    obtain ⟨path, -, hload⟩ := FileTree.exists_load_of_get? hunits hget
    exact FileTree.carriageReturn_notMem_of_load hload
  · obtain ⟨name, hget⟩ := Table.exists_get?_of_mem_values hmem
    obtain ⟨path, -, hload⟩ := FileTree.exists_load_of_get? hothers hget
    exact FileTree.carriageReturn_notMem_of_load hload

end Build

end SolidityBundler
