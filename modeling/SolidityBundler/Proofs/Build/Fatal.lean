/-
Fatal errors end a build.

A source that cannot be read ends the build before anything is written.  It need not be imported:
all located sources are read.  So what decides whether sources can be found and read is the tree
and the roots alone, and a build that fails there leaves the tree as it is.

Bundles are written before anything is compiled.  If one of them cannot be written, those before
it stay and those behind it are missing, but they all go below the directory of the bundles, under
names that do not lead out of it.  The directory of the artifacts stands beside it, so nothing
below that one has changed, and the compiler was not called.

One way to fail has no report.  A path with the null character is refused before the tree is looked
at, and the handler expects errors of the file system only.  The names of sources that were read
have no such character, so it can only be in the path of the build.  The same handler would miss a
text that cannot be encoded; where names are texts, there is none.
-/
import SolidityBundler.Proofs.Build.Bundles
import SolidityBundler.Proofs.File.Untouched

namespace SolidityBundler

/-! ### Reading all sources -/

private theorem exists_of_mapM_error {ε α β : Type} {f : α → Except ε β} {l : List α} {e : ε}
    (h : l.mapM f = .error e) : ∃ a ∈ l, f a = .error e := by
  induction l with
  | nil => cases h
  | cons a rest ih =>
      rw [List.mapM_cons] at h
      cases hfirst : f a with
      | error e' =>
          rw [hfirst] at h
          obtain rfl : e' = e := Except.error.inj h
          exact ⟨a, List.mem_cons_self, hfirst⟩
      | ok b =>
          rw [hfirst] at h
          cases hrest : rest.mapM f with
          | ok bs =>
              rw [hrest] at h
              cases h
          | error e' =>
              rw [hrest] at h
              obtain rfl : e' = e := Except.error.inj h
              obtain ⟨a', hmem, herror⟩ := ih hrest
              exact ⟨a', List.mem_cons_of_mem _ hmem, herror⟩

namespace FileTree

variable {tree : FileTree} {origin : Origin} {name : Text} {path : TreePath} {unit : SourceUnit}
  {sources : Table Text TreePath} {e : LoadError}

private theorem hasNull_of_load (h : tree.load origin name path = .ok unit) :
    path.hasNull = false := by
  obtain ⟨bytes, hread, -⟩ := exists_of_bind_eq_ok h
  rw [mapError_eq_ok_iff, read] at hread
  cases hnull : path.hasNull with
  | false => rfl
  | true =>
      rw [hnull] at hread
      cases hread

private theorem isSome_textAt?_of_load (h : tree.load origin name path = .ok unit) :
    (tree.textAt? path).isSome := by
  obtain ⟨bytes, hread, h⟩ := exists_of_bind_eq_ok h
  obtain ⟨text, htext, -⟩ := exists_of_bind_eq_ok h
  rw [textAt?, mapError_eq_ok_iff.1 hread, Except.toOption, Option.bind_some,
    mapError_eq_ok_iff.1 htext]
  rfl

private theorem textAt?_of_load_error (h : tree.load origin name path = .error e) :
    tree.textAt? path = none := by
  cases htext : tree.textAt? path with
  | none => rfl
  | some text =>
      rw [load_of_textAt? htext] at h
      cases h

/-- Bytes that are there and cannot be read are no text. -/
private theorem text_of_load_error {bytes : Bytes} (h : tree.load origin name path = .error e)
    (hread : tree.read path = .ok bytes) : ∃ fault, e = .text fault := by
  rw [load, hread] at h
  change ((Utf8.readSource bytes).mapError LoadError.text >>= fun text => .ok _) = .error e at h
  cases htext : Utf8.readSource bytes with
  | ok text =>
      rw [htext] at h
      cases h
  | error fault =>
      rw [htext] at h
      exact ⟨fault, (Except.error.inj h).symm⟩

private theorem isSome_textAt?_of_loadAll {units : Table Text SourceUnit}
    (h : tree.loadAll origin sources = .ok units) (hpath : path ∈ sources.values) :
    (tree.textAt? path).isSome := by
  obtain ⟨pairs, hpairs, -⟩ := exists_of_bind_eq_ok h
  obtain ⟨⟨name, path⟩, hentry, rfl⟩ := List.mem_map.1 hpath
  obtain ⟨pair, -, hpair⟩ := (of_mapM hpairs).2 _ hentry
  obtain ⟨unit, hload, -⟩ := exists_of_bind_eq_ok hpair
  exact isSome_textAt?_of_load hload

private theorem exists_of_loadAll_error (h : tree.loadAll origin sources = .error e) :
    ∃ name, ∃ path ∈ sources.values, tree.load origin name path = .error e := by
  rw [loadAll_eq] at h
  cases hunits : sources.entries.mapM (tree.loadEntry origin) with
  | ok units =>
      rw [hunits] at h
      cases h
  | error e' =>
      rw [hunits] at h
      obtain rfl : e' = e := Except.error.inj h
      obtain ⟨⟨name, path⟩, hentry, herror⟩ := exists_of_mapM_error hunits
      refine ⟨name, path, List.mem_map_of_mem hentry, ?_⟩
      rw [loadEntry] at herror
      cases hload : tree.load origin name path with
      | ok unit =>
          rw [hload] at herror
          cases herror
      | error e'' =>
          rw [hload] at herror
          exact congrArg _ (Except.error.inj herror)

theorem isDirectory_iff_locate :
    tree.isDirectory path = true ↔ ∃ sources, tree.locate path = .ok sources := by
  unfold isDirectory locate
  cases tree.follow path with
  | found address node => cases node <;> simp
  | free _ | absent | blocked => simp

end FileTree

namespace Build

variable {settings : Settings} {compiler : Compiler} {tree : FileTree} {index : UnitIndex}
  {log : List Log.Entry} {path : TreePath}

/-- A path is that of a source of the project or of a library, imported or not. -/
def IsSource (settings : Settings) (tree : FileTree) (path : TreePath) : Prop :=
  (∃ project, tree.locate settings.contractsPath = .ok project ∧ path ∈ project.values) ∨
    path ∈ (tree.locateLibraries settings.libraryRoots).values

private theorem isSome_textAt?_of_discover (h : discover settings tree = (.ok index, log))
    (hpath : IsSource settings tree path) : (tree.textAt? path).isSome := by
  obtain ⟨project, hproject, hunits, hothers⟩ := loadAll_of_discover h
  rcases hpath with ⟨sources, hsources, hmem⟩ | hmem
  · rw [hproject] at hsources
    obtain rfl := Except.ok.inj hsources
    exact FileTree.isSome_textAt?_of_loadAll hunits hmem
  · exact FileTree.isSome_textAt?_of_loadAll hothers hmem

/-- Finding the sources fails at the root of the project, or reading fails at one of them. -/
theorem of_discover_error {e : FileTree.LoadError} (h : (discover settings tree).1 = .error e) :
    (tree.isDirectory settings.contractsPath = false ∧ ∃ e', e = .file e') ∨
      tree.isDirectory settings.contractsPath = true ∧
        ∃ path, IsSource settings tree path ∧
          ∃ origin name, tree.load origin name path = .error e := by
  unfold discover at h
  dsimp only at h
  cases hproject : tree.locate settings.contractsPath with
  | error e' =>
      rw [hproject] at h
      refine Or.inl ⟨?_, e', (Except.error.inj h).symm⟩
      refine Bool.eq_false_iff.2 fun hdirectory => ?_
      obtain ⟨sources, hsources⟩ := FileTree.isDirectory_iff_locate.1 hdirectory
      rw [hproject] at hsources
      cases hsources
  | ok project =>
      rw [hproject] at h
      refine Or.inr ⟨FileTree.isDirectory_iff_locate.2 ⟨project, hproject⟩, ?_⟩
      dsimp only at h
      cases hunits : tree.loadAll .project project with
      | error e' =>
          rw [UnitIndex.ofFiles, hunits] at h
          obtain rfl : e' = e := Except.error.inj h
          obtain ⟨name, path, hpath, herror⟩ := FileTree.exists_of_loadAll_error hunits
          exact ⟨path, Or.inl ⟨project, hproject, hpath⟩, .project, name, herror⟩
      | ok units =>
          cases hothers : tree.loadAll .library (tree.locateLibraries settings.libraryRoots) with
          | error e' =>
              rw [UnitIndex.ofFiles, hunits, hothers] at h
              obtain rfl : e' = e := Except.error.inj h
              obtain ⟨name, path, hpath, herror⟩ := FileTree.exists_of_loadAll_error hothers
              exact ⟨path, Or.inr hpath, .library, name, herror⟩
          | ok others =>
              rw [UnitIndex.ofFiles, hunits, hothers] at h
              cases h

/-- **Sources cannot be found and read exactly if the project has no directory or one of all the
sources cannot be read.** -/
theorem exists_discover_error_iff :
    (∃ e, (discover settings tree).1 = .error e) ↔
      tree.isDirectory settings.contractsPath = false ∨
        ∃ path, IsSource settings tree path ∧ tree.textAt? path = none := by
  constructor
  · rintro ⟨e, h⟩
    rcases of_discover_error h with ⟨hroot, -⟩ | ⟨-, path, hpath, origin, name, herror⟩
    · exact Or.inl hroot
    · exact Or.inr ⟨path, hpath, FileTree.textAt?_of_load_error herror⟩
  · intro h
    cases hdiscovered : discover settings tree with
    | mk result log =>
        cases result with
        | error e => exact ⟨e, rfl⟩
        | ok index =>
            rcases h with hroot | ⟨path, hpath, hnone⟩
            · obtain ⟨project, hproject, -⟩ := loadAll_of_discover hdiscovered
              rw [FileTree.isDirectory_iff_locate.2 ⟨project, hproject⟩] at hroot
              cases hroot
            · have hsome := isSome_textAt?_of_discover hdiscovered hpath
              rw [hnone] at hsome
              cases hsome

/-! ### Before anything is written -/

theorem run_of_discover_error {e : FileTree.LoadError} (compiler : Compiler)
    (h : (discover settings tree).1 = .error e) :
    (flatten settings tree).report = .ok (unreadable e) ∧
      (run settings compiler tree).report = .ok (unreadable e) ∧
      (flatten settings tree).tree = tree ∧ (run settings compiler tree).tree = tree ∧
      (run settings compiler tree).calls = [] := by
  cases hdiscovered : discover settings tree with
  | mk result log =>
      rw [hdiscovered] at h
      obtain rfl : result = .error e := h
      have hflatten : flatten settings tree
          = { report := .ok (unreadable e), bundling := none, tree, log } := by
        unfold flatten
        rw [hdiscovered]
      unfold run
      rw [hflatten]
      exact ⟨rfl, rfl, rfl, rfl, rfl⟩

private theorem code_loadProblem (e : FileTree.LoadError) :
    (loadProblem e).1 = "LOC-0010".toList ∨ (loadProblem e).1 = "LOC-0020".toList := by
  cases e with
  | file e => exact Or.inl rfl
  | text fault => exact Or.inr rfl

/-! ### Before anything is compiled -/

/-- What a build has at hand when one of its bundles cannot be written. -/
structure Interruption (settings : Settings) (tree : FileTree) where
  index : UnitIndex
  log : List Log.Entry
  error : FileError
  written : FileTree
  discovered : discover settings tree = (.ok index, log)
  failed : tree.writeTexts settings.flattenedPath (bundleProject index).1.contents.entries
    = (.error error, written)

namespace Interruption

variable (i : Interruption settings tree)

/-- The report that the error goes to. -/
def before : Report := { flattened := some (bundleProject i.index).1.diagnostics }

theorem run_eq (compiler : Compiler) :
    (flatten settings tree).report = unwritable i.before i.error ∧
      (run settings compiler tree).report = unwritable i.before i.error ∧
      (flatten settings tree).tree = i.written ∧ (run settings compiler tree).tree = i.written ∧
      (run settings compiler tree).calls = [] := by
  have hflatten : (flatten settings tree).report = unwritable i.before i.error ∧
      (flatten settings tree).bundling = some (bundleProject i.index).1 ∧
      (flatten settings tree).tree = i.written := by
    unfold flatten
    rw [i.discovered]
    dsimp only
    rw [i.failed]
    exact ⟨rfl, rfl, rfl⟩
  obtain ⟨hreport, hbundling, htree⟩ := hflatten
  have hrun : (run settings compiler tree).report = (flatten settings tree).report ∧
      (run settings compiler tree).tree = (flatten settings tree).tree ∧
      (run settings compiler tree).calls = [] := by
    unfold run
    dsimp only
    split
    · next report bundling hok _ =>
        rw [hreport] at hok
        have hfatal := hasFatal_of_unwritable hok rfl
        rw [if_neg (by simpa using hfatal.1)]
        exact ⟨rfl, rfl, rfl⟩
    · exact ⟨rfl, rfl, rfl⟩
  exact ⟨hreport, hrun.1.trans hreport, htree, hrun.2.1.trans htree, hrun.2.2⟩

private theorem mem_keys_of_mem {item : Text × Text}
    (h : item ∈ (bundleProject i.index).1.contents.entries) : item.1 ∈ i.index.project.keys :=
  (mem_keys_contents (wellKeyed_of_discover i.discovered)).1 (List.mem_map_of_mem h)

private theorem plain_of_mem (hnamed : tree.Named) {item : Text × Text}
    (h : item ∈ (bundleProject i.index).1.contents.entries) : SlashPath.Plain item.1 :=
  (plain_of_discover i.discovered hnamed (i.mem_keys_of_mem h)).1

/-- **Nothing has changed below the directory of the artifacts.** -/
theorem content?_written (hnamed : tree.Named) {c a : Address}
    (hc : i.written.EndsAt settings.compiledPath c) (ha : c <+: a) :
    i.written.content? a = tree.content? a := by
  have hfailed := i.failed
  have hwritten : i.written
      = (tree.writeTexts settings.flattenedPath (bundleProject i.index).1.contents.entries).2 := by
    rw [hfailed]
  rw [hwritten] at hc ⊢
  exact FileTree.content?_writeTexts fun item hitem hends =>
    bundle_apart (i.plain_of_mem hnamed hitem) hends hc ha

end Interruption

/-! ### The null character -/

private theorem null_notMem_of_discover (h : discover settings tree = (.ok index, log))
    {name : Text} (hname : name ∈ index.project.keys) : '\x00' ∉ name := by
  obtain ⟨project, hproject, hunits, -⟩ := loadAll_of_discover h
  obtain ⟨unit, hget⟩ := Table.mem_keys_iff.1 hname
  obtain ⟨path, hmem, hload⟩ := FileTree.exists_load_of_get? hunits hget
  have hnull := FileTree.hasNull_of_load hload
  obtain ⟨base, -, rfl⟩ := FileTree.follow_of_locate hproject
  obtain ⟨way, -, rfl, rfl⟩ := FileTree.exists_way_of_namedSources
    (Table.find?_of_mem (tree.namedSources base).distinct hmem)
  intro hmem
  rcases Text.mem_join hmem with hslash | ⟨segment, hsegment, hmem⟩
  · exact absurd hslash (by decide)
  · rw [TreePath.hasNull, List.any_eq_false] at hnull
    exact hnull segment (List.mem_append_right _ hsegment) (List.contains_iff_mem.2 hmem)

private theorem hasNull_child_of_plain {directory : TreePath} {name : Text}
    (hplain : SlashPath.Plain name)
    (hdirectory : directory.hasNull = false) (hname : '\x00' ∉ name) :
    (directory.child name).hasNull = false := by
  rw [TreePath.hasNull, List.any_eq_false] at hdirectory ⊢
  rw [TreePath.child_of_plain _ hplain]
  intro segment hsegment
  rcases List.mem_append.1 hsegment with hmem | hmem
  · exact hdirectory segment hmem
  · rw [List.contains_iff_mem]
    intro hnull
    refine hname ?_
    rw [← SlashPath.ofSegments_segments name]
    exact Text.mem_join_of_mem hmem hnull

private theorem hasNull_flattenedPath :
    settings.flattenedPath.hasNull = settings.buildPath.hasNull := by
  have hword : ["flattened".toList].any (·.contains '\x00') = false := by decide
  show (settings.buildPath.segments ++ ["flattened".toList]).any _ = _
  rw [List.any_append, hword, Bool.or_false]
  rfl

private theorem hasNull_parent_child {directory : TreePath} {name : Text}
    (hplain : SlashPath.Plain name)
    (hdirectory : directory.hasNull = true) : (directory.child name).parent.hasNull = true := by
  have hne : SlashPath.segments name ≠ [] := Text.split_ne_nil '/' name
  rw [TreePath.hasNull, List.any_eq_true] at hdirectory ⊢
  obtain ⟨segment, hsegment, hnull⟩ := hdirectory
  refine ⟨segment, ?_, hnull⟩
  rw [TreePath.child_of_plain _ hplain, TreePath.parent, List.dropLast_append_of_ne_nil hne]
  exact List.mem_append_left _ hsegment

namespace Interruption

variable (i : Interruption settings tree)

theorem crash?_error (hnamed : tree.Named) (hnull : settings.buildPath.hasNull = false) :
    i.error.crash? = none := by
  rw [← hasNull_flattenedPath] at hnull
  refine FileTree.crash?_writeTexts (fun item hitem => ?_) (congrArg Prod.fst i.failed)
  exact hasNull_child_of_plain (i.plain_of_mem hnamed hitem) hnull
    (null_notMem_of_discover i.discovered (i.mem_keys_of_mem hitem))

private theorem error_eq (hnamed : tree.Named) (hnull : settings.buildPath.hasNull = true) :
    i.error = .nullInPath := by
  rw [← hasNull_flattenedPath] at hnull
  have hfailed := i.failed
  have hplain : ∀ item ∈ (bundleProject i.index).1.contents.entries, SlashPath.Plain item.1 :=
    fun _ => i.plain_of_mem hnamed
  cases hitems : (bundleProject i.index).1.contents.entries with
  | nil =>
      rw [hitems] at hfailed
      cases hfailed
  | cons item rest =>
      rw [hitems] at hfailed hplain
      rw [FileTree.writeTexts_of_hasNull rest
        (hasNull_parent_child (hplain item List.mem_cons_self) hnull)] at hfailed
      exact (Except.error.inj (congrArg Prod.fst hfailed)).symm

end Interruption

/-! ### Fatal errors -/

/-- Below an address that a path ends at. -/
def StandsBelow (tree : FileTree) (path : TreePath) (a : Address) : Prop :=
  ∃ c, tree.EndsAt path c ∧ c <+: a

/-- **Fatal errors end a build before its next stage.**  Sources cannot be found and read exactly if
the project has no directory or one of all the located sources cannot be read.  Then a build leaves
the tree as it is, does not call the compiler and has this one error.  If bundles cannot be written,
the compiler is not called and files below the directory of the artifacts are as they were; the
build has the error in its report.  Writing bundles alone ends in the same way.  A path of the build
with the null character is the exception: writing fails on it, and the error is in no report. -/
theorem run_stops_at_fatal_error (hnamed : tree.Named) (settings : Settings)
    (compiler : Compiler) :
    ((∃ e, (discover settings tree).1 = .error e) ↔
      tree.isDirectory settings.contractsPath = false ∨
        ∃ path, IsSource settings tree path ∧ tree.textAt? path = none) ∧
    (∀ e, (discover settings tree).1 = .error e →
      (flatten settings tree).tree = tree ∧ (run settings compiler tree).tree = tree ∧
      (run settings compiler tree).calls = [] ∧
      ∃ report code message, (flatten settings tree).report = .ok report ∧
        (run settings compiler tree).report = .ok report ∧
        (code = "LOC-0010".toList ∨ code = "LOC-0020".toList) ∧
        (tree.isDirectory settings.contractsPath = false → code = "LOC-0010".toList) ∧
        (tree.isDirectory settings.contractsPath = true →
          (∀ path, IsSource settings tree path → ∃ bytes, tree.read path = .ok bytes) →
          code = "LOC-0020".toList) ∧
        report.errors = [fatal code message] ∧ report.exitCode = 1) ∧
    ∀ index log e written, discover settings tree = (.ok index, log) →
      tree.writeTexts settings.flattenedPath (bundleProject index).1.contents.entries
        = (.error e, written) →
      (run settings compiler tree).calls = [] ∧
      (flatten settings tree).tree = (run settings compiler tree).tree ∧
      (∀ a, StandsBelow tree settings.compiledPath a ∨
          StandsBelow (run settings compiler tree).tree settings.compiledPath a →
        (run settings compiler tree).tree.content? a = tree.content? a) ∧
      (settings.buildPath.hasNull = false → ∃ report,
        (flatten settings tree).report = .ok report ∧
        (run settings compiler tree).report = .ok report ∧
        report.diagnostics = [fatal "LOC-0030" e.message] ∧ report.exitCode = 1) ∧
      (settings.buildPath.hasNull = true →
        (flatten settings tree).report = .error .nullInPath ∧
        (run settings compiler tree).report = .error .nullInPath) := by
  refine ⟨exists_discover_error_iff, ?_, ?_⟩
  · intro e h
    obtain ⟨hflatten, hrun, htree, htree', hcalls⟩ := run_of_discover_error compiler h
    refine ⟨htree, htree', hcalls, unreadable e, (loadProblem e).1, (loadProblem e).2, hflatten,
      hrun, code_loadProblem e, ?_, ?_, rfl, (hasFatal_unreadable e).exitCode⟩
    · intro hroot
      rcases of_discover_error h with ⟨-, e', rfl⟩ | ⟨hdirectory, -⟩
      · rfl
      · rw [hroot] at hdirectory
        cases hdirectory
    · intro hroot hread
      rcases of_discover_error h with ⟨hnone, -⟩ | ⟨-, path, hpath, origin, name, herror⟩
      · rw [hroot] at hnone
        cases hnone
      · obtain ⟨bytes, hbytes⟩ := hread path hpath
        obtain ⟨fault, rfl⟩ := FileTree.text_of_load_error herror hbytes
        rfl
  · intro index log e written hdiscovered hfailed
    let i : Interruption settings tree := ⟨index, log, e, written, hdiscovered, hfailed⟩
    obtain ⟨hflatten, hrun, htree, htree', hcalls⟩ := i.run_eq compiler
    refine ⟨hcalls, htree.trans htree'.symm, ?_, ?_, ?_⟩
    · intro a hbelow
      rw [htree'] at hbelow ⊢
      rcases hbelow with ⟨c, hc, ha⟩ | ⟨c, hc, ha⟩
      · have hwrites := FileTree.writes_writeTexts tree settings.flattenedPath
          (bundleProject index).1.contents.entries
        rw [hfailed] at hwrites
        exact i.content?_written hnamed (hwrites.endsAt hc) ha
      · exact i.content?_written hnamed hc ha
    · intro hnull
      have hreport : unwritable i.before e
          = .ok { i.before with diagnostics := [fatal "LOC-0030" e.message] } := by
        rw [unwritable, i.crash?_error hnamed hnull]
        rfl
      rw [hreport] at hflatten hrun
      exact ⟨_, hflatten, hrun, rfl, (hasFatal_of_unwritable hreport rfl).exitCode⟩
    · intro hnull
      obtain rfl : e = .nullInPath := i.error_eq hnamed hnull
      exact ⟨hflatten, hrun⟩

/-- Sources are read, and their bundles cannot be written. -/
def CannotWrite (settings : Settings) (tree : FileTree) : Prop :=
  ∃ index log e written, discover settings tree = (.ok index, log) ∧
    tree.writeTexts settings.flattenedPath (bundleProject index).1.contents.entries
      = (.error e, written)

private theorem cannotWrite_of_any (h : (discover settings tree).1.toOption.any (fun index =>
      (tree.writeTexts settings.flattenedPath
        (bundleProject index).1.contents.entries).1.toOption.isNone) = true) :
    CannotWrite settings tree := by
  cases hdiscovered : discover settings tree with
  | mk result log =>
      rw [hdiscovered] at h
      cases result with
      | error e => cases h
      | ok index =>
          change (tree.writeTexts settings.flattenedPath
            (bundleProject index).1.contents.entries).1.toOption.isNone = true at h
          cases hwrote : tree.writeTexts settings.flattenedPath
              (bundleProject index).1.contents.entries with
          | mk result written =>
              rw [hwrote] at h
              cases result with
              | error e => exact ⟨index, log, e, written, hdiscovered, hwrote⟩
              | ok files => cases h

/-- A project, and a library source that is no text and that nothing imports. -/
def brokenLibraryTree : FileTree :=
  ((FileTree.empty []).place (.ofText "contracts/A.sol") (.file [])).place
    (.ofText "node_modules/u.sol") (.file [0xFF])

/-- A project, and a file where everything that is written is to go. -/
def occupiedTree : FileTree :=
  ((FileTree.empty []).place (.ofText "contracts/A.sol") (.file [])).place (.ofText "build")
    (.file [])

theorem brokenLibraryTree_stopped :
    brokenLibraryTree.Named ∧ occupiedTree.Named ∧
      (run {} silentCompiler brokenLibraryTree).tree = brokenLibraryTree ∧
      (run {} silentCompiler brokenLibraryTree).calls = [] ∧
      (run {} silentCompiler occupiedTree).calls = [] ∧
      ∃ report, (run {} silentCompiler occupiedTree).report = .ok report ∧ report.exitCode = 1 := by
  have hnamed : brokenLibraryTree.Named := by decide +kernel
  have hnamed' : occupiedTree.Named := by decide +kernel
  obtain ⟨hfails, hunread, -⟩ := run_stops_at_fatal_error hnamed {} silentCompiler
  obtain ⟨-, -, hunwritten⟩ := run_stops_at_fatal_error hnamed' {} silentCompiler
  have hpath : TreePath.absolute ["node_modules".toList, "u.sol".toList]
      ∈ (brokenLibraryTree.locateLibraries [.ofText "node_modules"]).values := by decide +kernel
  obtain ⟨e, he⟩ := hfails.2 (Or.inr ⟨_, Or.inr hpath, by decide +kernel⟩)
  obtain ⟨-, htree, hcalls, -⟩ := hunread e he
  obtain ⟨index, log, e', written, hdiscovered, hfailed⟩ : CannotWrite {} occupiedTree :=
    cannotWrite_of_any (by decide +kernel)
  obtain ⟨hcalls', -, -, hreport, -⟩ := hunwritten index log e' written hdiscovered hfailed
  obtain ⟨report, -, hrun, -, hcode⟩ := hreport (by decide)
  exact ⟨hnamed, hnamed', htree, hcalls, hcalls', report, hrun, hcode⟩

/-- A project, and a path of the build that has the null character. -/
def plainTree : FileTree := (FileTree.empty []).place (.ofText "contracts/A.sol") (.file [])

def nullSettings : Settings := { buildPath := .ofText "o\x00" }

/-- Its bundle cannot be written, and no report says so. -/
theorem plainTree_without_report :
    CannotWrite nullSettings plainTree ∧ ¬ ∃ report,
      (run nullSettings silentCompiler plainTree).report = .ok report ∧ report.exitCode = 1 := by
  refine ⟨cannotWrite_of_any (by decide +kernel), ?_⟩
  have hnone : (run nullSettings silentCompiler plainTree).report.toOption.isNone = true := by
    decide +kernel
  rintro ⟨report, hreport, -⟩
  rw [hreport] at hnone
  cases hnone

end Build

end SolidityBundler
