/-
What is on disk is what is compiled.

Reading a source takes a byte order mark away and makes line feeds of other line ends, and writing
does none of this.  The text of a bundle has nothing that reading would change.  It begins with the
slash of its first header.  Loading leaves no carriage return in the text of a unit, commenting out
adds none, and names are not to have any, as they stand in the headers.

Bundles stand below one directory under plain names that differ, so none of them is written over
another one; and artifacts stand below another directory.  So every bundle is there at the end of a
build, and loading it gives the text that the compiler was given.
-/
import SolidityBundler.Proofs.Build.Sources
import SolidityBundler.Proofs.Compiler.Run
import SolidityBundler.Proofs.File.Writing
import SolidityBundler.Proofs.Text.Utf8

namespace SolidityBundler

/-! ### Carriage returns -/

theorem Text.mem_join {sep : Text} {pieces : List Text} {c : Char} (h : c ∈ join sep pieces) :
    c ∈ sep ∨ ∃ piece ∈ pieces, c ∈ piece := by
  induction pieces with
  | nil => cases h
  | cons piece rest ih =>
      cases rest with
      | nil => exact Or.inr ⟨piece, List.mem_cons_self, h⟩
      | cons next rest =>
          change c ∈ piece ++ sep ++ join sep (next :: rest) at h
          rw [List.mem_append, List.mem_append] at h
          rcases h with (hpiece | hsep) | hrest
          · exact Or.inr ⟨piece, List.mem_cons_self, hpiece⟩
          · exact Or.inl hsep
          · rcases ih hrest with hsep | ⟨other, hother, hmem⟩
            · exact Or.inl hsep
            · exact Or.inr ⟨other, List.mem_cons_of_mem _ hother, hmem⟩

theorem Text.mem_join_of_mem {sep piece : Text} {pieces : List Text} {c : Char}
    (hpiece : piece ∈ pieces) (hc : c ∈ piece) : c ∈ join sep pieces := by
  induction pieces with
  | nil => cases hpiece
  | cons first rest ih =>
      cases rest with
      | nil => rwa [List.mem_singleton.1 hpiece] at hc
      | cons next rest =>
          change c ∈ first ++ sep ++ join sep (next :: rest)
          rcases List.mem_cons.1 hpiece with rfl | hpiece
          · exact List.mem_append_left _ (List.mem_append_left _ hc)
          · exact List.mem_append_right _ (ih hpiece)

private theorem Text.mem_spaceOut {a b c : Char} {t : Text} (h : c ∈ spaceOut a b t) :
    c ∈ t ∨ c = ' ' := by
  fun_induction spaceOut a b t with
  | case1 => exact Or.inl h
  | case2 d => exact Or.inl h
  | case3 d e rest heq ih =>
      obtain ⟨rfl, rfl⟩ := heq
      simp only [List.mem_cons] at h ⊢
      rcases h with rfl | rfl | rfl | h
      · exact Or.inl (Or.inl rfl)
      · exact Or.inr rfl
      · exact Or.inl (Or.inr (Or.inl rfl))
      · exact (ih h).imp (fun hmem => Or.inr (Or.inr hmem)) id
  | case4 d e rest hnot ih =>
      rcases List.mem_cons.1 h with rfl | h
      · exact Or.inl List.mem_cons_self
      · exact (ih h).imp (List.mem_cons_of_mem _) id

private theorem Text.mem_closeLine {c : Char} {t : Text} (h : c ∈ closeLine t) :
    c ∈ t ∨ c = '\n' := by
  unfold closeLine at h
  by_cases hends : endsLine t
  · rw [if_pos hends] at h
    exact Or.inl h
  · rw [if_neg hends, List.mem_append, List.mem_singleton] at h
    exact h

private theorem mem_of_mem_slice {c : Char} {t : Text} {start stop : Nat}
    (h : c ∈ slice t start stop) : c ∈ t :=
  List.mem_of_mem_drop (List.mem_of_mem_take h)

private theorem carriageReturn_notMem_commentedOut {statement : Text} (h : '\r' ∉ statement) :
    '\r' ∉ commentedOut statement := by
  have hopening : '\r' ∉ "/* ".toList := by decide
  have hclosing : '\r' ∉ " */".toList := by decide
  unfold commentedOut
  rw [List.mem_append, List.mem_append, not_or, not_or]
  refine ⟨⟨hopening, fun hmem => ?_⟩, hclosing⟩
  rcases Text.mem_spaceOut hmem with hmem | hblank
  · exact h hmem
  · exact absurd hblank (by decide)

private theorem carriageReturn_notMem_commentOutFrom {text : Text} (h : '\r' ∉ text) (cursor : Nat)
    (edges : List ImportEdge) : '\r' ∉ commentOutFrom text cursor edges := by
  induction edges generalizing cursor with
  | nil => exact fun hmem => h (List.mem_of_mem_drop hmem)
  | cons edge rest ih =>
      rw [commentOutFrom, List.mem_append, List.mem_append, not_or, not_or]
      exact ⟨⟨fun hmem => h (mem_of_mem_slice hmem),
        carriageReturn_notMem_commentedOut fun hmem => h (mem_of_mem_slice hmem)⟩, ih edge.stop⟩

namespace UnitIndex

variable {index : UnitIndex} {entry : SourceUnit}

private theorem carriageReturn_notMem_sectionOf {unit : SourceUnit} (hname : '\r' ∉ unit.name)
    (htext : '\r' ∉ unit.text) : '\r' ∉ (index.sectionOf unit).text := by
  have hword : '\r' ∉ "// File: ".toList := by decide
  have hgap : '\r' ∉ "\n\n".toList := by decide
  unfold Section.text headerLine
  generalize "// File: ".toList = word at hword ⊢
  generalize "\n\n".toList = gap at hgap ⊢
  rw [List.mem_append, List.mem_append, List.mem_append, not_or, not_or, not_or]
  refine ⟨⟨⟨hword, hname⟩, hgap⟩, fun hmem => ?_⟩
  rcases Text.mem_closeLine hmem with hmem | hfeed
  · exact carriageReturn_notMem_commentOutFrom htext 0 _ hmem
  · exact absurd hfeed (by decide)

theorem carriageReturn_notMem_content (hkeyed : index.WellKeyed) (hentry : entry ∈ index.units)
    (hnames : ∀ unit ∈ index.units, '\r' ∉ unit.name)
    (htexts : ∀ unit ∈ index.units, '\r' ∉ unit.text) : '\r' ∉ (index.bundleOf entry).content := by
  intro hmem
  rcases Text.mem_join hmem with hfeed | ⟨piece, hpiece, hmem⟩
  · exact absurd hfeed (by decide)
  · obtain ⟨s, hs, rfl⟩ := List.mem_map.1 hpiece
    obtain ⟨unit, hunit, rfl⟩ := List.mem_map.1 hs
    have hunits := Bundler.mem_units_of_mem_inlineOrder hkeyed hentry hunit
    exact carriageReturn_notMem_sectionOf (hnames unit hunits) (htexts unit hunits) hmem

private theorem head?_content (hkeyed : index.WellKeyed) (hentry : entry ∈ index.units) :
    (index.bundleOf entry).content.head? = some '/' := by
  have hlast := getLast?_inlineOrder hkeyed hentry
  cases horder : index.inlineOrder entry with
  | nil =>
      rw [horder] at hlast
      cases hlast
  | cons unit rest =>
      show (Text.join ['\n'] (((index.inlineOrder entry).map index.sectionOf).map
        Section.text)).head? = _
      rw [horder]
      cases rest <;> rfl

end UnitIndex

/-! ### The bundles of a project -/

namespace Build

variable {index : UnitIndex}

/-- The names of project units are known, so bundling a project succeeds. -/
theorem bundleAll_project (hkeyed : index.WellKeyed) :
    ((Bundler.ofIndex index).bundleAll index.project.keys).1 = .ok (bundleProject index).1 := by
  obtain ⟨bundling, hbundling, -⟩ := (Bundler.sound_ofIndex index).bundleAll_ok hkeyed
    fun name => UnitIndex.isSome_lookup?_of_mem_project
  have hproject : (bundleProject index).1 = bundling := by
    unfold bundleProject
    dsimp only
    rw [hbundling]
    rfl
  rw [hproject, hbundling]

/-- **Each project unit has a bundle, and there are no others.** -/
theorem get?_contents (hkeyed : index.WellKeyed) (name : Text) :
    (bundleProject index).1.contents.get? name
      = (index.project.get? name).map fun entry => (index.bundleOf entry).content := by
  rw [Bundling.contents, Table.get?_mapValues,
    (Bundler.sound_ofIndex index).get?_bundles hkeyed (bundleAll_project hkeyed)]
  by_cases hname : name ∈ index.project.keys
  · obtain ⟨entry, hentry⟩ := Table.mem_keys_iff.1 hname
    rw [if_pos hname, UnitIndex.lookup?_of_get?_project hentry, hentry]
    rfl
  · rw [if_neg hname, Table.notMem_keys_iff.1 hname]
    rfl

theorem mem_keys_contents (hkeyed : index.WellKeyed) {name : Text} :
    name ∈ (bundleProject index).1.contents.keys ↔ name ∈ index.project.keys := by
  rw [Table.mem_keys_iff, Table.mem_keys_iff]
  simp only [get?_contents hkeyed, Option.map_eq_some_iff]
  constructor
  · rintro ⟨_, entry, hentry, -⟩
    exact ⟨entry, hentry⟩
  · rintro ⟨entry, hentry⟩
    exact ⟨_, entry, hentry, rfl⟩

/-! ### Files -/

variable {settings : Settings} {compiler : Compiler} {tree : FileTree}

namespace Flattening

variable (f : Flattening settings tree)

theorem get?_contents (name : Text) :
    f.bundling.contents.get? name
      = (f.index.project.get? name).map fun entry => (f.index.bundleOf entry).content :=
  Build.get?_contents (wellKeyed_of_discover f.discovered) name

theorem mem_keys_contents {name : Text} :
    name ∈ f.bundling.contents.keys ↔ name ∈ f.index.project.keys :=
  Build.mem_keys_contents (wellKeyed_of_discover f.discovered)

theorem plain_of_mem_contents (hnamed : tree.Named) {name : Text}
    (h : name ∈ f.bundling.contents.keys) : SlashPath.Plain name ∧ isSourceName name :=
  plain_of_discover f.discovered hnamed (f.mem_keys_contents.1 h)

theorem holds (hnamed : tree.Named) {name text : Text}
    (h : f.bundling.contents.get? name = some text) :
    f.written.Holds (settings.flattenedPath.child name) (Utf8.encode text) := by
  have hplain : ∀ item ∈ f.bundling.contents.entries, SlashPath.Plain item.1 :=
    fun item hitem => (f.plain_of_mem_contents hnamed (List.mem_map_of_mem hitem)).1
  exact (FileTree.writeTexts_ok f.wrote hplain f.bundling.contents.distinct).2 (name, text)
    (Table.mem_of_find? h)

theorem readSource_content (hnames : ∀ unit ∈ f.index.units, '\r' ∉ unit.name) {name text : Text}
    (h : f.bundling.contents.get? name = some text) :
    Utf8.readSource (Utf8.encode text) = .ok text := by
  rw [f.get?_contents, Option.map_eq_some_iff] at h
  obtain ⟨entry, hentry, rfl⟩ := h
  have hkeyed := wellKeyed_of_discover f.discovered
  have hmem : entry ∈ f.index.units := List.mem_append_left _ (Table.mem_values_of_get? hentry)
  exact Utf8.readSource_encode (UnitIndex.head?_content hkeyed hmem)
    (UnitIndex.carriageReturn_notMem_content hkeyed hmem hnames
      fun unit => carriageReturn_notMem_of_discover f.discovered)

end Flattening

/-- Bundles do not stand below the directory of the artifacts. -/
theorem bundle_apart {name : Text} {a c : Address} (hplain : SlashPath.Plain name)
    (h : tree.EndsAt (settings.flattenedPath.child name) a)
    (hc : tree.EndsAt settings.compiledPath c) : ¬ c <+: a := by
  intro hprefix
  have hwords : "compiled".toList ≠ "flattened".toList := by decide
  have hup : SlashPath.up ≠ "flattened".toList := by decide
  have hup' : SlashPath.up ≠ "compiled".toList := by decide
  have hflattened : settings.flattenedPath = { settings.buildPath with
      segments := settings.buildPath.segments ++ ["flattened".toList] } := rfl
  have hcompiled : settings.compiledPath = { settings.buildPath with
      segments := settings.buildPath.segments ++ ["compiled".toList] } := rfl
  rw [TreePath.child_of_plain _ hplain, hflattened] at h
  rw [hcompiled] at hc
  generalize "flattened".toList = word at hwords hup h
  generalize "compiled".toList = word' at hwords hup' hc
  obtain ⟨base, rfl, rfl⟩ := h.exists_common_base hc rfl (List.append_assoc _ _ _) rfl
    (List.cons_ne_nil _ _) (List.cons_ne_nil _ _)
    (List.not_mem_cons_of_ne_of_not_mem hup hplain.up_notMem)
    (List.not_mem_cons_of_ne_of_not_mem hup' List.not_mem_nil)
  rw [List.prefix_append_right_inj] at hprefix
  exact hwords (List.cons_prefix_cons.1 hprefix).1

private theorem artifact_apart {name name' : Text} {a : Address} (hplain : SlashPath.Plain name)
    (hplain' : SlashPath.Plain name') (h : tree.EndsAt (settings.flattenedPath.child name) a) :
    ¬ tree.EndsAt (settings.compiledPath.child name') a := by
  intro h'
  have hcompiled : settings.compiledPath.segments
      = settings.buildPath.segments ++ ["compiled".toList] := rfl
  obtain ⟨c, hc, hprefix⟩ := h'.exists_above hplain' hcompiled (by decide)
  exact bundle_apart hplain h hc hprefix

namespace Completion

variable (c : Completion settings compiler tree)

/-- Artifacts have plain names. -/
theorem plain_of_mem_artifacts (hnamed : tree.Named) {item : Text × Text}
    (h : item ∈ artifactFiles c.traced.artifacts) : SlashPath.Plain item.1 := by
  obtain ⟨⟨name, artifact⟩, hmem, rfl⟩ := List.mem_map.1 h
  rw [(of_attributed c.traced_eq).2.2] at hmem
  obtain ⟨source, hsource, rfl⟩ :=
    exists_source_of_artifact c.compiled (List.mem_map.2 ⟨_, hmem, rfl⟩)
  obtain ⟨hplain, hending⟩ := c.plain_of_mem_contents hnamed hsource
  exact plain_artifactFile hending hplain

theorem holds_bundle (hnamed : tree.Named) {name text : Text}
    (h : c.bundling.contents.get? name = some text) :
    c.final.Holds (settings.flattenedPath.child name) (Utf8.encode text) := by
  have hwrites := FileTree.writes_writeTexts c.written settings.compiledPath
    (artifactFiles c.traced.artifacts)
  rw [c.wroteArtifacts] at hwrites
  refine (c.holds hnamed h).of_writes hwrites fun a hends => ?_
  rintro ⟨item, hitem, hends'⟩
  have hplain := (c.plain_of_mem_contents hnamed (Table.mem_keys_iff.2 ⟨text, h⟩)).1
  exact artifact_apart hplain (c.plain_of_mem_artifacts hnamed hitem) hends hends'

end Completion

/-! ### The end of a build -/

/-- Each project unit has its text in a file, and a unit loaded from the file has that text. -/
def Stores (settings : Settings) (tree : FileTree) (index : UnitIndex)
    (contents : Table Text Text) : Prop :=
  ∀ name ∈ index.project.keys, ∃ text, contents.get? name = some text ∧
    ∀ origin logical, ∃ unit,
      tree.load origin logical (settings.flattenedPath.child name) = .ok unit ∧ unit.text = text

private theorem Flattening.stores (f : Flattening settings tree)
    (hnames : ∀ unit ∈ f.index.units, '\r' ∉ unit.name) {tree' : FileTree}
    (hholds : ∀ name text, f.bundling.contents.get? name = some text →
      tree'.Holds (settings.flattenedPath.child name) (Utf8.encode text)) :
    Stores settings tree' f.index f.bundling.contents := by
  intro name hname
  obtain ⟨text, htext⟩ := Table.mem_keys_iff.1 (f.mem_keys_contents.2 hname)
  refine ⟨text, htext, fun origin logical => ⟨_, FileTree.load_of_textAt? ?_ origin logical, rfl⟩⟩
  rw [FileTree.textAt?, (hholds name text htext).read, Except.toOption, Option.bind_some,
    f.readSource_content hnames htext]
  rfl

/-- **What is on disk is what is compiled.**  When a build has no fatal error, alone or behind the
writing of its bundles, each project unit has a file below the directory of the bundles, and
loading the file gives the text that the compiler is given. -/
theorem bundles_on_disk (hnamed : tree.Named) (hnames : ∀ index log,
      discover settings tree = (.ok index, log) → ∀ unit ∈ index.units, '\r' ∉ unit.name) :
    (∀ report, (flatten settings tree).report = .ok report →
      (∀ d ∈ report.diagnostics, ¬ IsFatal d) →
      ∃ index log bundling, discover settings tree = (.ok index, log) ∧
        (flatten settings tree).bundling = some bundling ∧
        Stores settings (flatten settings tree).tree index bundling.contents) ∧
    ∀ compiler report, (run settings compiler tree).report = .ok report →
      (∀ d ∈ report.diagnostics, ¬ IsFatal d) →
      ∃ index log bundling, discover settings tree = (.ok index, log) ∧
        (flatten settings tree).bundling = some bundling ∧
        Stores settings (run settings compiler tree).tree index bundling.contents ∧
        ∀ call ∈ (run settings compiler tree).calls, ∀ input, call.input? = some input →
          input.sources = bundling.contents := by
  constructor
  · intro report hreport hclean
    rcases fatal_or_flattening hreport with hfatal | ⟨f, -⟩
    · exact absurd hclean hfatal.not_clean
    · obtain ⟨-, hbundling, htree⟩ := f.flatten_eq
      refine ⟨f.index, f.log, f.bundling, f.discovered, hbundling, ?_⟩
      rw [htree]
      exact f.stores (hnames _ _ f.discovered) fun _ _ => f.holds hnamed
  · intro compiler report hreport hclean
    rcases fatal_or_completion hreport with hfatal | ⟨c, -⟩
    · exact absurd hclean hfatal.not_clean
    · obtain ⟨-, htree, hcalls⟩ := c.run_eq
      refine ⟨c.index, c.log, c.bundling, c.discovered, c.flatten_eq.2.1, ?_, ?_⟩
      · rw [htree]
        exact c.stores (hnames _ _ c.discovered) fun _ _ => c.holds_bundle hnamed
      · rw [hcalls]
        intro call hcall input hinput
        rw [eq_of_input?_mem_calls hcall hinput]
        rfl

/-- Two sources: one begins with a byte order mark, ends its lines in two characters and has a
letter outside of ASCII; the other one has a lone carriage return. -/
def markedTree : FileTree :=
  ((FileTree.empty []).place (.ofText "contracts/A.sol")
      (.file ([0xEF, 0xBB, 0xBF] ++ Utf8.encode "import './B.sol';\r\n// é\r\n"))).place
    (.ofText "contracts/B.sol") (.file (Utf8.encode "x\ry"))

/-- A compiler that has nothing to say. -/
def silentCompiler : Compiler where
  installed := []
  install _ := none
  answer _ _ := .output (.object [])

theorem markedTree_bundles_on_disk : ∃ report index log, ∃ bundling : Bundling,
    markedTree.Named ∧ (run {} silentCompiler markedTree).report = .ok report ∧
      discover {} markedTree = (.ok index, log) ∧
      index.project.keys = ["A.sol".toList, "B.sol".toList] ∧
      (∀ unit ∈ index.units, '\r' ∉ unit.name) ∧ (∀ d ∈ report.diagnostics, ¬ IsFatal d) ∧
      Stores {} (run {} silentCompiler markedTree).tree index bundling.contents := by
  have hnamed : markedTree.Named := by decide +kernel
  have hindex : (discover {} markedTree).1.toOption.map (fun index =>
      (index.project.keys, index.units.all fun unit => !unit.name.contains '\r'))
        = some (["A.sol".toList, "B.sol".toList], true) := by decide +kernel
  have hreport : (run {} silentCompiler markedTree).report.toOption.map
      (fun report => report.diagnostics.isEmpty) = some true := by decide +kernel
  have hfound : ∀ index log, discover {} markedTree = (.ok index, log) →
      index.project.keys = ["A.sol".toList, "B.sol".toList] ∧
        ∀ unit ∈ index.units, '\r' ∉ unit.name := by
    intro index log hdiscover
    rw [hdiscover] at hindex
    obtain ⟨hkeys, hnames⟩ := Prod.mk.inj (Option.some.inj hindex)
    refine ⟨hkeys, fun unit hunit hmem => ?_⟩
    have hname := List.all_eq_true.1 hnames unit hunit
    simp [hmem] at hname
  cases hrun : (run {} silentCompiler markedTree).report with
  | error crash =>
      rw [hrun] at hreport
      cases hreport
  | ok report =>
      rw [hrun] at hreport
      have hclean : ∀ d ∈ report.diagnostics, ¬ IsFatal d := by
        rw [List.isEmpty_iff.1 (Option.some.inj hreport)]
        exact fun _ hmem => absurd hmem List.not_mem_nil
      obtain ⟨index, log, bundling, hdiscover, -, hstores, -⟩ :=
        (bundles_on_disk hnamed fun index log h => (hfound index log h).2).2
          silentCompiler report hrun hclean
      obtain ⟨hkeys, hnames⟩ := hfound index log hdiscover
      exact ⟨report, index, log, bundling, hnamed, rfl, hdiscover, hkeys, hnames, hclean, hstores⟩

end Build

end SolidityBundler
