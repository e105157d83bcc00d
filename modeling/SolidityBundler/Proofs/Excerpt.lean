/-
The excerpt below an unresolved import.

The diagnostic of an import says where the statement begins: behind so many line feeds of the text
that was loaded, at a column counted from the last one.  The excerpt reads the file again, by the
path as it is printed, and comes to the same text.  It shows the line with that number and carets
from that column to the end of the line.  But it cuts the text at all line boundaries.

So where line feeds are the only boundaries up to the end of the import's line, the excerpt shows
this line, with the first caret below the `i` of `import` and the last one below its last character.
And with any other boundary in front of the end of the line it shows another piece of the text.
-/
import SolidityBundler.CommandLine.Excerpt
import SolidityBundler.Proofs.Build.Sources
import SolidityBundler.Proofs.Bundler.Sound
import SolidityBundler.Proofs.ImportStatements
import SolidityBundler.Proofs.Path.Printed
import SolidityBundler.Proofs.Text.Boundaries

namespace SolidityBundler

/-! ### The file -/

namespace FileTree

variable {tree : FileTree} {origin : Origin} {name : Text} {path : TreePath} {unit : SourceUnit}

private theorem of_load (h : tree.load origin name path = .ok unit) :
    ∃ bytes, tree.read path = .ok bytes ∧ Utf8.readSource bytes = .ok unit.text ∧
      unit.path = some path := by
  obtain ⟨bytes, hread, h⟩ := exists_of_bind_eq_ok h
  obtain ⟨text, htext, h⟩ := exists_of_bind_eq_ok h
  obtain rfl := Except.ok.inj h
  exact ⟨bytes, mapError_eq_ok_iff.1 hread, mapError_eq_ok_iff.1 htext, rfl⟩

end FileTree

namespace CommandLine

variable {tree : FileTree} {origin : Origin} {name p : Text} {unit : SourceUnit}

theorem namedLines_of_load (h : tree.load origin name (.ofText p) = .ok unit) :
    namedLines tree (.proper (TreePath.ofText p).toText)
      = .ok (Text.boundaryLines unit.text) := by
  obtain ⟨bytes, hread, htext, -⟩ := FileTree.of_load h
  have hname : (TreePath.ofText p).toText.isEmpty = false :=
    List.isEmpty_eq_false_iff.2 (TreePath.toText_ne_nil _)
  rw [namedLines, hname, if_neg Bool.false_ne_true, fileLines,
    (TreePath.canonical_ofText p).ofText_toText, hread]
  dsimp only
  rw [htext]
  rfl

end CommandLine

/-! ### The line of a statement -/

/-- **The position of an import is that of its first letter on its line.** -/
theorem exists_isLine_of_mem_importsOf {name source : Text} {edge : ImportEdge}
    (h : edge ∈ importsOf name source) :
    ∃ (i : Nat) (front indent body rest : Text), Text.IsLine source i front (indent ++ body) rest ∧
      edge.start = front.length + indent.length ∧ importWord <+: body ∧
      edge.position = { line := i + 1, column := indent.length + 1 } := by
  have hdeclares := declares_of_mem_importsOf h
  obtain ⟨front, indent, htake, hline, hposition⟩ :=
    hdeclares.position.exists_isLine (source.drop edge.start)
  rw [List.take_append_drop] at hline
  refine ⟨_, front, indent, _, _, hline, ?_, ?_, hposition⟩
  · have hle : edge.start ≤ source.length :=
      Nat.le_of_lt (List.getElem?_eq_some_iff.1
        (hdeclares.statement.begins.letters 0 (by decide)).1).1
    have hlength := congrArg List.length htake
    rwa [List.length_take, Nat.min_eq_left hle, List.length_append] at hlength
  · obtain ⟨behind, hbehind⟩ := hdeclares.begins.trans (List.take_prefix _ _)
    have hword : importWord.all (· != '\n') = true := by decide
    rw [← hbehind, List.takeWhile_append_of_pos (List.all_eq_true.1 hword)]
    exact List.prefix_append _ _

/-! ### What is printed -/

namespace Bundler

private theorem finding_of_resolve {b : Bundler} {importer : SourceUnit} {edge : ImportEdge}
    {finding : Finding}
    (h : (b.resolve importer edge).2.findings = b.findings ++ [finding]) :
    finding = .unresolved importer edge := by
  have hnot : b.findings ≠ b.findings ++ [finding] := by simp
  cases hmemory : b.resolutions.get? (importer.key, edge.specifier) with
  | some remembered =>
      rw [Bundler.resolve, hmemory] at h
      exact absurd h hnot
  | none =>
      rw [resolve_of_new hmemory] at h
      cases htarget : b.index.target? importer.name edge.specifier with
      | some target =>
          rw [resolveNew_of_some htarget] at h
          exact absurd h hnot
      | none =>
          rw [resolveNew_of_none htarget] at h
          exact (List.singleton_inj.1 (List.append_cancel_left h)).symm

end Bundler

namespace CommandLine

/-- The margin of a line of an excerpt. -/
def numberMargin (line : Nat) : Text := numberedLine line []

/-- The margin of a line with carets: as wide as the one above it, and blanks up to a column. -/
def caretMargin (line blanks : Nat) : Text :=
  List.replicate (gutterWidth line) ' ' ++ " | " ++ List.replicate blanks ' '

private theorem numberedLine_eq (line : Nat) (source : Text) :
    numberedLine line source = numberMargin line ++ source := by
  rw [numberMargin, numberedLine, numberedLine, List.append_nil]

private theorem length_numberMargin (line : Nat) :
    (numberMargin line).length = gutterWidth line + " | ".toList.length := by
  have hle : (Text.ofInt line).length ≤ gutterWidth line := Nat.le_max_right _ _
  rw [numberMargin, numberedLine, List.append_nil, List.length_append, Text.padLeft,
    List.length_append, List.length_replicate, Nat.sub_add_cancel hle]

private theorem length_caretMargin (line : Nat) (indent : Text) :
    (caretMargin line indent.length).length = (numberMargin line ++ indent).length := by
  rw [caretMargin, List.length_append, List.length_append, List.length_replicate,
    List.length_replicate, List.length_append, length_numberMargin]

private theorem caret_notMem_caretMargin (line blanks : Nat) : '^' ∉ caretMargin line blanks := by
  have hbar : '^' ∉ " | ".toList := by decide
  have hblanks : ∀ n, '^' ∉ List.replicate n ' ' :=
    fun n hmem => absurd (List.eq_of_mem_replicate hmem) (by decide)
  rw [caretMargin, List.mem_append, List.mem_append, not_or, not_or]
  exact ⟨⟨hblanks _, hbar⟩, hblanks _⟩

private theorem caretLine_eq (line blanks : Nat) (source : Text) :
    caretLine line (blanks + 1) source
      = caretMargin line blanks ++ List.replicate (max 1 (source.length - blanks)) '^' := by
  have hfirst : (max 1 ((blanks : Int) + 1)).toNat = blanks + 1 := by omega
  rw [caretLine, hfirst, Nat.add_sub_cancel, Nat.add_sub_add_right]
  rfl

/-- Errors are written one below the other behind one opening, where a style admits them. -/
private theorem filterMap_line?_error {style : Log.Style}
    (hstyle : Log.Level.error.rank ≤ style.level.rank) (messages : List Text) :
    (messages.map Log.Entry.error).filterMap (Log.line? (some style))
      = messages.map (style.opening (.error []) ++ ·) := by
  have hline : ∀ message, Log.line? (some style) (.error message)
      = some (style.opening (.error []) ++ message) := by
    intro message
    have hadmits : style.admits (.error message) = true := decide_eq_true hstyle
    rw [Log.line?, hadmits]
    rfl
  induction messages with
  | nil => rfl
  | cons message rest ih =>
      rw [List.map_cons, List.filterMap_cons, hline, ih]
      rfl

variable {edge : ImportEdge} {i : Nat} {indent shown : Text}

theorem diagnosticEntries_unresolved (hload : tree.load origin name (.ofText p) = .ok unit)
    (hposition : edge.position = { line := i + 1, column := indent.length + 1 })
    (hshown : (Text.boundaryLines unit.text)[i]? = some shown) :
    diagnosticEntries tree (Finding.unresolved unit edge).diagnostic
      = .ok ([(Finding.unresolved unit edge).diagnostic.headline (currentText tree),
          numberMargin (i + 1) ++ shown,
          caretMargin (i + 1) indent.length
            ++ List.replicate (max 1 (shown.length - indent.length)) '^'].map Log.Entry.error) := by
  obtain ⟨-, -, -, hpath⟩ := FileTree.of_load hload
  have hdiagnostic : (Finding.unresolved unit edge).diagnostic =
      { severity := .error
        message := .proper (Finding.unresolved unit edge).message
        unitName := some unit.name
        filename := some (.proper (TreePath.ofText p).toText)
        line := some ((i + 1 : Nat) : Int)
        column := some ((indent.length + 1 : Nat) : Int) } := by
    unfold Finding.diagnostic
    rw [Finding.unit?, Finding.edge, Option.bind_some, hpath, hposition]
    rfl
  have hexcerpt : excerptLines (Text.boundaryLines unit.text) ((i + 1 : Nat) : Int)
      (some ((indent.length + 1 : Nat) : Int))
        = [numberMargin (i + 1) ++ shown, caretMargin (i + 1) indent.length
            ++ List.replicate (max 1 (shown.length - indent.length)) '^'] := by
    have hfirst : ¬ ((i + 1 : Nat) : Int) < 1 := by omega
    have hindex : (((i + 1 : Nat) : Int) - 1).toNat = i := by omega
    have hcarets := caretLine_eq (i + 1) indent.length shown
    rw [excerptLines, if_neg hfirst, hindex, hshown, ← numberedLine_eq, ← hcarets]
    rfl
  rw [hdiagnostic, diagnosticEntries, excerpt]
  dsimp only
  rw [namedLines_of_load hload, Except.map, hexcerpt]
  rfl

/-- **What is printed for an unresolved import.**  The import begins behind blanks or other text on
one line of its source.  Behind one opening stand the diagnostic, the line of the excerpt with the
number of that line behind its margin, and carets behind a margin that ends where the import begins.
The line of the excerpt is the import's line, in its place, exactly if line feeds are the only
boundaries up to the end of that line; and then the carets end with it. -/
theorem unresolved_excerpt (hload : tree.load origin name (.ofText p) = .ok unit)
    (hedge : edge ∈ unit.imports) {b : Bundler} {finding : Finding}
    (hfinding : (b.resolve unit edge).2.findings = b.findings ++ [finding]) {style : Log.Style}
    (hstyle : Log.Level.error.rank ≤ style.level.rank) :
    ∃ (i : Nat) (front indent body rest : Text),
      Text.IsLine unit.text i front (indent ++ body) rest ∧
      edge.start = front.length + indent.length ∧ importWord <+: body ∧
      ∃ entries opening front' shown rest',
        diagnosticEntries tree finding.diagnostic = .ok entries ∧
        entries.filterMap (Log.line? (some style))
          = [finding.diagnostic.headline (currentText tree),
              numberMargin (i + 1) ++ shown,
              caretMargin (i + 1) indent.length
                ++ List.replicate (max 1 (shown.length - indent.length)) '^'].map
              (opening ++ ·) ∧
        (caretMargin (i + 1) indent.length).length = (numberMargin (i + 1) ++ indent).length ∧
        '^' ∉ caretMargin (i + 1) indent.length ∧
        Text.IsBoundaryLine unit.text i front' shown rest' ∧
        ((front' = front ∧ shown = indent ++ body) ↔
          Text.OnlyLineFeeds (front ++ (indent ++ body))) ∧
        (Text.OnlyLineFeeds (front ++ (indent ++ body)) →
          max 1 (shown.length - indent.length) = body.length) := by
  obtain rfl := Bundler.finding_of_resolve hfinding
  rw [unit.imports_eq] at hedge
  obtain ⟨i, front, indent, body, rest, hline, hstart, hword, hposition⟩ :=
    exists_isLine_of_mem_importsOf hedge
  have hlong : importWord.length ≤ body.length := hword.length_le
  have hbody : body ≠ [] := by
    rintro rfl
    exact absurd hlong (by decide)
  obtain ⟨front', shown, rest', hshown, hne⟩ :=
    hline.exists_isBoundaryLine (by simp [hbody])
  have hright : (front' = front ∧ shown = indent ++ body) ↔
      Text.OnlyLineFeeds (front ++ (indent ++ body)) := by
    rw [← hline.isBoundaryLine_iff]
    constructor
    · rintro ⟨rfl, rfl⟩
      rwa [List.append_cancel_left (List.append_cancel_left
        (hshown.written.symm.trans hline.written))] at hshown
    · exact fun hplain => hshown.unique hplain
  refine ⟨i, front, indent, body, rest, hline, hstart, hword, _,
    style.opening (.error []), front', shown, rest',
    diagnosticEntries_unresolved hload hposition
      (hshown.getElem?_boundaryLines (FileTree.carriageReturn_notMem_of_load hload) hne),
    filterMap_line?_error hstyle _, length_caretMargin _ _, caret_notMem_caretMargin _ _, hshown,
    hright, fun honly => ?_⟩
  have hpositive : 1 ≤ importWord.length := by decide
  rw [(hright.2 honly).2, List.length_append, Nat.add_sub_cancel_left]
  exact Nat.max_eq_right (hpositive.trans hlong)

def noUnits : UnitIndex := { project := .empty, library := .empty, aliases := .empty }

def errorStyle : Log.Style := { level := .error, rich := false, time := [] }

/-- A project with one source. -/
def treeOf (text : Text) : FileTree :=
  (FileTree.empty []).place (.ofText "contracts/M.sol") (.file (Utf8.encode text))

def unitOf (text : Text) : SourceUnit :=
  .ofText .project "M.sol" text (some (.ofText "contracts/M.sol"))

/-- The import stands behind blanks on the second line. -/
def indentedText : Text := "x\n  import 'a';"

def indentedEdge : ImportEdge where
  importer := "M.sol"
  specifier := "a"
  start := 4
  stop := 15
  position := { line := 2, column := 3 }

/-- The line is shown, and the carets begin and end with the import. -/
theorem indentedText_excerpt :
    (treeOf indentedText).load .project "M.sol" (.ofText "contracts/M.sol")
        = .ok (unitOf indentedText) ∧
      indentedEdge ∈ (unitOf indentedText).imports ∧
      ((Bundler.ofIndex noUnits).resolve (unitOf indentedText) indentedEdge).2.findings
        = [.unresolved (unitOf indentedText) indentedEdge] ∧
      ∃ (i : Nat) (front indent body rest : Text),
        Text.IsLine indentedText i front (indent ++ body) rest ∧ importWord <+: body ∧
        ∃ entries, diagnosticEntries (treeOf indentedText) (Finding.unresolved
            (unitOf indentedText) indentedEdge).diagnostic = .ok entries ∧
          ∃ message opening, entries.filterMap (Log.line? (some errorStyle))
            = [message, numberMargin (i + 1) ++ (indent ++ body),
                caretMargin (i + 1) indent.length ++ List.replicate body.length '^'].map
                (opening ++ ·) := by
  have hload : (treeOf indentedText).load .project "M.sol" (.ofText "contracts/M.sol")
      = .ok (unitOf indentedText) :=
    FileTree.load_of_textAt? (by decide +kernel) .project "M.sol"
  have hedge : indentedEdge ∈ (unitOf indentedText).imports := by decide +kernel
  have hfinding : ((Bundler.ofIndex noUnits).resolve (unitOf indentedText)
      indentedEdge).2.findings
        = [.unresolved (unitOf indentedText) indentedEdge] := by decide +kernel
  have honly : Text.OnlyLineFeeds indentedText := by decide +kernel
  have hadmits : Log.Level.error.rank ≤ errorStyle.level.rank := Nat.le_refl _
  obtain ⟨i, front, indent, body, rest, hline, -, hword, entries, opening, front', shown, rest',
    hentries, hprinted, -, -, -, hright, hcarets⟩ :=
    unresolved_excerpt hload hedge hfinding hadmits
  have hplain : Text.OnlyLineFeeds (front ++ (indent ++ body)) := by
    intro c hc
    refine honly c ?_
    rw [show indentedText = _ from hline.written, ← List.append_assoc]
    exact List.mem_append_left _ hc
  rw [hcarets hplain, (hright.2 hplain).2] at hprinted
  exact ⟨hload, hedge, hfinding, i, front, indent, body, rest, hline, hword, entries, hentries, _,
    opening, hprinted⟩

/-- A form feed stands in front of the import. -/
def formFeedText : Text := "\x0cimport 'a';"

def formFeedEdge : ImportEdge where
  importer := "M.sol"
  specifier := "a"
  start := 1
  stop := 12
  position := { line := 1, column := 2 }

/-- The form feed ends a line of the excerpt, so an empty one is shown, and a caret behind it. -/
theorem formFeedText_excerpt :
    (treeOf formFeedText).load .project "M.sol" (.ofText "contracts/M.sol")
        = .ok (unitOf formFeedText) ∧
      formFeedEdge ∈ (unitOf formFeedText).imports ∧
      ((Bundler.ofIndex noUnits).resolve (unitOf formFeedText) formFeedEdge).2.findings
        = [.unresolved (unitOf formFeedText) formFeedEdge] ∧
      Text.lines formFeedText = [formFeedText] ∧
      ∃ entries, diagnosticEntries (treeOf formFeedText) (Finding.unresolved
          (unitOf formFeedText) formFeedEdge).diagnostic = .ok entries ∧
        (entries.filterMap (Log.line? (some errorStyle))).drop 1
          = ["    1 | ".toList, "      |  ^".toList] := by
  refine ⟨FileTree.load_of_textAt? (by decide +kernel) .project "M.sol", by decide +kernel,
    by decide +kernel, by decide, ?_⟩
  have hprinted : (diagnosticEntries (treeOf formFeedText) (Finding.unresolved
      (unitOf formFeedText) formFeedEdge).diagnostic).toOption.map
        (fun entries => (entries.filterMap (Log.line? (some errorStyle))).drop 1)
      = some ["    1 | ".toList, "      |  ^".toList] := by decide +kernel
  obtain ⟨entries, hentries, hlines⟩ := Option.map_eq_some_iff.1 hprinted
  refine ⟨entries, ?_, hlines⟩
  cases hresult : diagnosticEntries (treeOf formFeedText) (Finding.unresolved
      (unitOf formFeedText) formFeedEdge).diagnostic with
  | error crash =>
      rw [hresult] at hentries
      cases hentries
  | ok found =>
      rw [hresult] at hentries
      exact congrArg Except.ok (Option.some.inj hentries)

end CommandLine

end SolidityBundler
