/-
What commenting statements out hides.

A unit is inlined with some of its import statements turned into comments.  Two things are shown of
the text that results.  Its masked source shows, line by line, what the masked source of the unit
shows outside those statements.  And its import statements are the others, with the same
specifiers and on the same lines.

Both are proved along the statements of the source, and both need that no statement stands right
behind a slash of code.  The lines take more care: masking can blank out a line feed of a
statement, one behind a backslash in a literal, while the comment that the statement becomes keeps
it.
-/
import SolidityBundler.Proofs.Attribution
import SolidityBundler.Proofs.Index.Lookup
import SolidityBundler.Proofs.Source.Code
import SolidityBundler.Proofs.Source.Rewriting
import SolidityBundler.Text.Blank

namespace SolidityBundler

/-! ### What a masked source shows -/

/-- The characters that are no white space, and the line feeds. -/
def visible (t : Text) : Text := t.filter fun c => c == '\n' || !Text.isBlank c

/-- The characters that are no white space, line by line. -/
def visibleLines (t : Text) : List Text :=
  (Text.lines t).map fun line => line.filter (!Text.isBlank ·)

theorem visible_append (s t : Text) : visible (s ++ t) = visible s ++ visible t :=
  List.filter_append s t

private theorem lines_visible (t : Text) : Text.lines (visible t) = visibleLines t := by
  induction t with
  | nil => rfl
  | cons c rest ih =>
      obtain ⟨line, lines, hlines⟩ := List.exists_cons_of_ne_nil (Text.split_ne_nil '\n' rest)
      change Text.lines rest = line :: lines at hlines
      rw [visibleLines, hlines] at ih
      by_cases hfeed : c = '\n'
      · subst hfeed
        have hvisible : visible ('\n' :: rest) = '\n' :: visible rest := rfl
        rw [hvisible, visibleLines, Text.lines_cons_lineFeed, Text.lines_cons_lineFeed, ih, hlines]
        rfl
      · rw [visibleLines, Text.lines_cons_of_ne hfeed, hlines]
        cases hblank : Text.isBlank c with
        | true =>
            have hvisible : visible (c :: rest) = visible rest := by simp [visible, hfeed, hblank]
            rw [hvisible, ih]
            simp [Text.consFirst, hblank]
        | false =>
            have hvisible : visible (c :: rest) = c :: visible rest := by simp [visible, hblank]
            rw [hvisible, Text.lines_cons_of_ne hfeed, ih]
            simp [Text.consFirst, hblank]

private theorem visible_map_blanked (t : Text) :
    visible (t.map blanked) = List.replicate (Text.lineFeeds t) '\n' := by
  induction t with
  | nil => rfl
  | cons c rest ih =>
      have hsplit : visible ((c :: rest).map blanked)
          = visible [blanked c] ++ visible (rest.map blanked) := visible_append [blanked c] _
      rw [hsplit, ih]
      have hcount : Text.lineFeeds (c :: rest) = Text.lineFeeds [c] + Text.lineFeeds rest :=
        Text.lineFeeds_append [c] rest
      rw [hcount, List.replicate_add]
      refine congrArg (· ++ _) ?_
      by_cases hfeed : c = '\n'
      · subst hfeed
        rfl
      · have hblank : visible [' '] = [] := by decide
        simp [blanked, hfeed, Text.lineFeeds, hblank]

private theorem visible_replicate (n : Nat) :
    visible (List.replicate n '\n') = List.replicate n '\n' :=
  List.filter_eq_self.2 fun c hc => by rw [List.eq_of_mem_replicate hc]; rfl

/-- The line feeds of a statement. -/
def lineFeedsOf (text : Text) (edge : ImportEdge) : Text :=
  List.replicate (Text.lineFeeds (slice text edge.start edge.stop)) '\n'

/-- The masked source shows what it showed before outside the statements that are commented out. -/
theorem visible_mask_rewritten {source : Text} (hparses : Parses source) {p : ImportEdge → Bool}
    {name before maskedBefore : Text} (hlength : maskedBefore.length = before.length)
    (hslash : SlashFree (maskedBefore ++ mask source) ((edgesBehind name before source).filter p)) :
    visible (mask (rewritten p name before source))
      = visible (replaceFrom (maskedBefore ++ mask source) (lineFeedsOf (before ++ source))
          before.length ((edgesBehind name before source).filter p)) := by
  induction hparses generalizing before maskedBefore with
  | rest h =>
      rw [rewritten, edgesBehind, h, List.filterMap_nil, List.filter_nil, commentOutFrom,
        replaceFrom, List.drop_left, ← hlength, List.drop_left]
  | @first gap statement maskedGap maskedStatement rest h hrest ih =>
      have hlengths : (maskedBefore ++ maskedGap ++ maskedStatement).length
          = (before ++ gap ++ statement).length := by
        simp [hlength, h.length_gap, h.length_statement]
      have hih := ih hlengths (hslash.behind h)
      simp only [List.append_assoc] at hih
      rw [rewritten_first h, h.mask_append, replaceFrom_first h hlength h.length_gap
        h.length_statement]
      cases hedge : (edgeBetween? name (before ++ gap) statement rest).filter p with
      | none =>
          rw [Option.elim_none, Option.elim_none, h.mask_append]
          simp only [visible_append, List.append_assoc, hih]
      | some edge =>
          have hslice := slice_of_edgeBetween? (Option.filter_eq_some_iff.1 hedge).1
          rw [List.append_assoc] at hslice
          rw [Option.elim_some, Option.elim_some,
            h.mask_gap_append (hslash.inFront h hlength hedge), mask_commentedOut, lineFeedsOf,
            hslice]
          simp only [visible_append, visible_map_blanked, lineFeeds_commentedOut, visible_replicate,
            List.append_assoc, hih]

private theorem filter_not_toList_of_none {α : Type} {o : Option α} {p : α → Bool}
    (h : o.filter p = none) : o.toList.filter (!p ·) = o.toList := by
  cases o with
  | none => rfl
  | some a => simpa using h

private theorem filter_not_toList_of_some {α : Type} {o : Option α} {p : α → Bool} {a : α}
    (h : o.filter p = some a) : o.toList.filter (!p ·) = [] := by
  obtain ⟨rfl, hp⟩ := Option.filter_eq_some_iff.1 h
  simpa using hp

theorem spoken_rewritten {source : Text} (hparses : Parses source) {p : ImportEdge → Bool}
    {name before maskedBefore before' : Text} (hlength : maskedBefore.length = before.length)
    (hlines : Text.lineFeeds before' = Text.lineFeeds before)
    (hslash : SlashFree (maskedBefore ++ mask source) ((edgesBehind name before source).filter p)) :
    (edgesBehind name before' (rewritten p name before source)).map ImportEdge.spoken
      = ((edgesBehind name before source).filter (!p ·)).map ImportEdge.spoken := by
  induction hparses generalizing before maskedBefore before' with
  | rest h =>
      rw [rewritten, edgesBehind, edgesBehind, h, List.filterMap_nil, List.filter_nil,
        List.filter_nil, commentOutFrom, List.drop_left, h, List.filterMap_nil]
  | @first gap statement maskedGap maskedStatement rest h hrest ih =>
      have hlengths : (maskedBefore ++ maskedGap ++ maskedStatement).length
          = (before ++ gap ++ statement).length := by
        simp [hlength, h.length_gap, h.length_statement]
      rw [rewritten_first h, edgesBehind_first h, List.filter_append, List.map_append]
      cases hedge : (edgeBetween? name (before ++ gap) statement rest).filter p with
      | none =>
          have hfeeds : Text.lineFeeds (before' ++ gap ++ statement)
              = Text.lineFeeds (before ++ gap ++ statement) := by
            simp only [Text.lineFeeds_append, hlines]
          have hspoken := spoken_edgeBetween? name (before' ++ gap) statement
            (rewritten p name (before ++ gap ++ statement) rest)
          rw [Text.lineFeeds_append, hlines, ← Text.lineFeeds_append,
            ← spoken_edgeBetween? name (before ++ gap) statement rest] at hspoken
          rw [Option.elim_none, edgesBehind_first h, List.map_append,
            ih hlengths hfeeds (hslash.behind h), filter_not_toList_of_none hedge,
            ← Option.toList_map, ← Option.toList_map, hspoken]
      | some edge =>
          have hfeeds : Text.lineFeeds (before' ++ gap ++ commentedOut statement)
              = Text.lineFeeds (before ++ gap ++ statement) := by
            simp only [Text.lineFeeds_append, lineFeeds_commentedOut, hlines]
          rw [Option.elim_some, edgesBehind_commentedOut h (hslash.inFront h hlength hedge),
            ih hlengths hfeeds (hslash.behind h), filter_not_toList_of_some hedge]
          rfl

/-! ### The text of a unit -/

/-- A slash of code stands right in front of the statement. -/
def ImportEdge.BehindSlash (edge : ImportEdge) (source : Text) : Prop :=
  0 < edge.start ∧ source[edge.start - 1]? = some '/' ∧
    (classify source)[edge.start - 1]? = some .code

instance (edge : ImportEdge) (source : Text) : Decidable (edge.BehindSlash source) :=
  inferInstanceAs (Decidable (_ ∧ _))

/-- Masking leaves the lines of the statement as they are. -/
def ImportEdge.KeepsLines (edge : ImportEdge) (source : Text) : Prop :=
  Text.lineFeeds (slice (mask source) edge.start edge.stop)
    = Text.lineFeeds (slice source edge.start edge.stop)

instance (edge : ImportEdge) (source : Text) : Decidable (edge.KeepsLines source) :=
  inferInstanceAs (Decidable (_ = _))

/-- A masked text without the characters of statements.  Their line feeds stay, as they stand in
`lined`. -/
def withoutStatements (masked lined : Text) (edges : List ImportEdge) : Text :=
  replaceFrom masked (lineFeedsOf lined) 0 edges

private theorem replaceFrom_congr (text : Text) {f g : ImportEdge → Text} {edges : List ImportEdge}
    (h : ∀ edge ∈ edges, f edge = g edge) (cursor : Nat) :
    replaceFrom text f cursor edges = replaceFrom text g cursor edges := by
  induction edges generalizing cursor with
  | nil => rfl
  | cons edge edges ih =>
      rw [List.forall_mem_cons] at h
      rw [replaceFrom, replaceFrom, h.1, ih h.2]

theorem withoutStatements_mask {source : Text} {edges : List ImportEdge}
    (h : ∀ edge ∈ edges, edge.KeepsLines source) (masked : Text) :
    withoutStatements masked (mask source) edges = withoutStatements masked source edges :=
  replaceFrom_congr masked (fun edge hedge => by rw [lineFeedsOf, h edge hedge, lineFeedsOf]) 0

private theorem slashFree_of_not_behindSlash {source : Text} {edges : List ImportEdge}
    (hbounds : ∀ edge ∈ edges, edge.start < source.length)
    (h : ∀ edge ∈ edges, ¬ edge.BehindSlash source) : SlashFree (mask source) edges := by
  intro edge hedge hlast
  have hlt : edge.start - 1 < (mask source).length := by
    have := hbounds edge hedge
    rw [mask, length_maskFrom]
    omega
  rw [List.getLast?_take, List.getElem?_eq_getElem hlt, Option.some_or] at hlast
  split at hlast
  · simp at hlast
  · next hne =>
      rw [← List.getElem?_eq_getElem hlt] at hlast
      exact h edge hedge ⟨Nat.pos_of_ne_zero hne, (codeAt_iff (by decide)).2 hlast⟩

namespace Bundler

variable {index : UnitIndex} {b : Bundler} {unit : SourceUnit}

/-- **What the text of a unit hides and what it says.**  Unless a statement stands right behind a
slash of code, the masked source of the text shows on each line what the masked source of the unit
shows there outside the inlined statements; the lines of those statements are counted in the unit
itself, or in its masked source where masking keeps them.  And the import statements of the text
are those of the unit that refer to nothing, with the same specifiers on the same lines. -/
theorem inlinedText_hides_inlined (hkeyed : index.WellKeyed) (h : Reached index b)
    (hunit : unit ∈ index.units) (hslash : ∀ edge ∈ unit.imports, ¬ edge.BehindSlash unit.text) :
    visibleLines (mask (b.inlinedText unit).1)
      = visibleLines
          (withoutStatements (mask unit.text) unit.text (index.inlinedImports unit)) ∧
    ((∀ edge ∈ index.inlinedImports unit, edge.KeepsLines unit.text) →
      visibleLines (mask (b.inlinedText unit).1)
        = visibleLines
            (withoutStatements (mask unit.text) (mask unit.text) (index.inlinedImports unit))) ∧
    (importsOf unit.name (b.inlinedText unit).1).map ImportEdge.spoken
      = (unit.imports.filter fun edge => (index.target? unit.name edge.specifier).isNone).map
          ImportEdge.spoken := by
  have hbounds : ∀ edge ∈ unit.imports, edge.start < unit.text.length := by
    rw [unit.imports_eq]
    intro edge hedge
    have := (inOrder_importsOf unit.name unit.text).bounds edge hedge
    omega
  let p : ImportEdge → Bool := fun edge => (index.target? unit.name edge.specifier).isSome
  have hedges : unit.imports = edgesBehind unit.name [] unit.text := unit.imports_eq
  have htext : (b.inlinedText unit).1 = rewritten p unit.name [] unit.text := by
    rw [(h.sound hkeyed).inlinedText_eq hunit, UnitIndex.inlinedText, hedges]
    rfl
  have hfree : SlashFree (mask unit.text) ((edgesBehind unit.name [] unit.text).filter p) := by
    rw [← hedges]
    refine slashFree_of_not_behindSlash (fun edge hedge => ?_) fun edge hedge => ?_
    · exact hbounds edge (List.mem_filter.1 hedge).1
    · exact hslash edge (List.mem_filter.1 hedge).1
  have hempty : ([] : Text).length = ([] : Text).length := rfl
  have hvisible : visibleLines (mask (b.inlinedText unit).1)
      = visibleLines
          (withoutStatements (mask unit.text) unit.text (index.inlinedImports unit)) := by
    rw [htext, ← lines_visible, ← lines_visible,
      visible_mask_rewritten (parses unit.text) hempty hfree, UnitIndex.inlinedImports, hedges]
    rfl
  refine ⟨hvisible, fun hkeeps => ?_, ?_⟩
  · rw [withoutStatements_mask hkeeps, hvisible]
  · have hspoken := spoken_rewritten (parses unit.text) hempty
      (rfl : Text.lineFeeds [] = Text.lineFeeds []) hfree
    simp only [← hedges, p, Option.not_isSome] at hspoken
    rw [htext]
    exact hspoken

/-- A unit with two imports on one line, of which `b` refers to nothing. -/
def halfResolved : SourceUnit :=
  .ofText .project "m" "import \"a\"; import /* ; */ \"b\";\n// import \"a\";\nint z;" none

def halfResolvedIndex : UnitIndex :=
  .overTexts (.ofList [("m".toList, halfResolved.text), ("a".toList, [])]) .empty

/-- Of the two imports the second one is left. -/
theorem halfResolved_hides_first :
    halfResolvedIndex.WellKeyed ∧ Reached halfResolvedIndex (ofIndex halfResolvedIndex) ∧
      halfResolved ∈ halfResolvedIndex.units ∧
      (∀ edge ∈ halfResolved.imports, ¬ edge.BehindSlash halfResolved.text) ∧
      (∀ edge ∈ halfResolvedIndex.inlinedImports halfResolved, edge.KeepsLines halfResolved.text) ∧
      visibleLines (mask ((ofIndex halfResolvedIndex).inlinedText halfResolved).1)
        = ["import\"\";".toList, [], "intz;".toList] ∧
      (importsOf "m" ((ofIndex halfResolvedIndex).inlinedText halfResolved).1).map
        ImportEdge.spoken = [(['b'], 1)] := by
  have hkeyed : halfResolvedIndex.WellKeyed := UnitIndex.wellKeyed_unitsOf _ _ _
  have hunit : halfResolved ∈ halfResolvedIndex.units := by decide
  have hslash : ∀ edge ∈ halfResolved.imports, ¬ edge.BehindSlash halfResolved.text := by
    decide +kernel
  have hkeeps : ∀ edge ∈ halfResolvedIndex.inlinedImports halfResolved,
      edge.KeepsLines halfResolved.text := by
    decide +kernel
  obtain ⟨-, hlines, hspoken⟩ := inlinedText_hides_inlined hkeyed .new hunit hslash
  refine ⟨hkeyed, .new, hunit, hslash, hkeeps, ?_, ?_⟩
  · rw [hlines hkeeps]
    decide +kernel
  · rw [show ("m" : Text) = halfResolved.name from rfl, hspoken]
    decide +kernel

/-- A unit that imports `a` by a statement with a line feed behind a backslash in a literal. -/
def brokenLiteral : SourceUnit :=
  .ofText .project "m" "import \"a\" \"x\\\ny\";\nint z;" none

def brokenLiteralIndex : UnitIndex :=
  .overTexts (.ofList [("m".toList, brokenLiteral.text), ("a".toList, [])]) .empty

/-- Masking blanks that line feed out, so what follows stands one line higher in the masked source
of the unit than in that of its text. -/
theorem brokenLiteral_shifts_lines :
    brokenLiteralIndex.WellKeyed ∧ brokenLiteral ∈ brokenLiteralIndex.units ∧
      (∀ edge ∈ brokenLiteral.imports, ¬ edge.BehindSlash brokenLiteral.text) ∧
      brokenLiteralIndex.inlinedImports brokenLiteral = brokenLiteral.imports ∧
      visibleLines (mask ((ofIndex brokenLiteralIndex).inlinedText brokenLiteral).1)
        = [[], [], "intz;".toList] ∧
      visibleLines (withoutStatements (mask brokenLiteral.text) (mask brokenLiteral.text)
        brokenLiteral.imports) = [[], "intz;".toList] :=
  ⟨UnitIndex.wellKeyed_unitsOf _ _ _, by decide, by decide +kernel, by decide +kernel,
    by decide +kernel, by decide +kernel⟩

end Bundler

end SolidityBundler
