/-
A source with some of its statements commented out.

The import statements of a source are found from its beginning on, so those behind a statement are
found as if the source began there; `edgesBehind` are the statements of a source that stands behind
another text.  Commenting a statement out changes the source at that place alone: the gap in front
of it is masked as before, blanks stand in place of the statement, and the rest is read as the
source of its own that it was.  So a source is rewritten statement by statement, and `rewritten`
obeys an equation for the first of them.

The one thing that can spoil this is a slash of code right in front of the statement, which makes a
line comment of it.
-/
import SolidityBundler.Proofs.CommentOut
import SolidityBundler.Proofs.Source.Statements

namespace SolidityBundler

/-! ### Replacing statements -/

/-- The text from `cursor` on with something else in place of each statement of `edges`. -/
def replaceFrom (text : Text) (replacement : ImportEdge → Text) :
    (cursor : Nat) → List ImportEdge → Text
  | cursor, [] => text.drop cursor
  | cursor, edge :: edges =>
      slice text cursor edge.start ++ replacement edge ++
        replaceFrom text replacement edge.stop edges

theorem commentOutFrom_eq_replaceFrom (text : Text) (cursor : Nat) (edges : List ImportEdge) :
    commentOutFrom text cursor edges
      = replaceFrom text (fun edge => commentedOut (slice text edge.start edge.stop)) cursor
          edges := by
  induction edges generalizing cursor with
  | nil => rfl
  | cons edge edges ih => rw [commentOutFrom, replaceFrom, ih]

/-- Up to the first statement the text stays. -/
theorem replaceFrom_of_later (text : Text) (replacement : ImportEdge → Text)
    {cursor later : Nat} {edges : List ImportEdge} (hle : cursor ≤ later)
    (hlater : ∀ edge ∈ edges, later ≤ edge.start) :
    replaceFrom text replacement cursor edges
      = slice text cursor later ++ replaceFrom text replacement later edges := by
  cases edges with
  | nil => exact (slice_append_drop text hle).symm
  | cons edge edges =>
      rw [replaceFrom, replaceFrom,
        ← slice_append_slice text hle (hlater edge List.mem_cons_self)]
      simp

/-! ### Import statements behind a text -/

/-- The import statements of `source` where it stands behind `before`. -/
def edgesBehind (name before source : Text) : List ImportEdge :=
  (extentsFrom none false before.length (mask source)).filterMap (edgeAt? name (before ++ source))

/-- The edge of a statement between two texts. -/
def edgeBetween? (name front statement behind : Text) : Option ImportEdge :=
  edgeAt? name (front ++ (statement ++ behind)) (front.length, front.length + statement.length)

/-- What an import statement says, and on which line. -/
def ImportEdge.spoken (edge : ImportEdge) : Text × Nat := (edge.specifier, edge.position.line)

theorem slice_of_edgeBetween? {name front statement behind : Text} {edge : ImportEdge}
    (h : edgeBetween? name front statement behind = some edge) :
    slice (front ++ (statement ++ behind)) edge.start edge.stop = statement := by
  have hextent := extent_of_edgeAt? h
  rw [hextent.1, hextent.2, slice_middle]

private theorem le_start_of_mem_edgesBehind {name before source : Text} {edge : ImportEdge}
    (h : edge ∈ edgesBehind name before source) : before.length ≤ edge.start := by
  obtain ⟨extent, hextent, hedge⟩ := List.mem_filterMap.1 h
  rw [(extent_of_edgeAt? hedge).1]
  exact (bounds_of_mem_extentsFrom (by simp) hextent).1

/-- What a statement says depends on nothing but its text and the number of lines in front. -/
theorem spoken_edgeBetween? (name front statement behind : Text) :
    (edgeBetween? name front statement behind).map ImportEdge.spoken
      = (firstQuoted? statement).map fun specifier => (specifier, Text.lineFeeds front + 1) := by
  rw [edgeBetween?, edgeAt?, slice_middle, Option.map_map]
  refine congrFun (congrArg _ (funext fun specifier => ?_)) _
  rw [Function.comp, ImportEdge.spoken, Text.line_positionAt, List.take_left]

private theorem filterMap_cons_eq_append {α β : Type} (f : α → Option β) (a : α) (l : List α) :
    (a :: l).filterMap f = (f a).toList ++ l.filterMap f := by
  cases h : f a <;> simp [h]

section First

variable {gap statement maskedGap maskedStatement : Text}

theorem edgesBehind_first (h : FirstStatement gap statement maskedGap maskedStatement)
    (name before rest : Text) :
    edgesBehind name before (gap ++ (statement ++ rest))
      = (edgeBetween? name (before ++ gap) statement rest).toList ++
          edgesBehind name (before ++ gap ++ statement) rest := by
  have hwhole : before ++ (gap ++ (statement ++ rest)) = before ++ gap ++ (statement ++ rest) :=
    (List.append_assoc _ _ _).symm
  have hbehind : before ++ gap ++ statement ++ rest = before ++ gap ++ (statement ++ rest) :=
    List.append_assoc _ _ _
  rw [edgesBehind, h.mask_append, h.leads.found, filterMap_cons_eq_append, h.length_gap,
    h.length_statement, hwhole, edgeBetween?, edgesBehind, hbehind]
  simp only [List.length_append]

private theorem isMaskBlank_blanked (c : Char) : isMaskBlank (blanked c) = true := by
  unfold blanked
  split
  · next h =>
      subst h
      decide
  · decide

/-- In place of a statement that is commented out no statement is found. -/
theorem edgesBehind_commentedOut (h : FirstStatement gap statement maskedGap maskedStatement)
    (hslash : maskedGap.getLast? ≠ some '/') (name before rest : Text) :
    edgesBehind name before (gap ++ (commentedOut statement ++ rest))
      = edgesBehind name (before ++ gap ++ commentedOut statement) rest := by
  have hne : (commentedOut statement).map blanked ≠ [] := by simp [commentedOut]
  have hblank : ∀ c ∈ (commentedOut statement).map blanked, isMaskBlank c = true := by
    simp [isMaskBlank_blanked]
  have hwhole : before ++ (gap ++ (commentedOut statement ++ rest))
      = before ++ gap ++ commentedOut statement ++ rest := by simp
  rw [edgesBehind, h.mask_gap_append hslash, mask_commentedOut,
    h.leads.skipped _ _ _ hne hblank, h.length_gap, List.length_map, hwhole, edgesBehind,
    List.length_append, List.length_append]

/-- Replacing the statements of a source begins with its first one.  The text they are replaced in
may be the source or another one of the same length, such as the masked source. -/
theorem replaceFrom_first (h : FirstStatement gap statement maskedGap maskedStatement)
    {name before rest front gapText statementText behind : Text}
    (hfront : front.length = before.length) (hgap : gapText.length = gap.length)
    (hstatement : statementText.length = statement.length)
    (replacement : ImportEdge → Text) (p : ImportEdge → Bool) :
    replaceFrom (front ++ (gapText ++ (statementText ++ behind))) replacement before.length
        ((edgesBehind name before (gap ++ (statement ++ rest))).filter p)
      = gapText ++
          (((edgeBetween? name (before ++ gap) statement rest).filter p).elim statementText
              replacement ++
            replaceFrom (front ++ (gapText ++ (statementText ++ behind))) replacement
              (before ++ gap ++ statement).length
              ((edgesBehind name (before ++ gap ++ statement) rest).filter p)) := by
  have hstop : (before ++ gap ++ statement).length
      = (before ++ gap).length + statement.length := List.length_append
  have hgapSlice : slice (front ++ (gapText ++ (statementText ++ behind))) before.length
      (before ++ gap).length = gapText := by
    rw [List.length_append, ← hfront, ← hgap, slice_middle]
  rw [edgesBehind_first h, List.filter_append, ← Option.toList_filter]
  cases hedge : (edgeBetween? name (before ++ gap) statement rest).filter p with
  | none =>
      have hbothSlice : slice (front ++ (gapText ++ (statementText ++ behind))) before.length
          (before ++ gap ++ statement).length = gapText ++ statementText := by
        rw [← List.append_assoc gapText, hstop, List.length_append, ← hfront, ← hgap, ← hstatement,
          Nat.add_assoc, ← List.length_append, slice_middle]
      rw [Option.toList_none, List.nil_append, replaceFrom_of_later _ _ (by simp)
        (fun edge hedge => le_start_of_mem_edgesBehind (List.mem_filter.1 hedge).1), hbothSlice,
        List.append_assoc]
      rfl
  | some edge =>
      have hextent := extent_of_edgeAt? (Option.filter_eq_some_iff.1 hedge).1
      rw [Option.toList_some, List.singleton_append, replaceFrom, hextent.1, hextent.2, ← hstop,
        hgapSlice, List.append_assoc]
      rfl

/-- `source` behind `before`, with the statements that `p` picks commented out. -/
def rewritten (p : ImportEdge → Bool) (name before source : Text) : Text :=
  commentOutFrom (before ++ source) before.length ((edgesBehind name before source).filter p)

theorem rewritten_first (h : FirstStatement gap statement maskedGap maskedStatement)
    (p : ImportEdge → Bool) (name before rest : Text) :
    rewritten p name before (gap ++ (statement ++ rest))
      = gap ++
          (((edgeBetween? name (before ++ gap) statement rest).filter p).elim statement
              (fun _ => commentedOut statement) ++
            rewritten p name (before ++ gap ++ statement) rest) := by
  have hwhole : before ++ gap ++ statement ++ rest = before ++ (gap ++ (statement ++ rest)) := by
    simp
  rw [rewritten, rewritten, commentOutFrom_eq_replaceFrom, commentOutFrom_eq_replaceFrom, hwhole,
    replaceFrom_first h rfl rfl rfl]
  cases hedge : (edgeBetween? name (before ++ gap) statement rest).filter p with
  | none => rfl
  | some edge =>
      have hslice := slice_of_edgeBetween? (Option.filter_eq_some_iff.1 hedge).1
      rw [List.append_assoc] at hslice
      rw [Option.elim_some, Option.elim_some, hslice]

/-! ### Slashes in front of statements -/

/-- No statement stands right behind a slash of code. -/
def SlashFree (masked : Text) (edges : List ImportEdge) : Prop :=
  ∀ edge ∈ edges, (masked.take edge.start).getLast? ≠ some '/'

variable {p : ImportEdge → Bool} {name before maskedBefore rest : Text}

theorem SlashFree.inFront (h : FirstStatement gap statement maskedGap maskedStatement)
    (hlength : maskedBefore.length = before.length)
    (hslash : SlashFree (maskedBefore ++ mask (gap ++ (statement ++ rest)))
      ((edgesBehind name before (gap ++ (statement ++ rest))).filter p))
    {edge : ImportEdge}
    (hedge : (edgeBetween? name (before ++ gap) statement rest).filter p = some edge) :
    maskedGap.getLast? ≠ some '/' := by
  have hmem : edge ∈ (edgesBehind name before (gap ++ (statement ++ rest))).filter p := by
    rw [edgesBehind_first h, List.filter_append, ← Option.toList_filter, hedge]
    simp
  have hstart := (extent_of_edgeAt? (Option.filter_eq_some_iff.1 hedge).1).1
  have hfree := hslash edge hmem
  rw [h.mask_append, hstart, ← List.append_assoc,
    List.take_left' (by simp [hlength, h.length_gap]), List.getLast?_append] at hfree
  intro hlast
  exact hfree (by rw [hlast]; rfl)

theorem SlashFree.behind (h : FirstStatement gap statement maskedGap maskedStatement)
    (hslash : SlashFree (maskedBefore ++ mask (gap ++ (statement ++ rest)))
      ((edgesBehind name before (gap ++ (statement ++ rest))).filter p)) :
    SlashFree (maskedBefore ++ maskedGap ++ maskedStatement ++ mask rest)
      ((edgesBehind name (before ++ gap ++ statement) rest).filter p) := by
  intro edge hedge
  have hfree := hslash edge (by
    rw [edgesBehind_first h, List.filter_append]
    exact List.mem_append_right _ hedge)
  rw [h.mask_append] at hfree
  simpa using hfree

end First

end SolidityBundler
