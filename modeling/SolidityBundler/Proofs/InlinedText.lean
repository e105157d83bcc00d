/-
What commenting statements out leaves of a unit.

The text of a unit is cut at offsets that no inlined statement stands across.  What stands in front
of such an offset is inlined the same whatever follows, so its length is the place that the offset
moves to.  Between two offsets without a statement in between the text stays as it is, and from the
beginning of a statement to its end it becomes a comment.

From this everything else follows.  A statement that stays is found at the places of its offsets,
and so is a comment, and putting the statement back there for each comment gives the unit again.  A
line that no inlined statement touches stays together with the line feeds around it, because a
statement ends with a semicolon and so never with the line feed in front of a line.
-/
import SolidityBundler.Proofs.Attribution
import SolidityBundler.Proofs.ImportStatements
import SolidityBundler.Proofs.Index.Lookup
import SolidityBundler.Proofs.Source.Rewriting

namespace SolidityBundler

/-! ### Cutting a text -/

section Cut

variable {text : Text} {cursor m n : Nat} {edges : List ImportEdge} {edge : ImportEdge}

/-- No statement stands across the offset. -/
def Between (edges : List ImportEdge) (m : Nat) : Prop :=
  ∀ edge ∈ edges, edge.stop ≤ m ∨ m ≤ edge.start

private theorem commentOutFrom_of_le (hle : cursor ≤ m) (hlater : ∀ edge ∈ edges, m ≤ edge.start) :
    commentOutFrom text cursor edges
      = slice text cursor m ++ commentOutFrom text m edges := by
  rw [commentOutFrom_eq_replaceFrom, commentOutFrom_eq_replaceFrom,
    replaceFrom_of_later _ _ hle hlater]

private theorem commentOutFrom_of_closes
    (hlater : ∀ edge ∈ edges, cursor < edge.start ∧ edge.start < text.length)
    (hcloses : text.drop cursor = [] ∨ ∃ after, text.drop cursor = '\n' :: after) :
    commentOutFrom text cursor edges = [] ∨
      ∃ after, commentOutFrom text cursor edges = '\n' :: after := by
  rcases hcloses with hend | ⟨after, hafter⟩
  · have hnone : edges = [] := by
      refine List.eq_nil_iff_forall_not_mem.2 ?_
      intro edge hedge
      have := hlater edge hedge
      rw [List.drop_eq_nil_iff] at hend
      omega
    rw [hnone, commentOutFrom]
    exact Or.inl hend
  · have hfeed : slice text cursor (cursor + 1) = ['\n'] := by
      rw [slice, Nat.add_sub_cancel_left, hafter]
      rfl
    rw [commentOutFrom_of_le (Nat.le_succ cursor) fun edge hedge => (hlater edge hedge).1, hfeed]
    exact Or.inr ⟨_, rfl⟩

/-- **At an offset that no statement stands across the text is cut in two**, and each part is
written with the statements in it as comments. -/
theorem commentOutFrom_cut (h : InOrder cursor text.length edges) (hcursor : cursor ≤ m)
    (hbetween : Between edges m) :
    commentOutFrom text cursor edges
      = commentOutFrom (text.take m) cursor (edges.filter fun edge => edge.stop ≤ m) ++
          commentOutFrom text m (edges.filter fun edge => m ≤ edge.start) := by
  induction edges generalizing cursor with
  | nil =>
      rw [List.filter_nil, List.filter_nil, commentOutFrom, commentOutFrom, commentOutFrom,
        List.drop_take]
      exact (slice_append_drop text hcursor).symm
  | cons edge edges ih =>
      have hbounds := h.bounds edge List.mem_cons_self
      rw [Between, List.forall_mem_cons] at hbetween
      rcases hbetween.1 with hstop | hstart
      · have hnot : ¬ m ≤ edge.start := by omega
        rw [List.filter_cons_of_pos (by simpa using hstop),
          List.filter_cons_of_neg (by simpa using hnot), commentOutFrom, commentOutFrom,
          ih h.tail hstop hbetween.2, slice_take text hstop, slice_take text (by omega)]
        simp
      · -- The other statements stand behind this one.
        have hlater : ∀ later ∈ edge :: edges, m ≤ later.start := by
          intro later hlater
          rcases List.mem_cons.1 hlater with rfl | hlater
          · exact hstart
          · have := (h.tail.bounds later hlater).1
            omega
        have hnone : (edge :: edges).filter (fun edge => edge.stop ≤ m) = [] := by
          refine List.filter_eq_nil_iff.2 ?_
          intro later hmem
          have := hlater later hmem
          have := h.bounds later hmem
          simp only [decide_eq_true_eq]
          omega
        have hall : (edge :: edges).filter (fun edge => m ≤ edge.start) = edge :: edges :=
          List.filter_eq_self.2 fun later hmem => by simpa using hlater later hmem
        rw [hnone, hall, commentOutFrom_of_le hcursor hlater, commentOutFrom, List.drop_take]
        rfl

end Cut

/-- The text from `cursor` on with other pieces in place of the given parts. -/
def substitute (text : Text) : (cursor : Nat) → List ((Nat × Nat) × Text) → Text
  | cursor, [] => text.drop cursor
  | cursor, ((start, stop), piece) :: edits =>
      slice text cursor start ++ piece ++ substitute text stop edits

/-- A character of the statement stands on the line with the given number. -/
def ImportEdge.Touches (edge : ImportEdge) (text : Text) (number : Nat) : Prop :=
  ∃ offset < edge.stop, edge.start ≤ offset ∧ (Text.positionAt text offset).line = number

instance (edge : ImportEdge) (text : Text) (number : Nat) : Decidable (edge.Touches text number) :=
  inferInstanceAs (Decidable (∃ offset < edge.stop, _))

namespace UnitIndex

variable {index : UnitIndex} {unit : SourceUnit} {m n : Nat} {edge : ImportEdge}

/-- Where an offset of a unit stands in its text. -/
def placeOf (index : UnitIndex) (unit : SourceUnit) (offset : Nat) : Nat :=
  (index.inlinedFront unit offset).length

/-- In front of an offset that no inlined statement stands across the text is `inlinedFront`. -/
theorem inlinedText_cut (hbetween : Between (index.inlinedImports unit) m) :
    index.inlinedText unit = index.inlinedFront unit m ++
      commentOutFrom unit.text m ((index.inlinedImports unit).filter fun edge => m ≤ edge.start) :=
  commentOutFrom_cut (index.inOrder_inlinedImports unit) (Nat.zero_le m) hbetween

theorem inlinedFront_cut (hmn : m ≤ n) (hn : n ≤ unit.text.length)
    (hbetween : Between (index.inlinedImports unit) m) :
    index.inlinedFront unit n = index.inlinedFront unit m ++
      commentOutFrom (unit.text.take n) m
        ((index.inlinedImports unit).filter fun edge => m ≤ edge.start && edge.stop ≤ n) := by
  have hcut := commentOutFrom_cut (inOrder_filter_stop index hn) (Nat.zero_le m)
    fun edge hedge => hbetween edge (List.mem_filter.1 hedge).1
  have hfront : ∀ edge : ImportEdge, (decide (edge.stop ≤ m) && decide (edge.stop ≤ n))
      = decide (edge.stop ≤ m) := by
    intro edge
    rw [Bool.and_eq_left_iff_imp]
    simp only [decide_eq_true_eq]
    omega
  rw [List.take_take, Nat.min_eq_left hmn, List.filter_filter, List.filter_filter] at hcut
  simp only [hfront] at hcut
  exact hcut

/-- **Where no inlined statement stands the text goes on as the unit does.** -/
theorem inlinedFront_of_gap (hmn : m ≤ n) (hn : n ≤ unit.text.length)
    (hgap : ∀ edge ∈ index.inlinedImports unit, edge.stop ≤ m ∨ n ≤ edge.start) :
    index.inlinedFront unit n = index.inlinedFront unit m ++ slice unit.text m n := by
  have hbetween : Between (index.inlinedImports unit) m := fun edge hedge =>
    (hgap edge hedge).imp_right (Nat.le_trans hmn)
  have hnone : (index.inlinedImports unit).filter (fun edge => m ≤ edge.start && edge.stop ≤ n)
      = [] := by
    refine List.filter_eq_nil_iff.2 fun edge hedge => ?_
    have hbounds := (index.inOrder_inlinedImports unit).bounds edge hedge
    have := hgap edge hedge
    simp only [Bool.and_eq_true, decide_eq_true_eq]
    omega
  rw [inlinedFront_cut hmn hn hbetween, hnone, commentOutFrom, List.drop_take]
  rfl

private theorem between_of_mem (hedge : edge ∈ index.inlinedImports unit) :
    Between (index.inlinedImports unit) edge.start ∧
      Between (index.inlinedImports unit) edge.stop := by
  have horder := index.inOrder_inlinedImports unit
  constructor
  all_goals
    intro other hother
    have := horder.bounds other hother
    rcases horder.eq_or_apart hedge hother with rfl | hapart
    · omega
    · have := horder.bounds edge hedge
      omega

/-- **An inlined statement becomes a comment.** -/
theorem inlinedFront_of_mem (hedge : edge ∈ index.inlinedImports unit) :
    index.inlinedFront unit edge.stop = index.inlinedFront unit edge.start ++
      commentedOut (slice unit.text edge.start edge.stop) := by
  have horder := index.inOrder_inlinedImports unit
  have hbounds := horder.bounds edge hedge
  have honly : (index.inlinedImports unit).filter
      (fun other => edge.start ≤ other.start && other.stop ≤ edge.stop) = [edge] := by
    have hiff : ∀ other ∈ index.inlinedImports unit,
        (decide (edge.start ≤ other.start) && decide (other.stop ≤ edge.stop))
          = (other == edge) := by
      intro other hother
      rw [Bool.eq_iff_iff, Bool.and_eq_true, decide_eq_true_eq, decide_eq_true_eq, beq_iff_eq]
      constructor
      · intro hinside
        have := horder.bounds other hother
        exact (horder.eq_or_apart hedge hother).resolve_right (by omega)
      · rintro rfl
        exact ⟨Nat.le_refl _, Nat.le_refl _⟩
    rw [List.filter_congr hiff, List.filter_beq, List.count_eq_one_of_mem horder.nodup hedge]
    rfl
  have hempty : slice (unit.text.take edge.stop) edge.start edge.start = [] := by
    rw [slice, Nat.sub_self, List.take_zero]
  have hrest : (unit.text.take edge.stop).drop edge.stop = [] := by
    rw [List.drop_take, Nat.sub_self, List.take_zero]
  rw [inlinedFront_cut (Nat.le_of_lt hbounds.2.1) hbounds.2.2 (between_of_mem hedge).1, honly,
    commentOutFrom, commentOutFrom, hempty, hrest, slice_take unit.text (Nat.le_refl _),
    List.nil_append, List.append_nil]

theorem slice_inlinedText {piece : Text} (hbetween : Between (index.inlinedImports unit) n)
    (hpiece : index.inlinedFront unit n = index.inlinedFront unit m ++ piece) :
    slice (index.inlinedText unit) (index.placeOf unit m) (index.placeOf unit n) = piece := by
  have hlength : index.placeOf unit n = index.placeOf unit m + piece.length := by
    rw [placeOf, hpiece, List.length_append]
    rfl
  rw [inlinedText_cut hbetween, hpiece, hlength, List.append_assoc]
  exact slice_middle _ _ _

/-! ### Putting the statements back -/

/-- What puts a statement back in place of its comment. -/
def putBack (index : UnitIndex) (unit : SourceUnit) (edge : ImportEdge) : (Nat × Nat) × Text :=
  ((index.placeOf unit edge.start, index.placeOf unit edge.stop),
    slice unit.text edge.start edge.stop)

private theorem substitute_putBack {before after : List ImportEdge}
    (hedges : index.inlinedImports unit = before ++ after)
    (hbefore : ∀ edge ∈ before, edge.stop ≤ m) (hafter : ∀ edge ∈ after, m ≤ edge.start) :
    substitute (index.inlinedText unit) (index.placeOf unit m) (after.map (index.putBack unit))
      = unit.text.drop m := by
  have horder := index.inOrder_inlinedImports unit
  induction after generalizing before m with
  | nil =>
      have hstops : ∀ edge ∈ index.inlinedImports unit, edge.stop ≤ m := by
        rwa [hedges, List.append_nil]
      have hnone : (index.inlinedImports unit).filter (fun edge => m ≤ edge.start) = [] := by
        refine List.filter_eq_nil_iff.2 fun edge hedge => ?_
        have := horder.bounds edge hedge
        have := hstops edge hedge
        simp only [decide_eq_true_eq]
        omega
      rw [List.map_nil, substitute, inlinedText_cut fun edge hedge => Or.inl (hstops edge hedge),
        hnone, placeOf, List.drop_left, commentOutFrom]
  | cons edge after ih =>
      have hedge : edge ∈ index.inlinedImports unit := by
        rw [hedges]
        simp
      have hbounds := horder.bounds edge hedge
      have hstart := hafter edge List.mem_cons_self
      obtain ⟨-, hcons, -⟩ := List.pairwise_append.1 (hedges ▸ horder.apart)
      have hlater := (List.pairwise_cons.1 hcons).1
      have hgap : ∀ other ∈ index.inlinedImports unit,
          other.stop ≤ m ∨ edge.start ≤ other.start := by
        intro other hother
        rw [hedges, List.mem_append, List.mem_cons] at hother
        rcases hother with hother | rfl | hother
        · exact Or.inl (hbefore other hother)
        · exact Or.inr (Nat.le_refl _)
        · have := hlater other hother
          exact Or.inr (by omega)
      have hearlier : ∀ other ∈ before ++ [edge], other.stop ≤ edge.stop := by
        intro other hother
        rcases List.mem_append.1 hother with hother | hother
        · have := hbefore other hother
          omega
        · rw [List.mem_singleton.1 hother]
      have hfront := inlinedFront_of_gap hstart (by omega) hgap
      rw [List.map_cons, putBack, substitute,
        slice_inlinedText (between_of_mem hedge).1 hfront,
        ih (by simp [hedges]) hearlier hlater, List.append_assoc,
        slice_append_drop unit.text (Nat.le_of_lt hbounds.2.1), slice_append_drop unit.text hstart]

/-! ### Lines -/

private theorem getElem?_stop_sub_one (hedge : edge ∈ index.inlinedImports unit) :
    unit.text[edge.stop - 1]? = some ';' := by
  rw [inlinedImports, unit.imports_eq] at hedge
  exact (declares_of_mem_importsOf (List.mem_filter.1 hedge).1).statement.ends.1

theorem apart_of_not_touches {front line rest : Text} {i : Nat}
    (hline : Text.IsLine unit.text i front line rest) (hedge : edge ∈ index.inlinedImports unit)
    (h : ¬ edge.Touches unit.text (i + 1)) :
    edge.stop ≤ front.length ∨ front.length + line.length < edge.start := by
  have hbounds := (index.inOrder_inlinedImports unit).bounds edge hedge
  by_contra hnot
  have hfirst : front.length ≤ max front.length edge.start := Nat.le_max_left _ _
  have hlast : max front.length edge.start ≤ front.length + line.length := by omega
  exact h ⟨max front.length edge.start, by omega, Nat.le_max_right _ _,
    hline.line_positionAt hfirst hlast⟩

private theorem inlinedFront_zero (index : UnitIndex) (unit : SourceUnit) :
    index.inlinedFront unit 0 = [] := by
  have hnone : (index.inlinedImports unit).filter (fun edge => edge.stop ≤ 0) = [] := by
    refine List.filter_eq_nil_iff.2 fun edge hedge => ?_
    have := (index.inOrder_inlinedImports unit).bounds edge hedge
    simp only [decide_eq_true_eq]
    omega
  rw [inlinedFront, hnone, List.take_zero]
  rfl

private theorem inlinedFront_of_lineFeed {before after : Text}
    (htext : unit.text = before ++ '\n' :: after)
    (hbetween : Between (index.inlinedImports unit) (before.length + 1)) :
    index.inlinedFront unit (before.length + 1)
      = index.inlinedFront unit before.length ++ ['\n'] := by
  have hslice : slice unit.text before.length (before.length + 1) = ['\n'] := by
    rw [htext]
    exact slice_middle before ['\n'] after
  rw [← hslice]
  refine inlinedFront_of_gap (Nat.le_succ _) (by simp [htext]) ?_
  intro edge hedge
  refine (hbetween edge hedge).imp_left fun hstop => ?_
  -- A statement that ended at the line feed would end with it.
  have hne : edge.stop ≠ before.length + 1 := by
    intro heq
    have hlast := getElem?_stop_sub_one hedge
    rw [heq, Nat.add_sub_cancel, htext, List.getElem?_append_right (Nat.le_refl _),
      Nat.sub_self] at hlast
    exact absurd (Option.some.inj hlast) (by decide)
  omega

private theorem inlinedFront_of_opens {front rest : Text} (htext : unit.text = front ++ rest)
    (hbetween : Between (index.inlinedImports unit) front.length)
    (hopens : front = [] ∨ ∃ before, front = before ++ ['\n']) :
    index.inlinedFront unit front.length = [] ∨
      ∃ before, index.inlinedFront unit front.length = before ++ ['\n'] := by
  rcases hopens with rfl | ⟨before, rfl⟩
  · exact Or.inl (inlinedFront_zero index unit)
  · rw [List.length_append, List.length_singleton] at hbetween ⊢
    have hfeed : unit.text = before ++ '\n' :: rest := by simp [htext]
    exact Or.inr ⟨_, inlinedFront_of_lineFeed hfeed hbetween⟩

theorem isLine_inlinedText {front line rest : Text} {i : Nat}
    (hline : Text.IsLine unit.text i front line rest)
    (huntouched : ∀ edge ∈ index.inlinedImports unit, ¬ edge.Touches unit.text (i + 1)) :
    ∃ front' rest', Text.IsLine (index.inlinedText unit) i front' line rest' := by
  have haway := fun edge hedge => apart_of_not_touches hline hedge (huntouched edge hedge)
  have hlength : unit.text.length = front.length + (line.length + rest.length) := by
    rw [hline.written, List.length_append, List.length_append]
  have hgap := inlinedFront_of_gap (Nat.le_add_right front.length line.length) (by omega)
    fun edge hedge => (haway edge hedge).imp_right Nat.le_of_lt
  have hcut := inlinedText_cut fun edge hedge =>
    (haway edge hedge).imp (Nat.le_trans · (Nat.le_add_right _ line.length)) Nat.le_of_lt
  have hslice : slice unit.text front.length (front.length + line.length) = line := by
    rw [hline.written, slice_middle]
  rw [hgap, hslice, List.append_assoc] at hcut
  refine ⟨index.inlinedFront unit front.length, _, hcut, ?_, hline.unbroken, ?_, ?_⟩
  · rw [lineFeeds_inlinedFront_take index (by omega), hline.written, List.take_left, hline.number]
  · refine inlinedFront_of_opens hline.written ?_ hline.opens
    intro edge hedge
    have := haway edge hedge
    omega
  · have hrest : unit.text.drop (front.length + line.length) = rest := by
      rw [hline.written, ← List.append_assoc, ← List.length_append, List.drop_left]
    refine commentOutFrom_of_closes ?_ (by rw [hrest]; exact hline.closes)
    intro edge hedge
    obtain ⟨hmem, hle⟩ := List.mem_filter.1 hedge
    have hbounds := (index.inOrder_inlinedImports unit).bounds edge hmem
    have hside := haway edge hmem
    rw [decide_eq_true_eq] at hle
    omega

theorem getElem?_lines_inlinedText {i : Nat}
    (huntouched : ∀ edge ∈ index.inlinedImports unit, ¬ edge.Touches unit.text (i + 1)) :
    (Text.lines (index.inlinedText unit))[i]? = (Text.lines unit.text)[i]? := by
  have hfeeds : Text.lineFeeds (index.inlinedText unit) = Text.lineFeeds unit.text :=
    lineFeeds_commentOutFrom (index.inOrder_inlinedImports unit)
  cases hfound : (Text.lines unit.text)[i]? with
  | none =>
      rw [List.getElem?_eq_none_iff, Text.length_lines] at hfound ⊢
      rw [hfeeds]
      exact hfound
  | some line =>
      obtain ⟨front, rest, hline⟩ := Text.exists_isLine hfound
      obtain ⟨front', rest', hline'⟩ := isLine_inlinedText hline huntouched
      exact hline'.getElem?_lines

end UnitIndex

namespace Bundler

variable {index : UnitIndex} {b : Bundler} {unit : SourceUnit}

/-- **The text of a unit differs from it at the inlined statements, and there only.**  It has as
many line feeds, and a line that no inlined statement touches is the same.  A statement that refers
to nothing stands as it is at the places of its offsets, and one that is inlined stands there as a
comment; with the statements put back in place of those comments the text is that of the unit. -/
theorem inlinedText_keeps_rest (hkeyed : index.WellKeyed) (h : Reached index b)
    (hunit : unit ∈ index.units) :
    let text := (b.inlinedText unit).1
    let place := index.placeOf unit
    Text.lineFeeds text = Text.lineFeeds unit.text ∧
    (∀ i, (∀ edge ∈ index.inlinedImports unit, ¬ edge.Touches unit.text (i + 1)) →
      (Text.lines text)[i]? = (Text.lines unit.text)[i]?) ∧
    (∀ edge ∈ unit.imports, index.target? unit.name edge.specifier = none →
      slice text (place edge.start) (place edge.stop)
        = slice unit.text edge.start edge.stop) ∧
    (∀ edge ∈ index.inlinedImports unit,
      slice text (place edge.start) (place edge.stop)
        = commentedOut (slice unit.text edge.start edge.stop)) ∧
    substitute text 0 ((index.inlinedImports unit).map fun edge =>
      ((place edge.start, place edge.stop), slice unit.text edge.start edge.stop)) = unit.text := by
  intro text place
  have horder := index.inOrder_inlinedImports unit
  have htext : text = index.inlinedText unit := (h.sound hkeyed).inlinedText_eq hunit
  rw [htext]
  refine ⟨lineFeeds_commentOutFrom horder, fun i => UnitIndex.getElem?_lines_inlinedText, ?_, ?_,
    ?_⟩
  · intro edge hedge hnone
    have hall : InOrder 0 unit.text.length unit.imports := by
      rw [unit.imports_eq]
      exact inOrder_importsOf unit.name unit.text
    have hbounds := hall.bounds edge hedge
    have hgap : ∀ other ∈ index.inlinedImports unit,
        other.stop ≤ edge.start ∨ edge.stop ≤ other.start := by
      intro other hother
      obtain ⟨hmem, hsome⟩ := List.mem_filter.1 hother
      refine (hall.eq_or_apart hedge hmem).resolve_left ?_
      rintro rfl
      rw [hnone] at hsome
      exact Bool.noConfusion hsome
    refine UnitIndex.slice_inlinedText ?_
      (UnitIndex.inlinedFront_of_gap (Nat.le_of_lt hbounds.2.1) hbounds.2.2 hgap)
    intro other hother
    have := horder.bounds other hother
    have := hgap other hother
    omega
  · intro edge hedge
    exact UnitIndex.slice_inlinedText (UnitIndex.between_of_mem hedge).2
      (UnitIndex.inlinedFront_of_mem hedge)
  · have hrest : substitute (index.inlinedText unit) (index.placeOf unit 0)
        ((index.inlinedImports unit).map (index.putBack unit)) = unit.text.drop 0 :=
      UnitIndex.substitute_putBack (List.nil_append _).symm (by simp) (by simp)
    rw [UnitIndex.placeOf, UnitIndex.inlinedFront_zero] at hrest
    exact hrest

/-- A unit with three imports in a row, of which `b` refers to nothing, and one over two lines. -/
def interleaved : SourceUnit :=
  .ofText .project "m"
    "import \"a\";import \"b\";import \"a\"/*x*/;\nint y;\nimport\n\"a\";" none

def interleavedIndex : UnitIndex :=
  .overTexts (.ofList [("m".toList, interleaved.text), ("a".toList, [])]) .empty

/-- The statement in the middle stays between two comments, and so does the line behind them. -/
theorem interleaved_keeps_rest :
    interleavedIndex.WellKeyed ∧ Reached interleavedIndex (ofIndex interleavedIndex) ∧
      interleaved ∈ interleavedIndex.units ∧
      (∃ edge ∈ interleaved.imports, edge.start = 11 ∧ edge.stop = 22 ∧
        interleavedIndex.target? interleaved.name edge.specifier = none) ∧
      (∀ edge ∈ interleavedIndex.inlinedImports interleaved, ¬ edge.Touches interleaved.text 2) ∧
      let text := ((ofIndex interleavedIndex).inlinedText interleaved).1
      Text.lineFeeds text = 3 ∧ (Text.lines text)[1]? = some "int y;".toList ∧
        slice text 17 28 = "import \"b\";".toList := by
  have hkeyed : interleavedIndex.WellKeyed := UnitIndex.wellKeyed_unitsOf _ _ _
  have hunit : interleaved ∈ interleavedIndex.units := by decide
  have huntouched : ∀ edge ∈ interleavedIndex.inlinedImports interleaved,
      ¬ edge.Touches interleaved.text 2 := by
    decide +kernel
  have hmiddle : ∃ edge ∈ interleaved.imports, edge.start = 11 ∧ edge.stop = 22 ∧
      interleavedIndex.target? interleaved.name edge.specifier = none := by
    decide +kernel
  obtain ⟨hfeeds, hlines, hkept, -, -⟩ := inlinedText_keeps_rest hkeyed .new hunit
  refine ⟨hkeyed, .new, hunit, hmiddle, huntouched, ?_, ?_, ?_⟩
  · rw [hfeeds]
    decide +kernel
  · rw [hlines 1 huntouched]
    decide +kernel
  · obtain ⟨edge, hedge, hstart, hstop, hnone⟩ := hmiddle
    have hslice := hkept edge hedge hnone
    rw [hstart, hstop] at hslice
    have hplaces : interleavedIndex.placeOf interleaved 11 = 17 ∧
        interleavedIndex.placeOf interleaved 22 = 28 := by
      decide +kernel
    rw [← hplaces.1, ← hplaces.2, hslice]
    decide +kernel

end Bundler

end SolidityBundler
