/-
From a byte of a bundle back to its unit.

The compiler counts bytes, a bundle counts lines, and a unit counts the lines of its own text.
A byte is on the line of the character it belongs to, because no byte of a longer sequence is
a line feed.  A character of a unit that no inlined statement touches stands in the bundle
behind the sections of the units before, the header of its own, and the text in front of it;
what is commented out there keeps its lines, so the line of the character in the bundle is the
first line of the span and as many more as there are line feeds in front of it in the unit.

All other offsets lead to lines that belong to no span, and a diagnostic is left as it is.
-/
import SolidityBundler.Build.Attribution
import SolidityBundler.Proofs.CommentOut
import SolidityBundler.Proofs.LineMap

namespace SolidityBundler

/-! ### Bytes and lines -/

namespace Utf8

private theorem encode_append (s t : Text) : encode (s ++ t) = encode s ++ encode t :=
  List.flatMap_append

theorem encode_cons (c : Char) (t : Text) : encode (c :: t) = String.utf8EncodeChar c ++ encode t :=
  List.flatMap_cons

end Utf8

/-- The bytes of a character that has several are all above 0x7F. -/
private theorem eq_of_lineFeedByte_mem {c : Char} (h : lineFeedByte ∈ String.utf8EncodeChar c) :
    c = '\n' := by
  have hbyte : ∀ n : Nat, lineFeedByte = UInt8.ofNat n → n % 256 = 10 := by
    intro n hn
    have := congrArg UInt8.toNat hn
    simpa [lineFeedByte] using this.symm
  have hvalue : c.val.toNat = 10 := by
    simp only [String.utf8EncodeChar] at h
    split at h
    · have := hbyte _ (List.mem_singleton.1 h)
      omega
    · -- The bytes of a longer sequence are not below 0x80.
      exfalso
      split at h
      · simp only [List.mem_cons, List.not_mem_nil, or_false] at h
        rcases h with h | h <;> have := hbyte _ h <;> omega
      · split at h
        · simp only [List.mem_cons, List.not_mem_nil, or_false] at h
          rcases h with h | h | h <;> have := hbyte _ h <;> omega
        · simp only [List.mem_cons, List.not_mem_nil, or_false] at h
          rcases h with h | h | h | h <;> have := hbyte _ h <;> omega
  exact Char.ext (UInt32.toNat_inj.1 hvalue)

theorem count_lineFeedByte_encode (t : Text) :
    (Utf8.encode t).count lineFeedByte = Text.lineFeeds t := by
  induction t with
  | nil => rfl
  | cons c rest ih =>
      rw [Utf8.encode_cons, List.count_append, ih]
      show _ = Text.lineFeeds ([c] ++ rest)
      rw [Text.lineFeeds_append]
      by_cases h : c = '\n'
      · rw [h]
        rfl
      · rw [List.count_eq_zero.2 fun hmem => h (eq_of_lineFeedByte_mem hmem)]
        simp [Text.lineFeeds, h]

/-- The byte with this number is one of those of the character that stands behind `front`. -/
def IsByteBehind (content front : Text) (number : Int) : Prop :=
  ∃ c back, content = front ++ c :: back ∧ (Utf8.encode front).length ≤ number ∧
    number < (Utf8.encode (front ++ [c])).length

/-- A byte is on the line of its character. -/
theorem lineAtByte_of_isByteBehind {content front : Text} {number : Int}
    (h : IsByteBehind content front number) :
    lineAtByte content number.toNat = Text.lineFeeds front + 1 := by
  obtain ⟨c, back, rfl, hfirst, hlast⟩ := h
  obtain ⟨j, rfl⟩ : ∃ j : Nat, number = (Utf8.encode front).length + j :=
    ⟨(number - (Utf8.encode front).length).toNat, by omega⟩
  rw [Utf8.encode_append, List.length_append] at hlast
  have hj : j < (String.utf8EncodeChar c).length := by
    have hone : Utf8.encode [c] = String.utf8EncodeChar c := by simp [Utf8.encode]
    rw [hone] at hlast
    omega
  have hnone : ((String.utf8EncodeChar c).take j).count lineFeedByte = 0 := by
    refine List.count_eq_zero.2 fun hmem => ?_
    -- A line feed has one byte, so no byte of it stands in front of another one.
    have hc := eq_of_lineFeedByte_mem (List.mem_of_mem_take hmem)
    subst hc
    have hzero : j = 0 := Nat.lt_one_iff.1 hj
    rw [hzero] at hmem
    simp at hmem
  have hcount : ((Utf8.encode front).length + j : Int).toNat = (Utf8.encode front).length + j := by
    omega
  rw [lineAtByte, hcount, Utf8.encode_append, Utf8.encode_cons, List.take_length_add_append,
    List.take_append_of_le_length (Nat.le_of_lt hj), List.count_append, hnone,
    count_lineFeedByte_encode, Nat.add_zero]

private theorem lineAtByte_of_neg (content : Text) {number : Int} (h : number < 0) :
    lineAtByte content number.toNat = 1 := by
  rw [Int.toNat_of_nonpos (Int.le_of_lt h), lineAtByte, List.take_zero, List.count_nil]

private theorem lineAtByte_of_le {content : Text} {number : Int}
    (h : (Utf8.encode content).length ≤ number) :
    lineAtByte content number.toNat = Text.lineFeeds content + 1 := by
  rw [lineAtByte, List.take_of_length_le (by omega), count_lineFeedByte_encode]

/-! ### What stands in front of a character -/

theorem Text.join_append_cons (sep : Text) (front : List Text) (piece : Text) (pieces : List Text) :
    ∃ back, join sep (front ++ piece :: pieces) = front.flatMap (· ++ sep) ++ piece ++ back := by
  induction front with
  | nil =>
      cases pieces with
      | nil => exact ⟨[], by simp [join]⟩
      | cons next pieces => exact ⟨sep ++ join sep (next :: pieces), by simp [join]⟩
  | cons first front ih =>
      obtain ⟨back, hback⟩ := ih
      refine ⟨back, ?_⟩
      have hjoin : join sep (first :: (front ++ piece :: pieces))
          = first ++ sep ++ join sep (front ++ piece :: pieces) := by
        cases front <;> rfl
      rw [List.cons_append, hjoin, hback]
      simp

private theorem Text.lineFeeds_lt_closeLine {t front back : Text} {c : Char}
    (h : t = front ++ c :: back) : lineFeeds front < lineFeeds (closeLine t) := by
  obtain ⟨rest, hrest⟩ : ∃ rest, closeLine t = front ++ c :: rest := by
    unfold closeLine
    by_cases hends : endsLine t
    · exact ⟨back, by rw [if_pos hends, h]⟩
    · exact ⟨back ++ ['\n'], by rw [if_neg hends, h]; simp⟩
  have hclosed := endsLine_closeLine t
  rw [hrest] at hclosed ⊢
  have hmem : '\n' ∈ c :: rest := by
    rw [endsLine, beq_iff_eq, List.getLast?_append_of_ne_nil _ (List.cons_ne_nil _ _)] at hclosed
    exact List.mem_of_getLast? hclosed
  have : 0 < lineFeeds (c :: rest) := List.count_pos_iff.2 hmem
  rw [lineFeeds_append]
  omega

/-- The text of sections in front of another one. -/
def sectionsBefore (sections : List Section) : Text := sections.flatMap fun s => s.text ++ ['\n']

theorem lineFeeds_gap : Text.lineFeeds "\n\n".toList = 2 := by decide

theorem lineFeeds_headerLine {unit : Text} (h : '\n' ∉ unit) :
    Text.lineFeeds (headerLine unit) = 0 := by
  have hword : Text.lineFeeds "// File: ".toList = 0 := by decide
  unfold headerLine
  rw [Text.lineFeeds_append, hword, Nat.zero_add]
  exact List.count_eq_zero.2 h

theorem lineFeeds_sectionsBefore {sections : List Section}
    (hnames : ∀ s ∈ sections, '\n' ∉ s.unit) :
    Text.lineFeeds (sectionsBefore sections) = height sections := by
  induction sections with
  | nil => rfl
  | cons s rest ih =>
      rw [List.forall_mem_cons] at hnames
      have htext : Text.lineFeeds (s.text ++ ['\n']) = s.lines.length := by
        rw [Section.length_lines, Section.text, Text.lineFeeds_append, Text.lineFeeds_append,
          Text.lineFeeds_append, lineFeeds_headerLine hnames.1, lineFeeds_gap]
        simp [Text.lineFeeds]
        omega
      have hrest := ih hnames.2
      rw [sectionsBefore] at hrest ⊢
      rw [height] at hrest ⊢
      rw [List.flatMap_cons, Text.lineFeeds_append, htext, hrest, List.flatMap_cons,
        List.length_append]

namespace UnitIndex

/-- The statements of a unit that are inlined, and so become comments. -/
def inlinedImports (index : UnitIndex) (unit : SourceUnit) : List ImportEdge :=
  unit.imports.filter fun edge => (index.target? unit.name edge.specifier).isSome

/-- The text of a unit in front of an offset as it is inlined. -/
def inlinedFront (index : UnitIndex) (unit : SourceUnit) (offset : Nat) : Text :=
  commentOut (unit.text.take offset)
    ((index.inlinedImports unit).filter fun edge => edge.stop ≤ offset)

/-- What stands in a bundle in front of the character of `unit` at an offset, when the units
`earlier` are inlined before it. -/
def bundledFront (index : UnitIndex) (earlier : List SourceUnit) (unit : SourceUnit)
    (offset : Nat) : Text :=
  sectionsBefore (earlier.map index.sectionOf) ++ headerLine unit.name ++ "\n\n" ++
    index.inlinedFront unit offset

/-- No inlined statement of the unit holds the character at the offset. -/
def Outside (index : UnitIndex) (unit : SourceUnit) (offset : Nat) : Prop :=
  ∀ edge ∈ index.inlinedImports unit, ¬ (edge.start ≤ offset ∧ offset < edge.stop)

variable {index : UnitIndex} {entry unit : SourceUnit} {before after : Text} {c : Char}

theorem inOrder_inlinedImports (index : UnitIndex) (unit : SourceUnit) :
    InOrder 0 unit.text.length (index.inlinedImports unit) := by
  rw [inlinedImports, unit.imports_eq]
  exact (inOrder_importsOf unit.name unit.text).filter _

private theorem take_text (htext : unit.text = before ++ c :: after) :
    unit.text.take before.length = before := by
  rw [htext, List.take_left']
  rfl

/-- A character outside the inlined statements of a unit stays in its text. -/
theorem inlinedText_eq_of_outside (htext : unit.text = before ++ c :: after)
    (houtside : index.Outside unit before.length) :
    ∃ back, index.inlinedText unit = index.inlinedFront unit before.length ++ c :: back := by
  rw [inlinedFront, take_text htext]
  show ∃ back, commentOut unit.text (index.inlinedImports unit) = _
  rw [htext]
  refine commentOutFrom_append_cons (index.inOrder_inlinedImports unit) (Nat.zero_le _) ?_
  intro edge hedge
  have := houtside edge hedge
  omega

theorem inOrder_filter_stop (index : UnitIndex) {offset : Nat} (h : offset ≤ unit.text.length) :
    InOrder 0 (unit.text.take offset).length
      ((index.inlinedImports unit).filter fun edge => edge.stop ≤ offset) := by
  have hwhole := (index.inOrder_inlinedImports unit).filter fun edge => edge.stop ≤ offset
  refine ⟨?_, hwhole.apart⟩
  intro edge hedge
  have hbounds := hwhole.bounds edge hedge
  have hstop : edge.stop ≤ offset := by simpa using (List.mem_filter.1 hedge).2
  rw [List.length_take, Nat.min_eq_left h]
  exact ⟨hbounds.1, hbounds.2.1, hstop⟩

/-- In front of an offset the lines are those of the unit. -/
theorem lineFeeds_inlinedFront_take (index : UnitIndex) {offset : Nat}
    (h : offset ≤ unit.text.length) :
    Text.lineFeeds (index.inlinedFront unit offset) = Text.lineFeeds (unit.text.take offset) := by
  rw [inlinedFront, commentOut, lineFeeds_commentOutFrom (inOrder_filter_stop index h),
    List.drop_zero]

theorem lineFeeds_inlinedFront (htext : unit.text = before ++ c :: after) :
    Text.lineFeeds (index.inlinedFront unit before.length) = Text.lineFeeds before := by
  rw [lineFeeds_inlinedFront_take index (by simp [htext]), take_text htext]

private theorem content_bundleOf_eq_of_outside {earlier later : List SourceUnit}
    (horder : index.inlineOrder entry = earlier ++ unit :: later)
    (htext : unit.text = before ++ c :: after) (houtside : index.Outside unit before.length) :
    ∃ back, (index.bundleOf entry).content
      = index.bundledFront earlier unit before.length ++ c :: back := by
  obtain ⟨bodyBack, hbody⟩ := inlinedText_eq_of_outside htext houtside
  obtain ⟨closing, hclosing⟩ : ∃ closing, Text.closeLine (index.inlinedText unit)
      = index.inlinedText unit ++ closing := by
    unfold Text.closeLine
    by_cases h : Text.endsLine (index.inlinedText unit)
    · exact ⟨[], by rw [if_pos h, List.append_nil]⟩
    · exact ⟨['\n'], by rw [if_neg h]⟩
  have hcontent : (index.bundleOf entry).content = Text.join ['\n']
      ((earlier.map index.sectionOf).map Section.text ++
        (index.sectionOf unit).text :: (later.map index.sectionOf).map Section.text) := by
    show Text.join ['\n'] (((index.inlineOrder entry).map index.sectionOf).map Section.text) = _
    rw [horder]
    simp
  obtain ⟨back, hback⟩ := Text.join_append_cons ['\n']
    ((earlier.map index.sectionOf).map Section.text) (index.sectionOf unit).text
    ((later.map index.sectionOf).map Section.text)
  refine ⟨bodyBack ++ closing ++ back, ?_⟩
  have hsection : (index.sectionOf unit).text
      = headerLine unit.name ++ "\n\n" ++ (index.inlinedFront unit before.length ++ c :: bodyBack) ++
        closing := by
    show headerLine unit.name ++ "\n\n" ++ Text.closeLine (index.inlinedText unit) = _
    rw [hclosing, hbody]
    simp
  rw [hcontent, hback, hsection, bundledFront, sectionsBefore, List.flatMap_map]
  simp

variable (hnames : ∀ unit ∈ index.inlineOrder entry, '\n' ∉ unit.name)
include hnames

/-- The character is as many lines below the header of its unit as it is in the unit. -/
private theorem lineFeeds_bundledFront {earlier later : List SourceUnit}
    (horder : index.inlineOrder entry = earlier ++ unit :: later)
    (htext : unit.text = before ++ c :: after) :
    Text.lineFeeds (index.bundledFront earlier unit before.length)
      = height (earlier.map index.sectionOf) + 2 + Text.lineFeeds before := by
  rw [horder] at hnames
  have hearlier : ∀ s ∈ earlier.map index.sectionOf, '\n' ∉ s.unit := by
    intro s hs
    obtain ⟨other, hother, rfl⟩ := List.mem_map.1 hs
    exact hnames other (List.mem_append_left _ hother)
  have hunit : '\n' ∉ unit.name := hnames unit (by simp)
  rw [bundledFront, Text.lineFeeds_append, Text.lineFeeds_append, Text.lineFeeds_append,
    lineFeeds_sectionsBefore hearlier, lineFeeds_headerLine hunit, lineFeeds_gap,
    lineFeeds_inlinedFront htext]

/-- **A character outside the inlined statements is traced back to its own line.** -/
theorem originOf_bundleOf_of_outside {earlier later : List SourceUnit}
    (horder : index.inlineOrder entry = earlier ++ unit :: later)
    (htext : unit.text = before ++ c :: after) (houtside : index.Outside unit before.length) :
    (index.bundleOf entry).originOf
        (Text.lineFeeds (index.bundledFront earlier unit before.length) + 1 : Nat)
      = some (unit.name, ((Text.positionAt unit.text before.length).line : Int)) := by
  obtain ⟨back, hbody⟩ := inlinedText_eq_of_outside htext houtside
  have hspan := getElem?_spansFrom 1 (earlier.map index.sectionOf) (index.sectionOf unit)
    (later.map index.sectionOf)
  rw [← List.map_cons (f := index.sectionOf), ← List.map_append, ← horder, List.length_map]
    at hspan
  have hcount := Text.lineFeeds_lt_closeLine hbody
  rw [lineFeeds_inlinedFront htext] at hcount
  have hline : (Text.positionAt unit.text before.length).line = Text.lineFeeds before + 1 := by
    rw [Text.line_positionAt, take_text htext]
  rw [lineFeeds_bundledFront hnames horder htext, hline, originOf_bundleOf]
  refine ⟨earlier.length, unit, _, ?_, hspan, rfl, ?_, ?_, ?_⟩
  · rw [horder, List.getElem?_append_right (Nat.le_refl _), Nat.sub_self]
    rfl
  · omega
  · show ((Text.lineFeeds before + 1 : Nat) : Int)
      ≤ (Text.lineFeeds (Text.closeLine (index.inlinedText unit)) : Nat)
    omega
  · show _ = 1 + (height (earlier.map index.sectionOf) : Int) + 2 + _ - 1
    omega

end UnitIndex

/-! ### Lines of no unit -/

/-- Between the spans of two sections there is room for a separator, a header and an empty
line. -/
private theorem gap_of_mem_spansFrom {line : Int} {sections : List Section} {span other : Span}
    (hspan : span ∈ spansFrom line sections) (hother : other ∈ spansFrom line sections) :
    other = span ∨ other.first + other.count + 3 ≤ span.first ∨
      span.first + span.count + 3 ≤ other.first := by
  induction sections generalizing line with
  | nil => simp [spansFrom] at hspan
  | cons s rest ih =>
      rw [spansFrom, List.mem_cons] at hspan hother
      rcases hspan with rfl | hspan <;> rcases hother with rfl | hother
      · exact Or.inl rfl
      · have := le_first_of_mem_spansFrom hother
        refine Or.inr (Or.inr ?_)
        show line + 2 + (Text.lineFeeds s.body : Int) + 3 ≤ other.first
        omega
      · have := le_first_of_mem_spansFrom hspan
        refine Or.inr (Or.inl ?_)
        show line + 2 + (Text.lineFeeds s.body : Int) + 3 ≤ span.first
        omega
      · exact ih hspan hother

private theorem end_le_of_mem_spansFrom {line : Int} {sections : List Section} {span : Span}
    (h : span ∈ spansFrom line sections) :
    span.first + span.count + 1 ≤ line + height sections := by
  induction sections generalizing line with
  | nil => simp [spansFrom] at h
  | cons s rest ih =>
      have hheight : (height (s :: rest) : Int) = Text.lineFeeds s.body + 3 + height rest := by
        rw [height, height, List.flatMap_cons, List.length_append, Section.length_lines]
        omega
      rw [spansFrom, List.mem_cons] at h
      rw [hheight]
      rcases h with rfl | h
      · show line + 2 + (Text.lineFeeds s.body : Int) + 1 ≤ _
        omega
      · have := ih h
        omega

private theorem originOf_eq_none_of_forall {spans : List Span} (hapart : Apart spans) {line : Int}
    (h : ∀ span ∈ spans, ¬ (span.first ≤ line ∧ line < span.first + span.count)) :
    originOf spans line = none := by
  cases horigin : originOf spans line with
  | none => rfl
  | some place =>
      obtain ⟨unit, k⟩ := place
      obtain ⟨i, span, hspan, -, hk, hcount, hline⟩ :=
        (originOf_eq_some_iff hapart line unit k).1 horigin
      exact absurd ⟨by omega, by omega⟩ (h span (List.mem_of_getElem? hspan))

/-- The lines that a span does not hold itself but brings with it: its header, the empty line
behind the header, and the line that separates it from the next one. -/
def Span.Borders (span : Span) (line : Int) : Prop :=
  line = span.first - 2 ∨ line = span.first - 1 ∨ line = span.first + span.count

private theorem originOf_eq_none_of_borders {sections : List Section} {span : Span} {line : Int}
    (hspan : span ∈ spansFrom 1 sections) (h : span.Borders line) :
    originOf (spansFrom 1 sections) line = none := by
  refine originOf_eq_none_of_forall (apart_spansFrom 1 sections) ?_
  intro other hother
  unfold Span.Borders at h
  rcases gap_of_mem_spansFrom hspan hother with rfl | hbefore | hbehind
  · omega
  · omega
  · omega

theorem originOf_spansFrom_one (sections : List Section) :
    originOf (spansFrom 1 sections) 1 = none := by
  refine originOf_eq_none_of_forall (apart_spansFrom 1 sections) ?_
  intro span hspan
  have := le_first_of_mem_spansFrom hspan
  omega

theorem originOf_last {sections : List Section} (hne : sections ≠ [])
    (hnames : ∀ s ∈ sections, '\n' ∉ s.unit) (entry : Text) :
    originOf (spansFrom 1 sections)
      (Text.lineFeeds (Bundle.ofSections entry sections).content + 1 : Nat) = none := by
  refine originOf_eq_none_of_forall (apart_spansFrom 1 sections) ?_
  intro span hspan
  have hend := end_le_of_mem_spansFrom hspan
  have hlines := congrArg List.length (lines_content hne hnames entry)
  rw [Text.length_lines, ← height] at hlines
  omega

/-! ### Diagnostics -/

namespace Diagnostic

variable {bundles : Table Text Bundle} {d : Diagnostic} {offset : Int} {name : Text}
  {bundle : Bundle}

private theorem tracedTo_of_eq_none {count : Nat}
    (h : bundle.originOf (lineAtByte bundle.content count) = none) :
    d.tracedTo bundle count = d := by
  rw [tracedTo, h]

private theorem attribute_of_get? (hfilename : d.filename = some (.proper name))
    (hoffset : d.offset = some (.proper offset)) (hget : bundles.get? name = some bundle) :
    d.attribute bundles = .ok (d.tracedTo bundle offset.toNat) := by
  simp [Diagnostic.attribute, hfilename, hoffset, hget, Reported.name?, Reported.byteCount, bind,
    Except.bind, pure, Except.pure]

/-- Without an offset and a known file name nothing is traced.  A file name may also be a value
that is no name at all. -/
theorem attribute_of_unplaced (h : d.offset = none ∨ d.filename = none ∨
    ∃ filename found, d.filename = some filename ∧ filename.name? = .ok found ∧
      ∀ name, found = some name → bundles.get? name = none) :
    d.attribute bundles = .ok d := by
  rcases h with hoffset | hfilename | ⟨filename, found, hfilename, hfound, hnone⟩
  · simp [Diagnostic.attribute, hoffset]
  · simp only [Diagnostic.attribute, hfilename]
    split <;> simp_all
  · have hget : found.bind bundles.get? = none := Option.bind_eq_none_iff.2 hnone
    cases hoffset : d.offset with
    | none => simp [Diagnostic.attribute, hoffset]
    | some offset =>
        simp [Diagnostic.attribute, hfilename, hoffset, hfound, hget, bind, Except.bind, pure,
          Except.pure]

/-- **Tracing sets the unit and the line and leaves all else as it is.** -/
theorem eq_of_tracedTo (d : Diagnostic) (bundle : Bundle) (count : Nat) :
    ∃ unitName line, d.tracedTo bundle count = { d with unitName := unitName, line := line } := by
  unfold tracedTo
  split
  · exact ⟨_, _, rfl⟩
  · exact ⟨d.unitName, d.line, rfl⟩

private theorem eq_of_attribute {d' : Diagnostic} (h : d.attribute bundles = .ok d') :
    ∃ unitName line, d' = { d with unitName := unitName, line := line } := by
  unfold Diagnostic.attribute at h
  split at h
  · next offset filename _ _ =>
      cases hname : filename.name? with
      | error fault => simp [hname, bind, Except.bind] at h
      | ok name =>
          simp only [hname, bind, Except.bind] at h
          split at h
          · next bundle _ =>
              cases hcount : offset.byteCount with
              | error fault => simp [hcount] at h
              | ok count =>
                  simp only [hcount, pure, Except.pure, Except.ok.injEq] at h
                  rw [← h]
                  exact d.eq_of_tracedTo bundle count
          · rw [← Except.ok.inj h]
            exact ⟨d.unitName, d.line, rfl⟩
  · rw [← Except.ok.inj h]
    exact ⟨d.unitName, d.line, rfl⟩

end Diagnostic

namespace Bundler

variable {index : UnitIndex} {b : Bundler} {entries : List Text}

/-- **A message about a byte of an inlined unit is traced back to the line of its character.**
The character may be any that no inlined statement touches, and the byte any of its bytes.  A
message without an offset, about no bundle, or about a place in front of the text, behind it,
or on a line that no unit has, is left as it is; nothing but unit and line is ever set. -/
theorem bundleAll_attributes_bytes (hkeyed : index.WellKeyed) (hb : Reached index b)
    (hknown : ∀ name ∈ entries, (index.lookup? name).isSome)
    (hnames : ∀ unit ∈ index.units, '\n' ∉ unit.name) :
    ∃ bundling, (b.bundleAll entries).1 = .ok bundling ∧
      (∀ name ∈ entries, ∃ entry bundle, index.lookup? name = some entry ∧
        bundling.bundles.get? name = some bundle ∧
        bundle.units = (index.inlineOrder entry).map SourceUnit.name ∧
        (∀ earlier unit later before c after,
          index.inlineOrder entry = earlier ++ unit :: later →
          unit.text = before ++ c :: after → index.Outside unit before.length →
          ∃ back, bundle.content = index.bundledFront earlier unit before.length ++ c :: back ∧
            ∀ (d : Diagnostic) (offset : Int), d.filename = some (.proper name) →
              d.offset = some (.proper offset) →
              IsByteBehind bundle.content (index.bundledFront earlier unit before.length) offset →
              d.attribute bundling.bundles = .ok { d with
                unitName := some unit.name
                line := some (Text.positionAt unit.text before.length).line }) ∧
        (∀ (d : Diagnostic) (offset : Int), d.filename = some (.proper name) →
          d.offset = some (.proper offset) →
          (offset < 0 ∨ (Utf8.encode bundle.content).length ≤ offset ∨
            ∃ front, IsByteBehind bundle.content front offset ∧
              ∃ span ∈ bundle.spans, span.Borders (Text.lineFeeds front + 1 : Nat)) →
          d.attribute bundling.bundles = .ok d)) ∧
      (∀ d : Diagnostic, (d.offset = none ∨ d.filename = none ∨
          ∃ filename found, d.filename = some filename ∧ filename.name? = .ok found ∧
            ∀ name, found = some name → name ∉ entries) →
        d.attribute bundling.bundles = .ok d) ∧
      ∀ d d' : Diagnostic, d.attribute bundling.bundles = .ok d' →
        ∃ unitName line, d' = { d with unitName := unitName, line := line } := by
  have hsound := hb.sound hkeyed
  obtain ⟨bundling, hok, -, hbundles, -⟩ := hsound.bundleAll_ok hkeyed hknown
  refine ⟨bundling, hok, ?_, ?_, fun d d' => Diagnostic.eq_of_attribute⟩
  · intro name hname
    obtain ⟨entry, hentry, hlookup, hget⟩ := hbundles name hname
    have horderNames : ∀ unit ∈ index.inlineOrder entry, '\n' ∉ unit.name :=
      fun unit hunit => hnames unit (mem_units_of_mem_inlineOrder hkeyed hentry hunit)
    refine ⟨entry, index.bundleOf entry, hlookup, hget, index.bundleOf_units entry, ?_, ?_⟩
    · intro earlier unit later before c after horder htext houtside
      obtain ⟨back, hcontent⟩ :=
        UnitIndex.content_bundleOf_eq_of_outside horder htext houtside
      refine ⟨back, hcontent, ?_⟩
      intro d offset hfilename hoffset hbyte
      rw [Diagnostic.attribute_of_get? hfilename hoffset hget, Diagnostic.tracedTo,
        lineAtByte_of_isByteBehind hbyte,
        UnitIndex.originOf_bundleOf_of_outside horderNames horder htext houtside]
    · intro d offset hfilename hoffset hplace
      rw [Diagnostic.attribute_of_get? hfilename hoffset hget]
      refine congrArg Except.ok (Diagnostic.tracedTo_of_eq_none ?_)
      rcases hplace with hneg | hpast | ⟨front, hbyte, span, hspan, hborders⟩
      · rw [lineAtByte_of_neg _ hneg]
        exact originOf_spansFrom_one _
      · have hne : index.inlineOrder entry ≠ [] := by
          intro hnil
          have hlast := UnitIndex.getLast?_inlineOrder hkeyed hentry
          rw [hnil] at hlast
          simp at hlast
        rw [lineAtByte_of_le hpast]
        exact originOf_last (by simpa using hne) (UnitIndex.notMem_sectionOf horderNames) _
      · rw [lineAtByte_of_isByteBehind hbyte]
        exact originOf_eq_none_of_borders hspan hborders
  · intro d hunplaced
    refine Diagnostic.attribute_of_unplaced ?_
    rcases hunplaced with hoffset | hfilename | ⟨filename, found, hfilename, hfound, hname⟩
    · exact Or.inl hoffset
    · exact Or.inr (Or.inl hfilename)
    · refine Or.inr (Or.inr ⟨filename, found, hfilename, hfound, ?_⟩)
      intro name heq
      rw [hsound.get?_bundles hkeyed hok, if_neg (hname name heq)]

/-- A unit with characters of two bytes on either side of its statement and of a line feed. -/
def accentedUnit : SourceUnit :=
  .ofText .project ['ä'] (importOf ['ß'] ++ ['é', '\n', 'ö']) none

/-- The unit and what it imports. -/
def accented : UnitIndex where
  project := UnitIndex.unitsOf .project (.ofList [(['ä'], accentedUnit.text), (['ß'], ['ü'])])
  library := .empty
  aliases := .empty

/-- The second byte of the last character leads to the second line of the unit, and one byte in
front of the text leads nowhere. -/
theorem accented_attributes_last_byte :
    accented.WellKeyed ∧ Reached accented (ofIndex accented) ∧
      (∀ name ∈ [['ä']], (accented.lookup? name).isSome) ∧
      (∀ unit ∈ accented.units, '\n' ∉ unit.name) ∧
      ∃ bundling, ((ofIndex accented).bundleAll [['ä']]).1 = .ok bundling ∧
        ∀ d : Diagnostic, d.filename = some (.proper ['ä']) →
          (d.offset = some (.proper 52) → d.attribute bundling.bundles
            = .ok { d with unitName := some ['ä'], line := some 2 }) ∧
          (d.offset = some (.proper (-1)) → d.attribute bundling.bundles = .ok d) := by
  have hkeyed : accented.WellKeyed := UnitIndex.wellKeyed_unitsOf _ .empty .empty
  have hknown : ∀ name ∈ [['ä']], (accented.lookup? name).isSome := by decide
  have hnames : ∀ unit ∈ accented.units, '\n' ∉ unit.name := by decide
  refine ⟨hkeyed, .new, hknown, hnames, ?_⟩
  obtain ⟨bundling, hok, hbundles, -, -⟩ :=
    bundleAll_attributes_bytes hkeyed .new hknown hnames
  obtain ⟨entry, bundle, hlookup, hget, -, hinside, hborders⟩ :=
    hbundles ['ä'] List.mem_cons_self
  have hentry : entry = accentedUnit :=
    Option.some.inj (hlookup.symm.trans (by decide))
  subst hentry
  have horder : accented.inlineOrder accentedUnit
      = [.ofText .project ['ß'] ['ü'] none] ++ accentedUnit :: [] := by decide +kernel
  obtain ⟨back, hcontent, htraced⟩ := hinside _ _ _ (importOf ['ß'] ++ ['é', '\n']) 'ö' []
    horder (by decide) (by unfold UnitIndex.Outside; decide)
  refine ⟨bundling, hok, ?_⟩
  intro d hfilename
  refine ⟨fun hoffset => ?_, fun hoffset => hborders d (-1) hfilename hoffset (Or.inl (by decide))⟩
  exact htraced d 52 hfilename hoffset
    ⟨'ö', back, hcontent, by decide +kernel, by decide +kernel⟩

end Bundler

end SolidityBundler
