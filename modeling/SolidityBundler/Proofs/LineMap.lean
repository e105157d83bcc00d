/-
From a line of a bundle back to its unit.

The spans of a bundle are laid out by a running line number, the text by joining pieces, and
a line is traced back by halving the list of spans.  Here the three are shown to agree.  The
lines of a bundle are those of its sections, one section after the other: a header, an empty
line, the lines of the body, and an empty line behind them.  The span of a section is where
the lines of its body stand, spans keep apart, and halving finds the last span that begins at
or before a line.
-/
import SolidityBundler.Proofs.InlineOrder
import SolidityBundler.Proofs.Text.Lines

namespace SolidityBundler

/-! ### Searching the spans -/

/-- Every span ends before the next ones begin, with a line in between. -/
def Apart (spans : List Span) : Prop :=
  spans.Pairwise fun (s t : Span) => s.first + s.count < t.first

theorem Apart.lt {spans : List Span} (h : Apart spans) {i j : Nat} {s t : Span}
    (hs : spans[i]? = some s) (ht : spans[j]? = some t) (hij : i < j) :
    s.first + s.count < t.first := by
  obtain ⟨hi, rfl⟩ := List.getElem?_eq_some_iff.1 hs
  obtain ⟨hj, rfl⟩ := List.getElem?_eq_some_iff.1 ht
  exact List.pairwise_iff_getElem.1 h i j hi hj hij

private theorem Apart.first_le {spans : List Span} (h : Apart spans) {i j : Nat} {s t : Span}
    (hs : spans[i]? = some s) (ht : spans[j]? = some t) (hij : i ≤ j) : s.first ≤ t.first := by
  rcases Nat.lt_or_eq_of_le hij with hlt | rfl
  · have := h.lt hs ht hlt
    omega
  · rw [hs, Option.some.injEq] at ht
    exact Int.le_of_eq (congrArg Span.first ht)

private theorem countBeginningBy_le (spans : Array Span) (line : Int) {low high : Nat}
    (hle : low ≤ high) : countBeginningBy spans line low high ≤ high := by
  fun_induction countBeginningBy spans line low high with
  | case1 low high hlt middle hnone => exact hle
  | case2 low high hlt middle span hspan hline ih =>
      have := ih (by omega)
      omega
  | case3 low high hlt middle span hspan hline ih => exact ih (by omega)
  | case4 low high hge => exact hle

/-- Halving keeps the answer between the bounds: the spans below `low` begin by the line, those
from `high` on behind it. -/
private theorem lt_countBeginningBy_iff {spans : List Span} (hapart : Apart spans) (line : Int)
    {low high : Nat} (hhigh : high ≤ spans.length)
    (hbefore : ∀ i s, i < low → spans[i]? = some s → s.first ≤ line)
    (hafter : ∀ i s, high ≤ i → spans[i]? = some s → line < s.first) (hle : low ≤ high) :
    ∀ i s, spans[i]? = some s →
      (i < countBeginningBy spans.toArray line low high ↔ s.first ≤ line) := by
  fun_induction countBeginningBy spans.toArray line low high with
  | case1 low high hlt middle hnone =>
      have hmiddle : middle < spans.length := by omega
      rw [List.getElem?_toArray, List.getElem?_eq_getElem hmiddle] at hnone
      simp at hnone
  | case2 low high hlt middle span hspan hline ih =>
      rw [List.getElem?_toArray] at hspan
      refine ih (by omega) hbefore ?_ (by omega)
      intro i s hi hs
      have := hapart.first_le hspan hs hi
      omega
  | case3 low high hlt middle span hspan hline ih =>
      rw [List.getElem?_toArray] at hspan
      refine ih hhigh ?_ hafter (by omega)
      intro i s hi hs
      have := hapart.first_le hs hspan (by omega)
      omega
  | case4 low high hge =>
      intro i s hs
      constructor
      · intro hi
        exact hbefore i s hi hs
      · intro hline
        by_contra hi
        have := hafter i s (by omega) hs
        omega

theorem lt_count_iff {spans : List Span} (hapart : Apart spans) (line : Int) {i : Nat} {s : Span}
    (hs : spans[i]? = some s) :
    i < countBeginningBy spans.toArray line 0 spans.length ↔ s.first ≤ line := by
  refine lt_countBeginningBy_iff hapart line (Nat.le_refl _) ?_ ?_ (Nat.zero_le _) i s hs
  · intro j t hj
    omega
  · intro j t hj ht
    rw [List.getElem?_eq_none hj] at ht
    simp at ht

/-- The span that a line stands in is the last one to begin by it: a later one would begin
inside. -/
private theorem count_of_mem_span {spans : List Span} (hapart : Apart spans) {line : Int} {i : Nat}
    {s : Span} (hs : spans[i]? = some s) (hfirst : s.first ≤ line)
    (hend : line < s.first + s.count) :
    countBeginningBy spans.toArray line 0 spans.length = i + 1 := by
  have hlt := (lt_count_iff hapart line hs).2 hfirst
  have hle := countBeginningBy_le spans.toArray line (Nat.zero_le spans.length)
  by_contra hne
  have hnext : i + 1 < spans.length := by omega
  have hlater := List.getElem?_eq_getElem hnext
  have hbegins := (lt_count_iff hapart line hlater).1 (by omega)
  have hbehind := hapart.lt hs hlater (Nat.lt_succ_self i)
  omega

/-- **A line is traced back to a span exactly if it stands in it.** -/
theorem originOf_eq_some_iff {spans : List Span} (hapart : Apart spans) (line : Int)
    (unit : Text) (k : Int) :
    originOf spans line = some (unit, k) ↔
      ∃ (i : Nat) (span : Span), spans[i]? = some span ∧ span.unit = unit ∧ 1 ≤ k ∧
        k ≤ span.count ∧ line = span.first + k - 1 := by
  constructor
  · intro h
    unfold originOf at h
    split at h
    · simp at h
    · next n hn =>
        split at h
        · simp at h
        · next span hspan =>
            have hfirst := (lt_count_iff hapart line hspan).1 (by omega)
            split at h
            · simp only [Option.some.injEq, Prod.mk.injEq] at h
              refine ⟨n, span, hspan, h.1, ?_, ?_, ?_⟩ <;> omega
            · simp at h
  · rintro ⟨i, span, hspan, hunit, hk, hcount, hline⟩
    unfold originOf
    rw [count_of_mem_span hapart hspan (by omega) (by omega)]
    simp only [hspan]
    rw [if_pos (by omega), hunit]
    simp only [Option.some.injEq, Prod.mk.injEq, true_and]
    omega

/-! ### The lines of a bundle -/

/-- The lines of a section as it stands in a bundle, with the empty line behind it. -/
def Section.lines (s : Section) : List Text := headerLine s.unit :: [] :: Text.lines s.body

/-- The number of lines that sections take up. -/
def height (sections : List Section) : Nat := (sections.flatMap Section.lines).length

theorem Section.length_lines (s : Section) : s.lines.length = Text.lineFeeds s.body + 3 := by
  rw [Section.lines, List.length_cons, List.length_cons, Text.length_lines]

theorem Section.lines_text {s : Section} (h : '\n' ∉ s.unit) : Text.lines s.text = s.lines := by
  have hheader : '\n' ∉ headerLine s.unit := by
    unfold headerLine
    intro hmem
    rcases List.mem_append.1 hmem with hword | hunit
    · exact absurd hword (by decide)
    · exact h hunit
  have htext : s.text = headerLine s.unit ++ '\n' :: ([] ++ '\n' :: s.body) := by
    simp [Section.text]
  rw [htext, Text.lines_append_cons, Text.lines_append_cons, Text.lines_of_notMem hheader]
  rfl

/-- The lines of a bundle are those of its sections. -/
theorem lines_content {sections : List Section} (hne : sections ≠ [])
    (hnames : ∀ s ∈ sections, '\n' ∉ s.unit) (entry : Text) :
    Text.lines (Bundle.ofSections entry sections).content = sections.flatMap Section.lines := by
  show Text.lines (Text.join ['\n'] (sections.map Section.text)) = _
  rw [Text.lines_join (by simpa using hne), List.flatMap_map]
  exact List.flatMap_congr fun s hs => Section.lines_text (hnames s hs)

private theorem getElem?_flatMap_lines (before : List Section) (s : Section) (after : List Section)
    {m : Nat} (hm : m < s.lines.length) :
    ((before ++ s :: after).flatMap Section.lines)[height before + m]? = s.lines[m]? := by
  rw [List.flatMap_append, List.flatMap_cons, height,
    List.getElem?_append_right (Nat.le_add_right _ _), Nat.add_sub_cancel_left,
    List.getElem?_append_left hm]

theorem exists_section_of_lt {sections : List Section} {j : Nat} (hj : j < height sections) :
    ∃ before s after m, sections = before ++ s :: after ∧ m < s.lines.length ∧
      j = height before + m := by
  induction sections generalizing j with
  | nil => simp [height] at hj
  | cons s rest ih =>
      rw [height, List.flatMap_cons, List.length_append] at hj
      by_cases hs : j < s.lines.length
      · exact ⟨[], s, rest, j, rfl, hs, by simp [height]⟩
      · obtain ⟨before, s', after, m, hsplit, hm, hjm⟩ :=
          ih (j := j - s.lines.length) (by rw [height]; omega)
        refine ⟨s :: before, s', after, m, by rw [hsplit]; rfl, hm, ?_⟩
        rw [height] at hjm ⊢
        rw [List.flatMap_cons, List.length_append]
        omega

/-! ### The spans of a bundle -/

private theorem spansFrom_append (line : Int) (before after : List Section) :
    spansFrom line (before ++ after)
      = spansFrom line before ++ spansFrom (line + height before) after := by
  induction before generalizing line with
  | nil => simp [height, spansFrom]
  | cons s rest ih =>
      have hheight : line + 2 + Text.lineFeeds s.body + 1 + (height rest : Int)
          = line + (height (s :: rest) : Int) := by
        rw [height, height, List.flatMap_cons, List.length_append, Section.length_lines]
        omega
      rw [List.cons_append, spansFrom, spansFrom, ih, hheight, List.cons_append]

theorem length_spansFrom (line : Int) (sections : List Section) :
    (spansFrom line sections).length = sections.length := by
  rw [← List.length_map (f := Span.unit), spansFrom_units, List.length_map]

/-- The span of a section begins behind its header and the empty line. -/
theorem getElem?_spansFrom (line : Int) (before : List Section) (s : Section)
    (after : List Section) :
    (spansFrom line (before ++ s :: after))[before.length]?
      = some { unit := s.unit, first := line + height before + 2
               count := Text.lineFeeds s.body } := by
  rw [spansFrom_append, List.getElem?_append_right (by rw [length_spansFrom]), length_spansFrom,
    Nat.sub_self]
  rfl

theorem le_first_of_mem_spansFrom {line : Int} {sections : List Section} {span : Span}
    (h : span ∈ spansFrom line sections) : line + 2 ≤ span.first := by
  induction sections generalizing line with
  | nil => simp [spansFrom] at h
  | cons s rest ih =>
      rw [spansFrom, List.mem_cons] at h
      rcases h with rfl | h
      · exact Int.le_refl _
      · have := ih h
        omega

theorem apart_spansFrom (line : Int) (sections : List Section) :
    Apart (spansFrom line sections) := by
  induction sections generalizing line with
  | nil => exact List.Pairwise.nil
  | cons s rest ih =>
      rw [spansFrom]
      refine List.Pairwise.cons ?_ (ih _)
      intro span hspan
      have := le_first_of_mem_spansFrom hspan
      show line + 2 + (Text.lineFeeds s.body : Int) < span.first
      omega

/-! ### Lines and spans together -/

theorem exists_split_of_getElem? {α : Type} {l : List α} {i : Nat} {a : α} (h : l[i]? = some a) :
    ∃ before after, l = before ++ a :: after ∧ before.length = i := by
  obtain ⟨hi, rfl⟩ := List.getElem?_eq_some_iff.1 h
  refine ⟨l.take i, l.drop (i + 1), ?_, ?_⟩
  · rw [← List.drop_eq_getElem_cons hi, List.take_append_drop]
  · rw [List.length_take]
    omega

private theorem unit_and_count_of_span {line : Int} {sections : List Section} {i : Nat}
    {s : Section}
    {span : Span} (hs : sections[i]? = some s) (hspan : (spansFrom line sections)[i]? = some span) :
    span.unit = s.unit ∧ span.count = Text.lineFeeds s.body := by
  obtain ⟨before, after, rfl, rfl⟩ := exists_split_of_getElem? hs
  rw [getElem?_spansFrom, Option.some.injEq] at hspan
  subst hspan
  exact ⟨rfl, rfl⟩

section

variable {sections : List Section} (hnames : ∀ s ∈ sections, '\n' ∉ s.unit) (entry : Text)
include hnames

theorem line?_content_of_span {i m : Nat} {s : Section} {span : Span}
    (hs : sections[i]? = some s) (hspan : (spansFrom 1 sections)[i]? = some span)
    (hm : m < span.count) :
    Text.line? (Bundle.ofSections entry sections).content (span.first + m)
      = (Text.lines s.body)[m]? := by
  obtain ⟨before, after, rfl, rfl⟩ := exists_split_of_getElem? hs
  rw [getElem?_spansFrom, Option.some.injEq] at hspan
  subst hspan
  have hnumber : (1 : Int) + height before + 2 + m
      = ((height before + (m + 2) : Nat) : Int) + 1 := by
    omega
  have hlength : m + 2 < s.lines.length := by
    rw [Section.length_lines]
    simp only at hm
    omega
  rw [hnumber, Text.line?_add_one, lines_content (by simp) hnames,
    getElem?_flatMap_lines before s after hlength]
  rfl

/-- A line that is traced back to nothing is empty or announces a unit. -/
theorem line?_content_of_originOf_eq_none (hne : sections ≠ [])
    (hclosed : ∀ s ∈ sections, ∃ t, s.body = Text.closeLine t) {number : Int} {line : Text}
    (hline : Text.line? (Bundle.ofSections entry sections).content number = some line)
    (horigin : originOf (spansFrom 1 sections) number = none) :
    line = [] ∨ ∃ (i : Nat) (s : Section) (span : Span), sections[i]? = some s ∧
      (spansFrom 1 sections)[i]? = some span ∧ number = span.first - 2 ∧
      line = headerLine s.unit := by
  have hbounds := Text.bounds_of_line? hline
  obtain ⟨j, rfl⟩ : ∃ j : Nat, number = j + 1 := ⟨(number - 1).toNat, by omega⟩
  rw [lines_content hne hnames] at hbounds
  have hheight : j < height sections := by
    rw [height]
    omega
  obtain ⟨before, s, after, m, rfl, hm, rfl⟩ := exists_section_of_lt hheight
  rw [Text.line?_add_one, lines_content hne hnames, getElem?_flatMap_lines before s after hm]
    at hline
  have hspan := getElem?_spansFrom 1 before s after
  match m with
  | 0 =>
      refine Or.inr ⟨before.length, s, _, ?_, hspan, ?_, ?_⟩
      · simp
      · simp only
        omega
      · exact (Option.some.inj hline).symm
  | 1 => exact Or.inl (Option.some.inj hline).symm
  | m + 2 =>
      -- Within the span the line would be traced back, so this is the one behind it.
      rw [Section.length_lines] at hm
      have hlast : m = Text.lineFeeds s.body := by
        by_contra hne'
        have htraced : originOf (spansFrom 1 (before ++ s :: after))
            ((height before + (m + 2) : Nat) + 1) = some (s.unit, (m + 1 : Int)) := by
          refine (originOf_eq_some_iff (apart_spansFrom 1 _) _ _ _).2
            ⟨before.length, _, hspan, rfl, by omega, ?_, ?_⟩
          · simp only
            omega
          · simp only
            omega
        rw [htraced] at horigin
        simp at horigin
      obtain ⟨t, ht⟩ := hclosed s (by simp)
      have hempty := Text.getElem?_lines_closeLine_last t
      rw [← ht, ← hlast] at hempty
      exact Or.inl (Option.some.inj (hline.symm.trans hempty))

end

/-! ### The lines of the units of an index -/

namespace UnitIndex

variable {index : UnitIndex} {entry : SourceUnit}

private theorem sectionOf_unit_of_getElem? {i : Nat} {unit : SourceUnit}
    (hunit : (index.inlineOrder entry)[i]? = some unit) :
    ((index.inlineOrder entry).map index.sectionOf)[i]? = some (index.sectionOf unit) := by
  rw [List.getElem?_map, hunit]
  rfl

/-- **A line of a bundle is traced back exactly if it is a line of an inlined unit.** -/
theorem originOf_bundleOf (index : UnitIndex) (entry : SourceUnit) (number : Int) (name : Text)
    (k : Int) :
    (index.bundleOf entry).originOf number = some (name, k) ↔
      ∃ (i : Nat) (unit : SourceUnit) (span : Span),
        (index.inlineOrder entry)[i]? = some unit ∧
        (index.bundleOf entry).spans[i]? = some span ∧ unit.name = name ∧
        1 ≤ k ∧ k ≤ span.count ∧ number = span.first + k - 1 := by
  refine (originOf_eq_some_iff (apart_spansFrom 1 _) number name k).trans ?_
  constructor
  · rintro ⟨i, span, hspan, hname, hplace⟩
    have hi : i < (index.inlineOrder entry).length := by
      have hlt := (List.getElem?_eq_some_iff.1 hspan).1
      rwa [length_spansFrom, List.length_map] at hlt
    have hunit := List.getElem?_eq_getElem hi
    refine ⟨i, _, span, hunit, hspan, ?_, hplace⟩
    rw [← hname, (unit_and_count_of_span (sectionOf_unit_of_getElem? hunit) hspan).1]
    rfl
  · rintro ⟨i, unit, span, hunit, hspan, hname, hplace⟩
    refine ⟨i, span, hspan, ?_, hplace⟩
    rw [← hname, (unit_and_count_of_span (sectionOf_unit_of_getElem? hunit) hspan).1]
    rfl

variable (hnames : ∀ unit ∈ index.inlineOrder entry, '\n' ∉ unit.name)
include hnames

theorem notMem_sectionOf :
    ∀ s ∈ (index.inlineOrder entry).map index.sectionOf, '\n' ∉ s.unit := by
  intro s hs
  obtain ⟨unit, hunit, rfl⟩ := List.mem_map.1 hs
  exact hnames unit hunit

theorem line?_bundleOf_of_span {i : Nat} {unit : SourceUnit} {span : Span}
    (hunit : (index.inlineOrder entry)[i]? = some unit)
    (hspan : (index.bundleOf entry).spans[i]? = some span) {k : Int} (hk : 1 ≤ k)
    (hcount : k ≤ span.count) :
    ∃ line, Text.line? (index.bundleOf entry).content (span.first + k - 1) = some line ∧
      Text.line? (index.inlinedText unit) k = some line := by
  obtain ⟨m, rfl⟩ : ∃ m : Nat, k = m + 1 := ⟨(k - 1).toNat, by omega⟩
  have hsection := sectionOf_unit_of_getElem? hunit
  have hfeeds : m < Text.lineFeeds (Text.closeLine (index.inlinedText unit)) := by
    have hspanCount : span.count = Text.lineFeeds (Text.closeLine (index.inlinedText unit)) :=
      (unit_and_count_of_span hsection hspan).2
    omega
  obtain ⟨line, hclosed, htext⟩ := Text.getElem?_lines_closeLine hfeeds
  refine ⟨line, ?_, ?_⟩
  · have hnumber : span.first + (m + 1 : Int) - 1 = span.first + m := by omega
    rw [hnumber]
    exact (line?_content_of_span (notMem_sectionOf hnames) entry.name hsection hspan
      (by omega)).trans hclosed
  · rw [Text.line?_add_one, htext]

theorem originOf_bundleOf_eq_none {number : Int}
    (hnumber : number ≤ 0 ∨ (Text.lines (index.bundleOf entry).content).length < number) :
    (index.bundleOf entry).originOf number = none := by
  cases horigin : (index.bundleOf entry).originOf number with
  | none => rfl
  | some place =>
      obtain ⟨name, k⟩ := place
      obtain ⟨i, unit, span, hunit, hspan, -, hk, hcount, rfl⟩ :=
        (index.originOf_bundleOf entry number name k).1 horigin
      obtain ⟨line, hline, -⟩ := line?_bundleOf_of_span hnames hunit hspan hk hcount
      have := Text.bounds_of_line? hline
      omega

/-- A line that is traced back to nothing is empty or the header of an inlined unit. -/
theorem header_of_originOf_eq_none (hne : index.inlineOrder entry ≠ []) {number : Int}
    {line : Text} (hline : Text.line? (index.bundleOf entry).content number = some line)
    (horigin : (index.bundleOf entry).originOf number = none) :
    line = [] ∨ ∃ (i : Nat) (unit : SourceUnit) (span : Span),
      (index.inlineOrder entry)[i]? = some unit ∧
      (index.bundleOf entry).spans[i]? = some span ∧ number = span.first - 2 ∧
      line = headerLine unit.name := by
  have hclosed : ∀ s ∈ (index.inlineOrder entry).map index.sectionOf,
      ∃ t, s.body = Text.closeLine t := by
    intro s hs
    obtain ⟨unit, -, rfl⟩ := List.mem_map.1 hs
    exact ⟨index.inlinedText unit, rfl⟩
  rcases line?_content_of_originOf_eq_none (notMem_sectionOf hnames) entry.name
    (by simpa using hne) hclosed hline horigin with
    hempty | ⟨i, s, span, hs, hspan, hfirst, hheader⟩
  · exact Or.inl hempty
  · rw [List.getElem?_map] at hs
    obtain ⟨unit, hunit, rfl⟩ := Option.map_eq_some_iff.1 hs
    exact Or.inr ⟨i, unit, span, hunit, hspan, hfirst, hheader⟩

end UnitIndex

namespace Bundler

variable {index : UnitIndex} {b : Bundler} {entries : List Text}

/-- **Every line of a bundle is traced back to the unit it was taken from.**  The span of a unit
is where the lines of its text stand; every other line is empty or a header, and it is traced
back to nothing, as is every number that no line has. -/
theorem bundleAll_traces_lines (hkeyed : index.WellKeyed) (hb : Reached index b)
    (hknown : ∀ name ∈ entries, (index.lookup? name).isSome)
    (hnames : ∀ unit ∈ index.units, '\n' ∉ unit.name) :
    ∃ bundling, (b.bundleAll entries).1 = .ok bundling ∧
      ∀ name ∈ entries, ∃ entry bundle, index.lookup? name = some entry ∧
        bundling.bundles.get? name = some bundle ∧
        bundle.units = (index.inlineOrder entry).map SourceUnit.name ∧
        (∀ number u k, bundle.originOf number = some (u, k) ↔
          ∃ (i : Nat) (unit : SourceUnit) (span : Span),
            (index.inlineOrder entry)[i]? = some unit ∧ bundle.spans[i]? = some span ∧
            unit.name = u ∧ 1 ≤ k ∧ k ≤ span.count ∧ number = span.first + k - 1) ∧
        (∀ (i : Nat) (unit : SourceUnit) (span : Span),
          (index.inlineOrder entry)[i]? = some unit → bundle.spans[i]? = some span →
          span.unit = unit.name ∧
          span.count = Text.lineFeeds
            (Text.closeLine ((b.bundleAll entries).2.inlinedText unit).1) ∧
          ∀ k : Int, 1 ≤ k → k ≤ span.count →
            ∃ line, Text.line? bundle.content (span.first + k - 1) = some line ∧
              Text.line? ((b.bundleAll entries).2.inlinedText unit).1 k = some line) ∧
        (∀ number line, Text.line? bundle.content number = some line →
          bundle.originOf number = none →
          line = [] ∨ ∃ (i : Nat) (unit : SourceUnit) (span : Span),
            (index.inlineOrder entry)[i]? = some unit ∧ bundle.spans[i]? = some span ∧
            number = span.first - 2 ∧ line = headerLine unit.name) ∧
        (∀ number : Int, number ≤ 0 ∨ (Text.lines bundle.content).length < number →
          bundle.originOf number = none) := by
  obtain ⟨bundling, hok, -, hbundles, hcovers⟩ :=
    (hb.sound hkeyed).bundleAll_ok hkeyed hknown
  refine ⟨bundling, hok, ?_⟩
  intro name hname
  obtain ⟨entry, hentry, hlookup, hget⟩ := hbundles name hname
  have hunits : ∀ unit ∈ index.inlineOrder entry, unit ∈ index.units :=
    fun unit => mem_units_of_mem_inlineOrder hkeyed hentry
  have horder : ∀ unit ∈ index.inlineOrder entry, '\n' ∉ unit.name :=
    fun unit hunit => hnames unit (hunits unit hunit)
  have hne : index.inlineOrder entry ≠ [] := by
    intro hnil
    have hlast := UnitIndex.getLast?_inlineOrder hkeyed hentry
    rw [hnil] at hlast
    simp at hlast
  refine ⟨entry, index.bundleOf entry, hlookup, hget, index.bundleOf_units entry,
    index.originOf_bundleOf entry, ?_, ?_, ?_⟩
  · intro i unit span hunit hspan
    have hplace := unit_and_count_of_span (UnitIndex.sectionOf_unit_of_getElem? hunit) hspan
    rw [hcovers.sound.inlinedText_eq (hunits unit (List.mem_of_getElem? hunit))]
    refine ⟨hplace.1, hplace.2, ?_⟩
    intro k hk hcount
    exact UnitIndex.line?_bundleOf_of_span horder hunit hspan hk hcount
  · intro number line hline horigin
    exact UnitIndex.header_of_originOf_eq_none horder hne hline horigin
  · intro number hnumber
    exact UnitIndex.originOf_bundleOf_eq_none horder hnumber

/-- The pair that imports each other: some line of the bundle of the first unit is traced back
to the first line of that unit, and there is no line zero. -/
theorem mutualPair_traces_lines :
    mutualPair.WellKeyed ∧
      Reached mutualPair ((ofIndex mutualPair).bundleAll [['b'], ['c']]).2 ∧
      (∀ name ∈ [['a']], (mutualPair.lookup? name).isSome) ∧
      (∀ unit ∈ mutualPair.units, '\n' ∉ unit.name) ∧
      ∃ bundling bundle number,
        (((ofIndex mutualPair).bundleAll [['b'], ['c']]).2.bundleAll [['a']]).1 = .ok bundling ∧
        bundling.bundles.get? ['a'] = some bundle ∧
        bundle.originOf number = some (['a'], 1) ∧ bundle.originOf 0 = none := by
  have hreached : Reached mutualPair ((ofIndex mutualPair).bundleAll [['b'], ['c']]).2 :=
    .bundleAll .new [['b'], ['c']]
  have hnames : ∀ unit ∈ mutualPair.units, '\n' ∉ unit.name := by decide
  refine ⟨mutualPair_wellKeyed, hreached, mutualPair_known, hnames, ?_⟩
  obtain ⟨bundling, hok, hbundles⟩ :=
    bundleAll_traces_lines mutualPair_wellKeyed hreached mutualPair_known hnames
  obtain ⟨entry, bundle, hlookup, hget, hunits, horigin, hspans, -, houtside⟩ :=
    hbundles ['a'] List.mem_cons_self
  have hentry : entry = oneImport ['a'] ['b'] :=
    Option.some.inj (hlookup.symm.trans lookup?_mutualPair)
  subst hentry
  have horder : mutualPair.inlineOrder (oneImport ['a'] ['b'])
      = [oneImport ['b'] ['a'], oneImport ['a'] ['b']] := by decide +kernel
  rw [horder] at hunits horigin hspans
  obtain ⟨span, hspan⟩ : ∃ span : Span, bundle.spans[1]? = some span := by
    have hlength := congrArg List.length hunits
    rw [Bundle.units, List.length_map] at hlength
    exact ⟨_, List.getElem?_eq_getElem (by rw [hlength]; decide)⟩
  have hcount := (hspans 1 (oneImport ['a'] ['b']) span rfl hspan).2.1
  refine ⟨bundling, bundle, _, hok, hget, (horigin _ _ _).2 ⟨1, _, span, rfl, hspan, rfl,
    Int.le_refl 1, ?_, rfl⟩, houtside 0 (Or.inl (Int.le_refl 0))⟩
  rw [hcount]
  decide +kernel

end Bundler

end SolidityBundler
