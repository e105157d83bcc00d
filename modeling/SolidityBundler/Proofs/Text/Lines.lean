/-
The lines of a text that is put together.

Cutting at line feeds undoes putting a line feed in between, so the lines of texts that are
joined by line feeds are the lines of each, one after the other.  A text has one line more
than it has line feeds, and closing its last line adds an empty one behind it.
-/
import SolidityBundler.Text.Lines

namespace SolidityBundler.Text

private theorem consFirst_append (c : Char) {pieces : List Text} (h : pieces ≠ [])
    (more : List Text) : consFirst c (pieces ++ more) = consFirst c pieces ++ more := by
  cases pieces with
  | nil => exact absurd rfl h
  | cons piece pieces => rfl

theorem split_append_cons (sep : Char) (s t : Text) :
    split sep (s ++ sep :: t) = split sep s ++ split sep t := by
  induction s with
  | nil => simp [split]
  | cons c rest ih =>
      rw [List.cons_append, split, split, ih]
      by_cases h : c = sep
      · rw [if_pos h, if_pos h]
        rfl
      · rw [if_neg h, if_neg h, consFirst_append c (split_ne_nil sep rest)]

theorem split_of_notMem {sep : Char} {t : Text} (h : sep ∉ t) : split sep t = [t] := by
  induction t with
  | nil => rfl
  | cons c rest ih =>
      rw [List.mem_cons, not_or] at h
      rw [split, if_neg (Ne.symm h.1), ih h.2]
      rfl

/-- A line feed between two texts keeps their lines apart. -/
theorem lines_append_cons (s t : Text) : lines (s ++ '\n' :: t) = lines s ++ lines t :=
  split_append_cons '\n' s t

theorem lines_cons_lineFeed (t : Text) : lines ('\n' :: t) = [] :: lines t :=
  lines_append_cons [] t

theorem lines_cons_of_ne {c : Char} (h : c ≠ '\n') (t : Text) :
    lines (c :: t) = consFirst c (lines t) := by
  rw [lines, split, if_neg h]
  rfl

theorem lines_of_notMem {t : Text} (h : '\n' ∉ t) : lines t = [t] := split_of_notMem h

theorem lines_join {texts : List Text} (h : texts ≠ []) :
    lines (join ['\n'] texts) = texts.flatMap lines := by
  induction texts with
  | nil => exact absurd rfl h
  | cons t rest ih =>
      cases rest with
      | nil => simp [join]
      | cons t' rest =>
          rw [join, List.append_assoc, List.singleton_append, lines_append_cons,
            ih (List.cons_ne_nil _ _)]
          · rfl
          · exact List.cons_ne_nil _ _

private theorem length_consFirst (c : Char) {pieces : List Text} (h : pieces ≠ []) :
    (consFirst c pieces).length = pieces.length := by
  cases pieces with
  | nil => exact absurd rfl h
  | cons piece pieces => rfl

/-- A text has one line more than line feeds. -/
theorem length_lines (t : Text) : (lines t).length = lineFeeds t + 1 := by
  induction t with
  | nil => rfl
  | cons c rest ih =>
      rw [lines] at ih ⊢
      rw [split]
      by_cases h : c = '\n'
      · rw [if_pos h, List.length_cons, ih, h]
        simp [lineFeeds]
      · rw [if_neg h, length_consFirst c (split_ne_nil _ _), ih]
        simp [lineFeeds, h]

/-! ### Closing the last line -/

theorem lines_closeLine (t : Text) :
    ∃ front, lines (closeLine t) = front ++ [[]] ∧ front.length = lineFeeds (closeLine t) ∧
      front <+: lines t := by
  unfold closeLine
  by_cases h : endsLine t
  · rw [if_pos h]
    obtain ⟨s, rfl⟩ := List.getLast?_eq_some_iff.1 (beq_iff_eq.1 h)
    have hlines : lines (s ++ ['\n']) = lines s ++ [[]] := lines_append_cons s []
    refine ⟨lines s, hlines, ?_, ?_⟩
    · rw [length_lines]
      simp [lineFeeds]
    · rw [hlines]
      exact List.prefix_append _ _
  · rw [if_neg h]
    refine ⟨lines t, lines_append_cons t [], ?_, List.prefix_refl _⟩
    rw [length_lines]
    simp [lineFeeds]

/-- The lines that are closed are the lines of the text. -/
theorem getElem?_lines_closeLine {t : Text} {i : Nat} (hi : i < lineFeeds (closeLine t)) :
    ∃ line, (lines (closeLine t))[i]? = some line ∧ (lines t)[i]? = some line := by
  obtain ⟨front, hlines, hlength, rest, hrest⟩ := lines_closeLine t
  have hfront : i < front.length := by omega
  refine ⟨front[i], ?_, ?_⟩
  · rw [hlines, List.getElem?_append_left hfront, List.getElem?_eq_getElem hfront]
  · rw [← hrest, List.getElem?_append_left hfront, List.getElem?_eq_getElem hfront]

/-- Behind the closed lines stands an empty one. -/
theorem getElem?_lines_closeLine_last (t : Text) :
    (lines (closeLine t))[lineFeeds (closeLine t)]? = some [] := by
  obtain ⟨front, hlines, hlength, -⟩ := lines_closeLine t
  rw [hlines, ← hlength, List.getElem?_append_right (Nat.le_refl _), Nat.sub_self]
  rfl

/-! ### Lines by number -/

/-- The line with a given number, counted from one. -/
def line? (t : Text) (number : Int) : Option Text :=
  if number ≤ 0 then none else (lines t)[(number - 1).toNat]?

theorem line?_add_one (t : Text) (i : Nat) : line? t (i + 1) = (lines t)[i]? := by
  have h : ¬ (i : Int) + 1 ≤ 0 := by omega
  rw [line?, if_neg h, Int.add_sub_cancel, Int.toNat_natCast]

/-- A line that there is has a number from one up to the number of lines. -/
theorem bounds_of_line? {t line : Text} {number : Int} (h : line? t number = some line) :
    1 ≤ number ∧ number ≤ (lines t).length := by
  rw [line?] at h
  split at h
  · simp at h
  · have hlt := (List.getElem?_eq_some_iff.1 h).1
    omega

/-! ### Lines in their places -/

/-- The line stands between two parts of the text, behind `i` line feeds: a line feed or nothing is
on either side of it, and none in it. -/
structure IsLine (t : Text) (i : Nat) (front line rest : Text) : Prop where
  written : t = front ++ (line ++ rest)
  number : lineFeeds front = i
  unbroken : '\n' ∉ line
  opens : front = [] ∨ ∃ before, front = before ++ ['\n']
  closes : rest = [] ∨ ∃ after, rest = '\n' :: after

theorem IsLine.getElem?_lines {t front line rest : Text} {i : Nat}
    (h : IsLine t i front line rest) : (lines t)[i]? = some line := by
  have hfirst : (lines (line ++ rest))[0]? = some line := by
    rcases h.closes with rfl | ⟨after, rfl⟩
    · rw [List.append_nil, lines_of_notMem h.unbroken]
      rfl
    · rw [lines_append_cons, lines_of_notMem h.unbroken]
      rfl
  rw [h.written, ← h.number]
  rcases h.opens with rfl | ⟨before, rfl⟩
  · exact hfirst
  · have hcount : lineFeeds (before ++ ['\n']) = (lines before).length := by
      rw [length_lines, lineFeeds_append]
      rfl
    rw [List.append_assoc, List.singleton_append, lines_append_cons, hcount,
      List.getElem?_append_right (Nat.le_refl _), Nat.sub_self, hfirst]

theorem IsLine.cons {t front line rest : Text} {i j : Nat} {c : Char}
    (h : IsLine t i front line rest) (hc : c = '\n' ∨ front ≠ [])
    (hj : lineFeeds (c :: front) = j) : IsLine (c :: t) j (c :: front) line rest := by
  refine ⟨by rw [h.written, List.cons_append], hj, h.unbroken, Or.inr ?_, h.closes⟩
  rcases h.opens with rfl | ⟨before, rfl⟩
  · exact ⟨[], by rw [hc.resolve_right (absurd rfl)]; rfl⟩
  · exact ⟨c :: before, rfl⟩

/-- Each line has its place. -/
theorem exists_isLine {t line : Text} {i : Nat} (h : (lines t)[i]? = some line) :
    ∃ front rest, IsLine t i front line rest := by
  induction t generalizing i line with
  | nil =>
      cases i with
      | zero =>
          obtain rfl : [] = line := by simpa [lines, split] using h
          exact ⟨[], [], rfl, rfl, by simp, Or.inl rfl, Or.inl rfl⟩
      | succ i => simp [lines, split] at h
  | cons c t ih =>
      by_cases hc : c = '\n'
      · subst hc
        rw [lines_cons_lineFeed] at h
        cases i with
        | zero =>
            obtain rfl : [] = line := by simpa using h
            exact ⟨[], '\n' :: t, rfl, rfl, by simp, Or.inl rfl, Or.inr ⟨t, rfl⟩⟩
        | succ i =>
            obtain ⟨front, rest, hline⟩ := ih (by simpa using h)
            exact ⟨_, rest, hline.cons (Or.inl rfl) (by simpa [lineFeeds] using hline.number)⟩
      · rw [lines_cons_of_ne hc] at h
        obtain ⟨first, others, hlines⟩ := List.exists_cons_of_ne_nil (split_ne_nil '\n' t)
        change lines t = first :: others at hlines
        rw [hlines] at h
        cases i with
        | zero =>
            obtain rfl : c :: first = line := by simpa [consFirst] using h
            obtain ⟨front, rest, hline⟩ := ih (by rw [hlines]; rfl : (lines t)[0]? = some first)
            -- In front of the first line there is nothing.
            have hfront : front = [] := by
              refine hline.opens.resolve_right ?_
              rintro ⟨before, rfl⟩
              exact absurd hline.number (by simp [lineFeeds])
            refine ⟨[], rest, by rw [hline.written, hfront]; rfl, rfl, ?_, Or.inl rfl,
              hline.closes⟩
            rw [List.mem_cons, not_or]
            exact ⟨Ne.symm hc, hline.unbroken⟩
        | succ i =>
            have hrest : (lines t)[i + 1]? = some line := by
              rw [hlines]
              simpa [consFirst] using h
            obtain ⟨front, rest, hline⟩ := ih hrest
            have hfront : front ≠ [] := by
              rintro rfl
              exact absurd hline.number (by simp [lineFeeds])
            exact ⟨_, rest, hline.cons (Or.inr hfront)
              (by simpa [lineFeeds, hc] using hline.number)⟩

private theorem exists_last_line {s last : Text} (h : (lines s).getLast? = some last) :
    ∃ front, s = front ++ last ∧ '\n' ∉ last ∧ lineFeeds front + 1 = (lines s).length ∧
      (front = [] ∨ ∃ before, front = before ++ ['\n']) := by
  have hlast : (lines s)[lineFeeds s]? = some last := by
    rw [← h, List.getLast?_eq_getElem?, length_lines, Nat.add_sub_cancel]
  obtain ⟨front, rest, hline⟩ := exists_isLine hlast
  have hrest : rest = [] := by
    refine hline.closes.resolve_right ?_
    rintro ⟨after, rfl⟩
    have hcount := congrArg lineFeeds hline.written
    rw [lineFeeds_append, lineFeeds_append, hline.number] at hcount
    simp only [lineFeeds, List.count_cons_self] at hcount
    omega
  subst hrest
  refine ⟨front, ?_, hline.unbroken, ?_, hline.opens⟩
  · rw [hline.written, List.append_nil]
  · rw [hline.number, length_lines]

/-! ### Positions -/

private theorem exists_lines_append_singleton (s : Text) {c : Char} (h : c ≠ '\n') :
    ∃ front last, lines s = front ++ [last] ∧ lines (s ++ [c]) = front ++ [last ++ [c]] := by
  induction s with
  | nil => exact ⟨[], [], rfl, by rw [List.nil_append, lines_cons_of_ne h]; rfl⟩
  | cons d rest ih =>
      obtain ⟨front, last, hrest, hlonger⟩ := ih
      rw [List.cons_append]
      by_cases hd : d = '\n'
      · subst hd
        rw [lines_cons_lineFeed, lines_cons_lineFeed, hrest, hlonger]
        exact ⟨[] :: front, last, rfl, rfl⟩
      · rw [lines_cons_of_ne hd, lines_cons_of_ne hd, hrest, hlonger]
        cases front with
        | nil => exact ⟨[], d :: last, rfl, rfl⟩
        | cons line front => exact ⟨(d :: line) :: front, last, rfl, rfl⟩

/-- The characters of a line, and what ends it, stand on the line. -/
theorem IsLine.line_positionAt {t front line rest : Text} {i offset : Nat}
    (h : IsLine t i front line rest) (hfirst : front.length ≤ offset)
    (hlast : offset ≤ front.length + line.length) : (positionAt t offset).line = i + 1 := by
  obtain ⟨k, rfl⟩ := Nat.exists_eq_add_of_le hfirst
  have hnone : lineFeeds (line.take k) = 0 :=
    List.count_eq_zero.2 fun hmem => h.unbroken (List.mem_of_mem_take hmem)
  rw [Text.line_positionAt, h.written, List.take_length_add_append,
    List.take_append_of_le_length (by omega), lineFeeds_append, hnone, h.number]

/-- The position is the one behind a text, with lines and columns counted from one. -/
def Position.IsBehind (p : Position) (front : Text) : Prop :=
  p.line = (lines front).length ∧ ∃ last, (lines front).getLast? = some last ∧
    p.column = last.length + 1

private theorem Position.isBehind_first : Position.first.IsBehind [] := ⟨rfl, [], rfl, rfl⟩

private theorem Position.IsBehind.after {p : Position} {front : Text} (h : p.IsBehind front)
    (c : Char) : (p.after c).IsBehind (front ++ [c]) := by
  obtain ⟨hline, last, hlast, hcolumn⟩ := h
  by_cases hc : c = '\n'
  · subst hc
    have hlines : lines (front ++ ['\n']) = lines front ++ [[]] := lines_append_cons front []
    rw [Position.after, if_pos rfl, IsBehind, hlines]
    exact ⟨by simp [hline], [], by simp, rfl⟩
  · obtain ⟨before, line, hlines, hlonger⟩ := exists_lines_append_singleton front hc
    rw [hlines] at hline hlast
    obtain rfl : line = last := by simpa using hlast
    rw [Position.after, if_neg hc, IsBehind, hlonger]
    exact ⟨by simpa using hline, line ++ [c], by simp, by simp [hcolumn]⟩

private theorem Position.IsBehind.positionFrom {p : Position} {front : Text} (h : p.IsBehind front)
    (count : Nat) (t : Text) : (positionFrom p count t).IsBehind (front ++ t.take count) := by
  fun_induction Text.positionFrom p count t generalizing front with
  | case1 => simpa using h
  | case2 => simpa using h
  | case3 p count c rest ih => simpa using ih (h.after c)

/-- The position of an offset is the one behind the text in front of it. -/
theorem isBehind_positionAt (t : Text) (offset : Nat) :
    (positionAt t offset).IsBehind (t.take offset) :=
  Position.isBehind_first.positionFrom offset t

/-- A position behind a part of a text is on a line of the text, behind what its column counts. -/
theorem Position.IsBehind.exists_isLine {p : Position} {before : Text} (h : p.IsBehind before)
    (behind : Text) : ∃ front indent, before = front ++ indent ∧
      IsLine (before ++ behind) (lineFeeds front) front
        (indent ++ behind.takeWhile (· != '\n')) (behind.dropWhile (· != '\n')) ∧
      p = { line := lineFeeds front + 1, column := indent.length + 1 } := by
  obtain ⟨hline, indent, hindent, hcolumn⟩ := h
  obtain ⟨front, hbefore, hunbroken, hcount, hopens⟩ := exists_last_line hindent
  refine ⟨front, indent, hbefore, ?_, ?_⟩
  · constructor
    case written =>
      rw [List.append_assoc, List.takeWhile_append_dropWhile, hbefore, List.append_assoc]
    case number => rfl
    case unbroken =>
      rw [List.mem_append, not_or]
      refine ⟨hunbroken, fun hmem => ?_⟩
      exact absurd (List.all_eq_true.1 List.all_takeWhile _ hmem) (by decide)
    case opens => exact hopens
    case closes =>
      cases hrest : behind.dropWhile (· != '\n') with
      | nil => exact Or.inl rfl
      | cons c after =>
          have hc := List.head?_dropWhile_not (· != '\n') behind
          rw [hrest] at hc
          simp at hc
          exact Or.inr ⟨after, by rw [hc]⟩
  · cases p with
    | mk line column =>
        rw [Position.mk.injEq]
        exact ⟨hline.trans hcount.symm, hcolumn⟩

end SolidityBundler.Text
