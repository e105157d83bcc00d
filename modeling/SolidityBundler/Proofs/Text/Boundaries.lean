/-
Lines that are cut at every boundary.

An excerpt cuts a text at all the characters that Unicode ends lines with, and a position counts
line feeds alone.  Line feeds are among those characters, so the two agree on a line as long as
there are no others, neither in front of the line nor in it.  With one of the others in front of it
the line has a larger number among the lines of the excerpt, and with one in it the line is cut.
-/
import SolidityBundler.Proofs.Text.Lines

namespace SolidityBundler.Text

variable {t front line rest : Text} {i : Nat}

/-- The line stands between two parts of the text, behind `i` line boundaries: a line boundary or
nothing is on either side of it, and none in it. -/
structure IsBoundaryLine (t : Text) (i : Nat) (front line rest : Text) : Prop where
  written : t = front ++ (line ++ rest)
  number : front.countP isLineBoundary = i
  unbroken : ∀ c ∈ line, isLineBoundary c = false
  opens : front = [] ∨ ∃ before c, front = before ++ [c] ∧ isLineBoundary c = true
  closes : rest = [] ∨ ∃ c after, rest = c :: after ∧ isLineBoundary c = true

/-! ### Each number has its line -/

private theorem mem_of_append_eq_concat {s s' before : Text} {c : Char} (hne : s' ≠ [])
    (h : s ++ s' = before ++ [c]) : c ∈ s' := by
  have hlast := congrArg List.getLast? h
  rw [List.getLast?_append, List.getLast?_concat, List.getLast?_eq_some_getLast hne,
    Option.some_or, Option.some.injEq] at hlast
  rw [← hlast]
  exact List.getLast_mem hne

private theorem IsBoundaryLine.front_eq_of_le {front' line' rest' : Text}
    (h : IsBoundaryLine t i front line rest) (h' : IsBoundaryLine t i front' line' rest')
    (hle : front.length ≤ front'.length) : front = front' := by
  have hfront : front <+: t := by
    rw [h.written]
    exact List.prefix_append _ _
  have hfront' : front' <+: t := by
    rw [h'.written]
    exact List.prefix_append _ _
  obtain ⟨middle, rfl⟩ := List.prefix_of_prefix_length_le hfront hfront' hle
  have hcount := h'.number
  rw [List.countP_append, h.number, Nat.add_eq_left, List.countP_eq_zero] at hcount
  by_cases hmiddle : middle = []
  · rw [hmiddle, List.append_nil]
  · rcases h'.opens with hnil | ⟨before, c, hlast, hc⟩
    · exact absurd (List.append_eq_nil_iff.1 hnil).2 hmiddle
    · exact absurd hc (hcount c (mem_of_append_eq_concat hmiddle hlast))

theorem IsBoundaryLine.takeWhile_eq (h : IsBoundaryLine t i front line rest) :
    (line ++ rest).takeWhile (fun c => !isLineBoundary c) = line := by
  have hrest : rest.takeWhile (fun c => !isLineBoundary c) = [] := by
    rcases h.closes with rfl | ⟨c, after, rfl, hc⟩
    · rfl
    · exact List.takeWhile_cons_of_neg (by simp [hc])
  rw [List.takeWhile_append_of_pos fun c hc => by rw [h.unbroken c hc]; rfl, hrest,
    List.append_nil]

/-- **There is one line behind so many boundaries, and one place where it stands.** -/
theorem IsBoundaryLine.unique {front' line' rest' : Text} (h : IsBoundaryLine t i front line rest)
    (h' : IsBoundaryLine t i front' line' rest') : front = front' ∧ line = line' := by
  have hfront : front = front' := by
    rcases Nat.le_total front.length front'.length with hle | hle
    · exact h.front_eq_of_le h' hle
    · exact (h'.front_eq_of_le h hle).symm
  subst hfront
  refine ⟨rfl, ?_⟩
  rw [← h.takeWhile_eq, ← h'.takeWhile_eq,
    List.append_cancel_left (h.written.symm.trans h'.written)]

theorem IsBoundaryLine.cons {j : Nat} {c : Char} (h : IsBoundaryLine t i front line rest)
    (hc : isLineBoundary c = true ∨ front ≠ [])
    (hj : (c :: front).countP isLineBoundary = j) :
    IsBoundaryLine (c :: t) j (c :: front) line rest := by
  refine ⟨by rw [h.written, List.cons_append], hj, h.unbroken, Or.inr ?_, h.closes⟩
  rcases h.opens with rfl | ⟨before, d, rfl, hd⟩
  · exact ⟨[], c, rfl, hc.resolve_right (absurd rfl)⟩
  · exact ⟨c :: before, d, rfl, hd⟩

theorem exists_isBoundaryLine (h : i ≤ t.countP isLineBoundary) :
    ∃ front line rest, IsBoundaryLine t i front line rest := by
  induction t generalizing i with
  | nil =>
      obtain rfl : i = 0 := Nat.le_zero.1 h
      exact ⟨[], [], [], rfl, rfl, by simp, Or.inl rfl, Or.inl rfl⟩
  | cons c t ih =>
      by_cases hc : isLineBoundary c = true
      · cases i with
        | zero => exact ⟨[], [], c :: t, rfl, rfl, by simp, Or.inl rfl, Or.inr ⟨c, t, rfl, hc⟩⟩
        | succ i =>
            rw [List.countP_cons_of_pos hc, Nat.add_le_add_iff_right] at h
            obtain ⟨front, line, rest, hline⟩ := ih h
            refine ⟨c :: front, line, rest, hline.cons (Or.inl hc) ?_⟩
            rw [List.countP_cons_of_pos hc, hline.number]
      · rw [List.countP_cons_of_neg hc] at h
        obtain ⟨front, line, rest, hline⟩ := ih h
        by_cases hfront : front = []
        · subst hfront
          obtain rfl : 0 = i := hline.number
          refine ⟨[], c :: line, rest, by rw [hline.written]; rfl, rfl, ?_, Or.inl rfl,
            hline.closes⟩
          rw [List.forall_mem_cons]
          exact ⟨Bool.eq_false_iff.2 hc, hline.unbroken⟩
        · refine ⟨c :: front, line, rest, hline.cons (Or.inr hfront) ?_⟩
          rw [List.countP_cons_of_neg hc, hline.number]

/-! ### The lines of an excerpt -/

theorem boundaryLines_cons {c : Char} (hc : c ≠ '\r') (rest : Text) :
    boundaryLines (c :: rest) = if isLineBoundary c then [] :: boundaryLines rest
      else consFirst c (boundaryLines rest) := by
  rw [boundaryLines]
  rintro - rfl
  exact absurd rfl hc

private theorem getElem?_consFirst_succ (c : Char) (pieces : List Text) (k : Nat) :
    (consFirst c pieces)[k + 1]? = pieces[k + 1]? := by
  cases pieces <;> rfl

private theorem getElem?_zero_boundaryLines (hreturn : '\r' ∉ line ++ rest)
    (hne : line ++ rest ≠ []) (hunbroken : ∀ c ∈ line, isLineBoundary c = false)
    (hcloses : rest = [] ∨ ∃ c after, rest = c :: after ∧ isLineBoundary c = true) :
    (boundaryLines (line ++ rest))[0]? = some line := by
  induction line with
  | nil =>
      obtain ⟨c, after, rfl, hc⟩ := hcloses.resolve_left hne
      rw [List.nil_append, List.mem_cons, not_or] at hreturn
      rw [List.nil_append, boundaryLines_cons (Ne.symm hreturn.1), if_pos hc]
      rfl
  | cons c line ih =>
      rw [List.forall_mem_cons] at hunbroken
      rw [List.cons_append, List.mem_cons, not_or] at hreturn
      rw [List.cons_append, boundaryLines_cons (Ne.symm hreturn.1), hunbroken.1,
        if_neg Bool.false_ne_true]
      by_cases hrest : line ++ rest = []
      · rw [hrest, (List.append_eq_nil_iff.1 hrest).1]
        rfl
      · have hfirst := ih hreturn.2 hrest hunbroken.2
        cases hlines : boundaryLines (line ++ rest) with
        | nil =>
            rw [hlines] at hfirst
            cases hfirst
        | cons first others =>
            rw [hlines] at hfirst
            obtain rfl : first = line := Option.some.inj hfirst
            rfl

theorem getElem?_boundaryLines_append {s : Text} (hreturn : '\r' ∉ front)
    (hopens : front = [] ∨ ∃ before c, front = before ++ [c] ∧ isLineBoundary c = true) :
    (boundaryLines (front ++ s))[front.countP isLineBoundary]? = (boundaryLines s)[0]? := by
  induction front with
  | nil => rfl
  | cons c front ih =>
      rw [List.mem_cons, not_or] at hreturn
      obtain ⟨before, d, hfront, hd⟩ := hopens.resolve_left (List.cons_ne_nil _ _)
      have hopens' : front = [] ∨ ∃ before c, front = before ++ [c] ∧ isLineBoundary c = true := by
        cases before with
        | nil => exact Or.inl (List.cons.inj hfront).2
        | cons b before => exact Or.inr ⟨before, d, (List.cons.inj hfront).2, hd⟩
      rw [List.cons_append, boundaryLines_cons (Ne.symm hreturn.1)]
      by_cases hc : isLineBoundary c = true
      · rw [if_pos hc, List.countP_cons_of_pos hc, List.getElem?_cons_succ, ih hreturn.2 hopens']
      · have hne : front ≠ [] := by
          rintro rfl
          cases before with
          | nil =>
              obtain rfl : c = d := (List.cons.inj hfront).1
              exact hc hd
          | cons b before => simp at hfront
        obtain ⟨before', d', rfl, hd'⟩ := hopens'.resolve_left hne
        have hpositive : 0 < (before' ++ [d']).countP isLineBoundary :=
          List.countP_pos_iff.2 ⟨d', by simp, hd'⟩
        obtain ⟨k, hk⟩ := Nat.exists_eq_add_of_le' hpositive
        have hrest := ih hreturn.2 hopens'
        rw [hk] at hrest
        rw [if_neg hc, List.countP_cons_of_neg hc, hk, getElem?_consFirst_succ, hrest]

/-- **The lines of an excerpt are those behind so many boundaries.**  At the end of the text there
is no further one. -/
theorem IsBoundaryLine.getElem?_boundaryLines (h : IsBoundaryLine t i front line rest)
    (hreturn : '\r' ∉ t) (hne : line ++ rest ≠ []) : (boundaryLines t)[i]? = some line := by
  rw [h.written, List.mem_append, not_or] at hreturn
  rw [h.written, ← h.number, getElem?_boundaryLines_append hreturn.1 h.opens,
    getElem?_zero_boundaryLines hreturn.2 hne h.unbroken h.closes]

/-! ### Lines of positions and lines of excerpts -/

/-- Line feeds are the only line boundaries in the text. -/
def OnlyLineFeeds (t : Text) : Prop := ∀ c ∈ t, isLineBoundary c = true → c = '\n'

-- Going through the text; going through all characters would take too long.
instance (t : Text) : Decidable (OnlyLineFeeds t) :=
  List.decidableBAll (fun c => isLineBoundary c = true → c = '\n') t

private theorem lineFeeds_le_countP (t : Text) : lineFeeds t ≤ t.countP isLineBoundary :=
  List.countP_mono_left fun c _ hc => by
    rw [beq_iff_eq.1 hc]
    rfl

theorem countP_eq_lineFeeds_iff :
    t.countP isLineBoundary = lineFeeds t ↔ OnlyLineFeeds t := by
  have hfeed : isLineBoundary '\n' = true := rfl
  induction t with
  | nil => exact iff_of_true rfl fun c hc => absurd hc List.not_mem_nil
  | cons c t ih =>
      have hle := lineFeeds_le_countP t
      have hcons : OnlyLineFeeds (c :: t) ↔
          (isLineBoundary c = true → c = '\n') ∧ t.countP isLineBoundary = lineFeeds t :=
        List.forall_mem_cons.trans (and_congr_right fun _ => ih.symm)
      rw [hcons, lineFeeds]
      by_cases hc : c = '\n'
      · subst hc
        rw [List.countP_cons_of_pos hfeed, List.count_cons_self, lineFeeds]
        simp
      · rw [List.count_cons_of_ne hc]
        change _ = lineFeeds t ↔ _
        by_cases hboundary : isLineBoundary c = true
        · rw [List.countP_cons_of_pos hboundary]
          refine iff_of_false (by omega) fun h => hc (h.1 hboundary)
        · rw [List.countP_cons_of_neg hboundary]
          exact ⟨fun h => ⟨fun h' => absurd h' hboundary, h⟩, fun h => h.2⟩

/-- **A line of positions is the line of an excerpt with its number exactly if there are no other
boundaries than line feeds up to its end.** -/
theorem IsLine.isBoundaryLine_iff (h : IsLine t i front line rest) :
    IsBoundaryLine t i front line rest ↔ OnlyLineFeeds (front ++ line) := by
  have hfeed : isLineBoundary '\n' = true := rfl
  constructor
  · intro hline c hc hboundary
    rcases List.mem_append.1 hc with hmem | hmem
    · exact countP_eq_lineFeeds_iff.1 (hline.number.trans h.number.symm) c hmem hboundary
    · rw [hline.unbroken c hmem] at hboundary
      cases hboundary
  · intro honly
    have hfront : OnlyLineFeeds front := fun c hc => honly c (List.mem_append_left _ hc)
    refine ⟨h.written, (countP_eq_lineFeeds_iff.2 hfront).trans h.number, ?_, ?_, ?_⟩
    · intro c hc
      refine Bool.eq_false_iff.2 fun hboundary => h.unbroken ?_
      rw [← honly c (List.mem_append_right _ hc) hboundary]
      exact hc
    · rcases h.opens with hnil | ⟨before, hfront⟩
      · exact Or.inl hnil
      · exact Or.inr ⟨before, '\n', hfront, hfeed⟩
    · rcases h.closes with hnil | ⟨after, hrest⟩
      · exact Or.inl hnil
      · exact Or.inr ⟨'\n', after, hrest, hfeed⟩

/-- Every line of positions but an empty one at the end has a line of an excerpt with its number. -/
theorem IsLine.exists_isBoundaryLine (h : IsLine t i front line rest) (hne : line ++ rest ≠ []) :
    ∃ front' shown rest', IsBoundaryLine t i front' shown rest' ∧ shown ++ rest' ≠ [] := by
  have hcount : t.countP isLineBoundary
      = front.countP isLineBoundary + (line ++ rest).countP isLineBoundary := by
    rw [h.written, List.countP_append]
  have hle : i ≤ front.countP isLineBoundary := by
    rw [← h.number]
    exact lineFeeds_le_countP front
  have hcountable : i ≤ t.countP isLineBoundary := by omega
  obtain ⟨front', shown, rest', hline⟩ := Text.exists_isBoundaryLine hcountable
  refine ⟨front', shown, rest', hline, fun hnil => ?_⟩
  -- A place behind the whole text is one behind a boundary at its end, and that is one too many.
  have hwhole : front ++ (line ++ rest) = front' := by
    rw [← h.written, hline.written, hnil, List.append_nil]
  have hnumber := hline.number
  rcases hline.opens with hempty | ⟨before, c, hfront, hc⟩
  · rw [← hwhole] at hempty
    exact hne (List.append_eq_nil_iff.1 hempty).2
  · have hmem := mem_of_append_eq_concat hne (hwhole.trans hfront)
    have hpositive : 0 < (line ++ rest).countP isLineBoundary :=
      List.countP_pos_iff.2 ⟨c, hmem, hc⟩
    rw [← hwhole, List.countP_append] at hnumber
    omega

end SolidityBundler.Text
