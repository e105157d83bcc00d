/-
Statements that are commented out.

Turning statements into comments changes a text between the first and the last character of
each of them, and nowhere else.  Two facts about this are needed.  The number of lines stays
as it is, because a comment covers the lines of its statement.  And a character outside the
statements stays: in front of it stands the text that was there before, with its own
statements commented out.
-/
import SolidityBundler.Bundle.Layout
import SolidityBundler.Proofs.Source.Extents

namespace SolidityBundler

/-! ### Slices -/

theorem getElem?_slice (text : Text) (start stop i : Nat) :
    (slice text start stop)[i]? = if start + i < stop then text[start + i]? else none := by
  have hinside : i < stop - start ↔ start + i < stop := by omega
  simp only [slice, List.getElem?_take, List.getElem?_drop, hinside]

theorem slice_append_drop (text : Text) {start stop : Nat} (h : start ≤ stop) :
    slice text start stop ++ text.drop stop = text.drop start := by
  have hdrop : text.drop stop = (text.drop start).drop (stop - start) := by
    rw [List.drop_drop, Nat.add_sub_cancel' h]
  rw [slice, hdrop, List.take_append_drop]

theorem slice_append_slice (text : Text) {start middle stop : Nat} (hstart : start ≤ middle)
    (hstop : middle ≤ stop) :
    slice text start middle ++ slice text middle stop = slice text start stop := by
  have hlength : stop - start = (middle - start) + (stop - middle) := by omega
  have hdrop : text.drop middle = (text.drop start).drop (middle - start) := by
    rw [List.drop_drop, Nat.add_sub_cancel' hstart]
  rw [slice, slice, slice, hlength, List.take_add, hdrop]

theorem slice_middle (front middle behind : Text) :
    slice (front ++ (middle ++ behind)) front.length (front.length + middle.length) = middle := by
  rw [slice, List.drop_left, Nat.add_sub_cancel_left, List.take_left]

private theorem slice_append_left {before after : Text} {start stop : Nat}
    (h : stop ≤ before.length) : slice (before ++ after) start stop = slice before start stop := by
  by_cases hle : start ≤ stop
  · rw [slice, slice, List.drop_append_of_le_length (Nat.le_trans hle h),
      List.take_append_of_le_length (by rw [List.length_drop]; omega)]
  · rw [slice, slice, Nat.sub_eq_zero_of_le (by omega), List.take_zero, List.take_zero]

/-- A slice is the same in as much of the text as it needs. -/
theorem slice_take (text : Text) {start stop m : Nat} (h : stop ≤ m) :
    slice (text.take m) start stop = slice text start stop := by
  rw [slice, slice, List.drop_take, List.take_take, Nat.min_eq_left (by omega)]

/-! ### Lines -/

private theorem lineFeeds_spaceOut (a b : Char) (t : Text) :
    Text.lineFeeds (Text.spaceOut a b t) = Text.lineFeeds t := by
  fun_induction Text.spaceOut a b t with
  | case1 => rfl
  | case2 => rfl
  | case3 c d rest h ih =>
      obtain ⟨rfl, rfl⟩ := h
      show Text.lineFeeds ([c, ' ', d] ++ Text.spaceOut c d rest) = Text.lineFeeds ([c, d] ++ rest)
      rw [Text.lineFeeds_append, Text.lineFeeds_append, ih]
      simp [Text.lineFeeds, List.count_cons]
  | case4 c d rest h ih =>
      show Text.lineFeeds ([c] ++ Text.spaceOut a b (d :: rest))
        = Text.lineFeeds ([c] ++ d :: rest)
      rw [Text.lineFeeds_append, Text.lineFeeds_append, ih]

/-- A comment covers the lines of its statement. -/
theorem lineFeeds_commentedOut (statement : Text) :
    Text.lineFeeds (commentedOut statement) = Text.lineFeeds statement := by
  have hopening : Text.lineFeeds "/* ".toList = 0 := by decide
  have hclosing : Text.lineFeeds " */".toList = 0 := by decide
  unfold commentedOut
  rw [Text.lineFeeds_append, Text.lineFeeds_append, lineFeeds_spaceOut, hopening,
    hclosing, Nat.zero_add, Nat.add_zero]

/-- **Commenting statements out keeps the number of lines.** -/
theorem lineFeeds_commentOutFrom {text : Text} {cursor : Nat} {edges : List ImportEdge}
    (h : InOrder cursor text.length edges) :
    Text.lineFeeds (commentOutFrom text cursor edges) = Text.lineFeeds (text.drop cursor) := by
  induction edges generalizing cursor with
  | nil => rfl
  | cons edge edges ih =>
      have hbounds := h.bounds edge List.mem_cons_self
      rw [commentOutFrom, Text.lineFeeds_append, Text.lineFeeds_append, lineFeeds_commentedOut,
        ih h.tail, ← slice_append_drop text hbounds.1,
        ← slice_append_drop text (Nat.le_of_lt hbounds.2.1), Text.lineFeeds_append,
        Text.lineFeeds_append, Nat.add_assoc]

/-! ### Characters outside the statements -/

private theorem commentOutFrom_of_later {before after : Text} {c : Char} {cursor : Nat}
    {edges : List ImportEdge} (hcursor : cursor ≤ before.length)
    (hlater : ∀ edge ∈ edges, before.length < edge.start) :
    ∃ back, commentOutFrom (before ++ c :: after) cursor edges
      = before.drop cursor ++ c :: back := by
  cases edges with
  | nil =>
      refine ⟨after, ?_⟩
      rw [commentOutFrom, List.drop_append_of_le_length hcursor]
  | cons edge edges =>
      obtain ⟨n, hn⟩ := Nat.exists_eq_add_of_lt (hlater edge List.mem_cons_self)
      have hslice : slice (before ++ c :: after) cursor edge.start
          = before.drop cursor ++ c :: after.take n := by
        have hlength : edge.start - cursor = (before.drop cursor).length + (n + 1) := by
          rw [List.length_drop]
          omega
        rw [slice, List.drop_append_of_le_length hcursor, hlength, List.take_length_add_append,
          List.take_succ_cons]
      refine ⟨after.take n ++ (commentedOut (slice (before ++ c :: after) edge.start edge.stop) ++
        commentOutFrom (before ++ c :: after) edge.stop edges), ?_⟩
      rw [commentOutFrom, hslice]
      simp

/-- A character outside all statements stays, behind the text in front of it with the
statements there commented out. -/
theorem commentOutFrom_append_cons {before after : Text} {c : Char} {cursor length : Nat}
    {edges : List ImportEdge} (h : InOrder cursor length edges) (hcursor : cursor ≤ before.length)
    (houtside : ∀ edge ∈ edges, edge.stop ≤ before.length ∨ before.length < edge.start) :
    ∃ back, commentOutFrom (before ++ c :: after) cursor edges
      = commentOutFrom before cursor (edges.filter fun edge => edge.stop ≤ before.length) ++
          c :: back := by
  induction edges generalizing cursor with
  | nil => exact commentOutFrom_of_later hcursor (by simp)
  | cons edge edges ih =>
      have hbounds := h.bounds edge List.mem_cons_self
      rcases houtside edge List.mem_cons_self with hstop | hstart
      · obtain ⟨back, hback⟩ := ih h.tail hstop fun later hlater =>
          houtside later (List.mem_cons_of_mem _ hlater)
        refine ⟨back, ?_⟩
        rw [List.filter_cons_of_pos (by simpa using hstop), commentOutFrom, commentOutFrom, hback,
          slice_append_left hstop, slice_append_left (by omega)]
        simp
      · -- The other statements stand behind this one, so none ends in front of the character.
        have hlater : ∀ later ∈ edge :: edges, before.length < later.start := by
          intro later hlater
          rcases List.mem_cons.1 hlater with rfl | hlater
          · exact hstart
          · have := (h.tail.bounds later hlater).1
            omega
        have hnone : (edge :: edges).filter (fun edge => edge.stop ≤ before.length) = [] := by
          refine List.filter_eq_nil_iff.2 ?_
          intro later hmem
          have := hlater later hmem
          have := h.bounds later hmem
          simp only [decide_eq_true_eq]
          omega
        rw [hnone]
        exact commentOutFrom_of_later hcursor hlater

end SolidityBundler
