/-
The words at which statements are found.

The pass over a masked source looks for a word only outside the statements it is in.  What it finds
can be said without it: a statement begins at a word, and ends at the first semicolon from there on.
And what it passes over can be said as well: a word with a semicolon somewhere behind it stands
inside one of the statements that are found, at its beginning or further on.

Both go along the characters of the pass.  It takes one fact about a word to be behind the other
characters of a text: whether a word went on in front of the text.  `WordStarts` carries it, and
`wordStarts_cons_iff` moves it over a character just as the pass does.
-/
import SolidityBundler.Proofs.Source.Statements

namespace SolidityBundler

variable {inWord : Bool} {text : Text} {i j offset : Nat} {began : Option Nat} {c : Char}
  {extent : Nat × Nat}

/-! ### Words -/

/-- The word `import` stands at the offset, and no word goes on into it.  `inWord` says whether one
goes on into the text. -/
structure WordStarts (inWord : Bool) (text : Text) (i : Nat) : Prop where
  begins : beginsWithWord importWord (text.drop i) = true
  apart : ((text.take i).getLast?.map Text.isWordChar).getD inWord = false

theorem wordStarts_zero_iff :
    WordStarts inWord text 0 ↔ (!inWord && beginsWithWord importWord text) = true := by
  rw [Bool.and_eq_true, Bool.not_eq_true']
  constructor
  · intro h
    exact ⟨h.apart, h.begins⟩
  · intro h
    exact ⟨h.2, h.1⟩

theorem wordStarts_cons_iff :
    WordStarts inWord (c :: text) (i + 1) ↔ WordStarts (Text.isWordChar c) text i := by
  have happ : (((c :: text).take (i + 1)).getLast?.map Text.isWordChar).getD inWord
      = ((text.take i).getLast?.map Text.isWordChar).getD (Text.isWordChar c) := by
    rw [List.take_succ_cons, List.getLast?_cons]
    cases (text.take i).getLast? with
    | none => rfl
    | some d => rfl
  constructor
  · intro h
    exact ⟨h.begins, happ ▸ h.apart⟩
  · intro h
    exact ⟨h.begins, happ.trans h.apart⟩

private theorem WordStarts.ofFalse (h : WordStarts inWord text i) : WordStarts false text i := by
  refine ⟨h.begins, ?_⟩
  have happ := h.apart
  cases hlast : (text.take i).getLast? with
  | none => rfl
  | some d => simpa [hlast] using happ

private theorem WordStarts.ofPos (h : WordStarts false text i) (hi : 0 < i) :
    WordStarts inWord text i := by
  cases text with
  | nil => exact absurd h.begins (by simp [beginsWithWord, importWord])
  | cons c text =>
      obtain ⟨i, rfl⟩ := Nat.exists_eq_succ_of_ne_zero (Nat.pos_iff_ne_zero.1 hi)
      exact wordStarts_cons_iff.2 (wordStarts_cons_iff.1 h)

/-- The letters of the word stand behind one another, and no word goes on behind them. -/
theorem beginsWithWord_drop_iff :
    beginsWithWord importWord (text.drop i) = true ↔
      (∀ k (_ : k < importWord.length), text[i + k]? = some importWord[k]) ∧
        (text.drop (i + importWord.length)).head?.any Text.isWordChar = false := by
  rw [beginsWithWord, Bool.and_eq_true, List.isPrefixOf_iff_prefix, List.drop_drop,
    Bool.not_eq_true', List.prefix_iff_getElem?]
  simp only [List.getElem?_drop]

private theorem head_of_beginsWithWord (h : beginsWithWord importWord (c :: text) = true) :
    c = 'i' := by
  obtain ⟨behind, heq, -⟩ := beginsWithWord_iff.1 h
  exact (List.cons.inj heq).1

/-! ### What is found -/

/-- No semicolon stands between the two offsets. -/
def Unended (text : Text) (i j : Nat) : Prop := ∀ k, i ≤ k → k < j → text[k]? ≠ some ';'

private theorem Unended.cons (h : Unended text i j) : Unended (c :: text) (i + 1) (j + 1) := by
  intro k hi hj
  obtain ⟨k, rfl⟩ := Nat.exists_eq_add_of_le hi
  rw [Nat.add_right_comm, List.getElem?_cons_succ]
  exact h (i + k) (by omega) (by omega)

private theorem Unended.extend (h : Unended text 0 j) (hc : c ≠ ';') :
    Unended (c :: text) 0 (j + 1) := by
  intro k _ hj
  cases k with
  | zero => simpa using hc
  | succ k =>
      rw [List.getElem?_cons_succ]
      exact h k (Nat.zero_le k) (by omega)

/-- From one offset to another a statement stands: from a word, or from where the statement under
way began, to the next semicolon. -/
structure Found (began : Option Nat) (inWord : Bool) (offset : Nat) (text : Text)
    (extent : Nat × Nat) (j : Nat) : Prop where
  stop : extent.2 = offset + j + 1
  ends : text[j]? = some ';'
  starts : began = some extent.1 ∧ Unended text 0 j ∨
    ∃ i, extent.1 = offset + i ∧ (began.isSome → 0 < i) ∧ i ≤ j ∧ WordStarts inWord text i ∧
      Unended text i j

/-- **Each statement that is found begins at a word and ends at the first semicolon behind it.** -/
theorem found_of_mem_extentsFrom (h : extent ∈ extentsFrom began inWord offset text) :
    ∃ j, Found began inWord offset text extent j := by
  fun_induction extentsFrom began inWord offset text with
  | case1 => simp at h
  | case2 inWord start offset rest ih =>
      rcases List.mem_cons.1 h with rfl | h
      · exact ⟨0, rfl, rfl, Or.inl ⟨rfl, fun k _ hk => absurd hk (Nat.not_lt_zero k)⟩⟩
      · obtain ⟨j, hstop, hends, hstarts⟩ := ih h
        obtain ⟨i, hi, -, hle, hword, hfree⟩ := hstarts.resolve_left (by simp)
        refine ⟨j + 1, by omega, hends, Or.inr ⟨i + 1, by omega, fun _ => by omega, by omega, ?_,
          hfree.cons⟩⟩
        exact wordStarts_cons_iff.2 hword
  | case3 inWord start offset c rest hc ih =>
      obtain ⟨j, hstop, hends, hstarts⟩ := ih h
      refine ⟨j + 1, by omega, hends, ?_⟩
      rcases hstarts with ⟨hbegan, hfree⟩ | ⟨i, hi, hpos, hle, hword, hfree⟩
      · exact Or.inl ⟨hbegan, hfree.extend hc⟩
      · exact Or.inr ⟨i + 1, by omega, fun _ => by omega, by omega,
          wordStarts_cons_iff.2 (hword.ofPos (hpos rfl)), hfree.cons⟩
  | case4 inWord offset c rest hbegins ih =>
      obtain ⟨j, hstop, hends, hstarts⟩ := ih h
      refine ⟨j + 1, by omega, hends, Or.inr ?_⟩
      rcases hstarts with ⟨hbegan, hfree⟩ | ⟨i, hi, hpos, hle, hword, hfree⟩
      · have hc : c ≠ ';' := by
          rw [head_of_beginsWithWord (Bool.and_eq_true_iff.1 hbegins).2]
          decide
        exact ⟨0, (Option.some.inj hbegan).symm, by simp, by omega, wordStarts_zero_iff.2 hbegins,
          hfree.extend hc⟩
      · exact ⟨i + 1, by omega, by simp, by omega,
          wordStarts_cons_iff.2 (hword.ofPos (hpos rfl)), hfree.cons⟩
  | case5 inWord offset c rest hbegins ih =>
      obtain ⟨j, hstop, hends, hstarts⟩ := ih h
      obtain ⟨i, hi, -, hle, hword, hfree⟩ := hstarts.resolve_left (by simp)
      exact ⟨j + 1, by omega, hends, Or.inr ⟨i + 1, by omega, by simp, by omega,
        wordStarts_cons_iff.2 hword, hfree.cons⟩⟩

/-! ### What is passed over -/

theorem exists_mem_extentsFrom_some (hends : text[j]? = some ';') (start : Nat) :
    ∃ extent ∈ extentsFrom (some start) inWord offset text,
      extent.1 = start ∧ offset < extent.2 := by
  obtain ⟨front, behind, rfl, hfree⟩ :=
    List.eq_append_cons_of_mem (List.mem_of_getElem? hends)
  rw [extentsFrom_some_append hfree]
  exact ⟨_, List.mem_cons_self, rfl, by simp only; omega⟩

/-- **A word with a semicolon behind it stands inside a statement that is found.** -/
theorem exists_mem_extentsFrom (hbegan : ∀ start, began = some start → start ≤ offset)
    (hword : WordStarts inWord text i) (hle : i ≤ j) (hends : text[j]? = some ';') :
    ∃ extent ∈ extentsFrom began inWord offset text,
      extent.1 ≤ offset + i ∧ offset + i < extent.2 := by
  fun_induction extentsFrom began inWord offset text generalizing i j with
  | case1 => simp at hends
  | case2 inWord start offset rest ih =>
      cases i with
      | zero => exact ⟨_, List.mem_cons_self, hbegan start rfl, Nat.lt_succ_self _⟩
      | succ i =>
          obtain ⟨j, rfl⟩ := Nat.exists_eq_add_of_le' (Nat.one_le_of_lt hle)
          obtain ⟨extent, hmem, hcovers⟩ := ih (by simp) (wordStarts_cons_iff.1 hword)
            (Nat.le_of_succ_le_succ hle) hends
          exact ⟨extent, List.mem_cons_of_mem _ hmem, by omega⟩
  | case3 inWord start offset c rest hc ih =>
      obtain ⟨j, rfl⟩ : ∃ k, j = k + 1 := by
        refine Nat.exists_eq_succ_of_ne_zero ?_
        rintro rfl
        exact hc (by simpa using hends)
      have hstart := hbegan start rfl
      cases i with
      | zero =>
          obtain ⟨extent, hmem, hbegins, hcovers⟩ :=
            exists_mem_extentsFrom_some (List.getElem?_cons_succ ▸ hends) start
          exact ⟨extent, hmem, by omega, by omega⟩
      | succ i =>
          obtain ⟨extent, hmem, hcovers⟩ := ih (by simpa using Nat.le_succ_of_le hstart)
            (wordStarts_cons_iff.1 hword).ofFalse (Nat.le_of_succ_le_succ hle) hends
          exact ⟨extent, hmem, by omega⟩
  | case4 inWord offset c rest hbegins ih =>
      obtain ⟨j, rfl⟩ : ∃ k, j = k + 1 := by
        refine Nat.exists_eq_succ_of_ne_zero ?_
        rintro rfl
        have hc := head_of_beginsWithWord (Bool.and_eq_true_iff.1 hbegins).2
        simp [hc] at hends
      cases i with
      | zero =>
          obtain ⟨extent, hmem, hbegins, hcovers⟩ :=
            exists_mem_extentsFrom_some (List.getElem?_cons_succ ▸ hends) offset
          exact ⟨extent, hmem, by omega, by omega⟩
      | succ i =>
          obtain ⟨extent, hmem, hcovers⟩ := ih (by simp) (wordStarts_cons_iff.1 hword).ofFalse
            (Nat.le_of_succ_le_succ hle) hends
          exact ⟨extent, hmem, by omega⟩
  | case5 inWord offset c rest hbegins ih =>
      cases i with
      | zero => exact absurd (wordStarts_zero_iff.1 hword) hbegins
      | succ i =>
          obtain ⟨j, rfl⟩ := Nat.exists_eq_add_of_le' (Nat.one_le_of_lt hle)
          obtain ⟨extent, hmem, hcovers⟩ := ih (by simp) (wordStarts_cons_iff.1 hword)
            (Nat.le_of_succ_le_succ hle) hends
          exact ⟨extent, hmem, by omega⟩

end SolidityBundler
