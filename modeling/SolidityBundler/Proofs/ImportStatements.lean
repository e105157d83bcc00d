/-
The import statements of a source.

What is found in the masked source is what a reader of the source calls an import statement: the
word `import` in code, up to the first semicolon in code.  A word of the masked source is one of the
source, because masking leaves code as it is and because code does not begin or end inside a word.

So each edge stands for a statement of the source.  The other way round, a word with a semicolon
behind it stands inside a statement that is found, and the statement is listed unless no two of its
quotes can be those of a specifier.
-/
import SolidityBundler.Proofs.CommentOut
import SolidityBundler.Proofs.Specifiers
import SolidityBundler.Proofs.Text.Lines

namespace SolidityBundler

variable {name source : Text} {i j start stop : Nat} {c : Char} {extent : Nat × Nat}
  {edge : ImportEdge}

/-! ### Words of the source -/

/-- The word `import` stands in code, and it is no part of a longer word. -/
structure ImportAt (source : Text) (i : Nat) : Prop where
  letters : ∀ k (_ : k < importWord.length), CodeAt source (i + k) importWord[k]
  before : (source.take i).getLast?.any Text.isWordChar = false
  behind : (source.drop (i + importWord.length)).head?.any Text.isWordChar = false

private theorem getLast?_take_succ (h : i < source.length) :
    (source.take (i + 1)).getLast? = source[i]? := by
  have hlength : (source.take (i + 1)).length - 1 = i := by
    rw [List.length_take]
    omega
  rw [List.getLast?_eq_getElem?, hlength, List.getElem?_take_of_lt (Nat.lt_succ_self i)]

/-- What masking puts in place of a character is no part of a word unless the character is. -/
private theorem any_isWordChar_mask (h : source[i]?.any Text.isWordChar = false) :
    (mask source)[i]?.any Text.isWordChar = false := by
  rcases getElem?_mask source i with hsame | hblank
  · rw [hsame, h]
  · rw [hblank]
    decide

/-- Masking leaves a word of code as it is, and opens no longer word around it. -/
theorem ImportAt.wordStarts (h : ImportAt source i) : WordStarts false (mask source) i := by
  have hlength := (List.getElem?_eq_some_iff.1 (h.letters 0 (by decide)).1).1
  refine ⟨beginsWithWord_drop_iff.2 ⟨fun k hk => (h.letters k hk).getElem?_mask, ?_⟩, ?_⟩
  · have hbehind := h.behind
    rw [List.head?_drop] at hbehind ⊢
    exact any_isWordChar_mask hbehind
  · cases i with
    | zero => rfl
    | succ i =>
        have hbefore := h.before
        rw [getLast?_take_succ (by omega)] at hbefore
        have hany := any_isWordChar_mask hbefore
        rw [getLast?_take_succ (by rw [mask, length_maskFrom]; omega)]
        cases hlast : (mask source)[i]? with
        | none => rfl
        | some d => simpa [hlast] using hany

/-- A word that went on in the source would go on in the masked source, because all of it would be
code. -/
theorem WordStarts.importAt (h : WordStarts false (mask source) i) : ImportAt source i := by
  have hbare : ∀ k (_ : k < importWord.length), isBareCode importWord[k] = true := by decide
  obtain ⟨hletters, hbehind⟩ := beginsWithWord_drop_iff.1 h.begins
  have hcode : ∀ k (_ : k < importWord.length), CodeAt source (i + k) importWord[k] :=
    fun k hk => (codeAt_iff (hbare k hk)).2 (hletters k hk)
  refine ⟨hcode, ?_, ?_⟩
  · cases i with
    | zero => rfl
    | succ i =>
        have hfirst := hcode 0 (by decide)
        have hlength := (List.getElem?_eq_some_iff.1 hfirst.1).1
        rw [getLast?_take_succ (by omega)]
        cases hlast : source[i]? with
        | none => rfl
        | some c =>
            refine Bool.eq_false_iff.2 fun hword => ?_
            have hclass := code_of_isWordChar Mode.possible_code hlast hword hfirst.1 (by decide)
              hfirst.2
            have happ := h.apart
            rw [getLast?_take_succ (by rw [mask, length_maskFrom]; omega),
              CodeAt.getElem?_mask ⟨hlast, hclass⟩] at happ
            exact absurd (hword.symm.trans happ) (by decide)
  · rw [List.head?_drop]
    cases hnext : source[i + importWord.length]? with
    | none => rfl
    | some c =>
        refine Bool.eq_false_iff.2 fun hword => ?_
        have hclass := code_of_isWordChar_behind (hcode 5 (by decide)).2 hnext hword
        rw [List.head?_drop, CodeAt.getElem?_mask ⟨hnext, hclass⟩] at hbehind
        exact absurd (hword.symm.trans hbehind) (by decide)

/-! ### Statements of the source -/

/-- From one offset to another stands an import statement: from the word to the first semicolon
behind it, both in code. -/
structure IsStatement (source : Text) (start stop : Nat) : Prop where
  begins : ImportAt source start
  nonempty : start < stop
  ends : CodeAt source (stop - 1) ';'
  first : ∀ k, start ≤ k → k < stop - 1 → ¬ CodeAt source k ';'

/-- **What is found is a statement of the source.** -/
theorem isStatement_of_mem_extents (h : extent ∈ extents (mask source)) :
    IsStatement source extent.1 extent.2 := by
  obtain ⟨j, hstop, hends, hstarts⟩ := found_of_mem_extentsFrom h
  obtain ⟨i, hstart, -, hle, hword, hfree⟩ := hstarts.resolve_left (by simp)
  rw [Nat.zero_add] at hstart hstop
  rw [← hstart] at hword hfree hle
  have hlast : extent.2 - 1 = j := by omega
  constructor
  case begins => exact hword.importAt
  case nonempty => omega
  case ends =>
    rw [hlast]
    exact (codeAt_iff (by decide)).2 hends
  case first =>
    intro k hk hlt hcode
    exact hfree k hk (by omega) hcode.getElem?_mask

theorem ImportAt.stop_le (h : ImportAt source i) (hle : i ≤ j) (hj : CodeAt source j ';') :
    i + importWord.length ≤ j := by
  by_contra hlt
  obtain ⟨k, rfl⟩ := Nat.exists_eq_add_of_le hle
  have hk : k < importWord.length := by omega
  have hletter : importWord[k] = ';' := by
    rw [← Option.some.injEq, ← (h.letters k hk).1, hj.1]
  have hfree : ∀ k (_ : k < importWord.length), importWord[k] ≠ ';' := by decide
  exact hfree k hk hletter

theorem exists_mem_extents (hi : ImportAt source i) (hle : i ≤ j) (hj : CodeAt source j ';') :
    ∃ extent ∈ extents (mask source), extent.1 ≤ i ∧ i + importWord.length ≤ extent.2 := by
  have hnone : ∀ start, (none : Option Nat) = some start → start ≤ 0 := by simp
  obtain ⟨extent, hmem, hstart, hstop⟩ :=
    exists_mem_extentsFrom hnone hi.wordStarts hle hj.getElem?_mask
  rw [Nat.zero_add] at hstart hstop
  have hends := (isStatement_of_mem_extents hmem).ends
  have hlong := hi.stop_le (by omega) hends
  exact ⟨extent, hmem, hstart, by omega⟩

/-! ### Edges -/

/-- The edge stands for a statement of the source and says what is written there. -/
structure Declares (source : Text) (edge : ImportEdge) : Prop where
  statement : IsStatement source edge.start edge.stop
  /-- A semicolon in front of the last one stands inside a comment or a literal. -/
  hidden : ∀ k, edge.start ≤ k → k < edge.stop - 1 → source[k]? = some ';' →
    HiddenAt source k ';'
  begins : importWord <+: slice source edge.start edge.stop
  ends : [';'] <:+ slice source edge.start edge.stop
  specifier : edge.specifier <:+: slice source edge.start edge.stop
  readable : ∀ c ∈ edge.specifier, isQuote c = false ∧ c ≠ '\n'
  position : edge.position.IsBehind (source.take edge.start)

private theorem IsStatement.prefix_slice (h : IsStatement source start stop) :
    importWord <+: slice source start stop := by
  have hlong := h.begins.stop_le (Nat.le_sub_one_of_lt h.nonempty) h.ends
  refine List.prefix_iff_getElem?.2 fun k hk => ?_
  rw [getElem?_slice, if_pos (by omega)]
  exact (h.begins.letters k hk).1

private theorem IsStatement.suffix_slice (h : IsStatement source start stop) :
    [';'] <:+ slice source start stop := by
  obtain ⟨last, rfl⟩ := Nat.exists_eq_add_of_le' (Nat.one_le_of_lt h.nonempty)
  have hlast : slice source last (last + 1) = [';'] := by
    rw [slice, Nat.add_sub_cancel_left, List.take_one, List.head?_drop]
    exact congrArg Option.toList h.ends.1
  rw [← slice_append_slice source (Nat.le_of_lt_succ h.nonempty) (Nat.le_succ last), hlast]
  exact List.suffix_append _ _

/-- Each edge stands for a statement of the source. -/
theorem declares_of_mem_importsOf (h : edge ∈ importsOf name source) : Declares source edge := by
  obtain ⟨extent, hextent, hat⟩ := List.mem_filterMap.1 h
  obtain ⟨specifier, hfound, rfl⟩ := Option.map_eq_some_iff.1 hat
  obtain ⟨front, quote, back, hpair⟩ := exists_firstPair_of_firstQuoted? hfound
  have hstatement := isStatement_of_mem_extents hextent
  constructor
  case statement => exact hstatement
  case hidden =>
    intro k hk hlt hsemicolon
    exact hiddenAt_of_not_codeAt (by decide) hsemicolon (hstatement.first k hk hlt)
  case begins => exact hstatement.prefix_slice
  case ends => exact hstatement.suffix_slice
  case specifier =>
    show specifier <:+: slice source extent.1 extent.2
    rw [hpair.written]
    exact ⟨front ++ [quote], quote :: back, by simp⟩
  case readable =>
    intro c hc
    simpa [isSpecifierChar] using hpair.readable c hc
  case position => exact Text.isBehind_positionAt source extent.1

/-- **The edges of a source are its import statements, in order, and none is missed.**  Each of
them begins with the word, ends with the only semicolon of it that stands in code, and its specifier
is a piece of it that can stand between quotes.  A word of code with a semicolon of code behind it
stands inside one of them, or inside a statement without two quotes that can be those of a
specifier. -/
theorem importsOf_are_statements (name source : Text) :
    InOrder 0 source.length (importsOf name source) ∧
    (∀ edge ∈ importsOf name source, Declares source edge) ∧
    ∀ i j, ImportAt source i → i + importWord.length ≤ j → CodeAt source j ';' →
      (∃ edge ∈ importsOf name source,
        edge.start ≤ i ∧ i + importWord.length ≤ edge.stop) ∨
      ∃ start stop, IsStatement source start stop ∧ start ≤ i ∧ i + importWord.length ≤ stop ∧
        ∀ front quote body back,
          ¬ QuotedPair (slice source start stop) front quote body back := by
  refine ⟨inOrder_importsOf name source, fun edge => declares_of_mem_importsOf, ?_⟩
  intro i j hi hle hj
  obtain ⟨extent, hextent, hstart, hstop⟩ := exists_mem_extents hi (by omega) hj
  cases hat : edgeAt? name source extent with
  | some edge =>
      obtain ⟨hedgeStart, hedgeStop⟩ := extent_of_edgeAt? hat
      refine Or.inl ⟨edge, List.mem_filterMap.2 ⟨extent, hextent, hat⟩, ?_, ?_⟩
      · rw [hedgeStart]
        exact hstart
      · rw [hedgeStop]
        exact hstop
  | none =>
      refine Or.inr ⟨extent.1, extent.2, isStatement_of_mem_extents hextent, hstart, hstop, ?_⟩
      intro front quote body back
      exact not_quotedPair_of_firstQuoted? (Option.map_eq_none_iff.1 hat)

/-- A statement without a literal, and one with a comment in which a semicolon stands. -/
def literalFree : Text := "import x; import/*;*/\"a\";"

/-- The statement without a literal ends at its own semicolon, and the other one is listed. -/
theorem literalFree_statements :
    ImportAt literalFree 0 ∧ CodeAt literalFree 8 ';' ∧
      (importsOf ['m'] literalFree).map (fun edge => (edge.start, edge.stop)) = [(10, 25)] ∧
      ∃ stop, IsStatement literalFree 0 stop ∧ ∀ front quote body back,
        ¬ QuotedPair (slice literalFree 0 stop) front quote body back := by
  have hword : ImportAt literalFree 0 := ⟨by decide, by decide, by decide⟩
  have hends : CodeAt literalFree 8 ';' := by decide
  have hlisted : (importsOf ['m'] literalFree).map (fun edge => (edge.start, edge.stop))
      = [(10, 25)] := by decide
  refine ⟨hword, hends, hlisted, ?_⟩
  obtain ⟨-, -, hmissed⟩ := importsOf_are_statements ['m'] literalFree
  rcases hmissed 0 8 hword (by decide) hends with ⟨edge, hedge, hstart, -⟩ |
    ⟨start, stop, hstatement, hstart, -, hnone⟩
  · have hmem : (edge.start, edge.stop) ∈ [(10, 25)] :=
      hlisted ▸ List.mem_map.2 ⟨edge, hedge, rfl⟩
    rw [List.mem_singleton, Prod.mk.injEq] at hmem
    omega
  · obtain rfl := Nat.le_zero.1 hstart
    exact ⟨stop, hstatement, hnone⟩

end SolidityBundler
