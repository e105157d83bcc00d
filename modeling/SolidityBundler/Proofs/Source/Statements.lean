/-
A source taken apart at its import statements.

A masked source either has no further statement, or it is a gap, a statement and a rest.  The
gap and the statement do not depend on the rest: the word that begins the statement and the
semicolon that ends it stand in the statement itself, and the word begins in the gap or in the
statement but never goes on from one into the other.  So the same statement is found before any
rest, and no statement is found where blanks stand in place of it.

The source itself falls apart at the same places, because the first and the last character of a
statement are characters of code.  `Parses` repeats this down to a source without statements, and
what is proved of whole sources later follows it.
-/
import SolidityBundler.Proofs.Source.Mask
import SolidityBundler.Proofs.Source.Extents

namespace SolidityBundler

/-! ### Words -/

theorem beginsWithWord_iff {word text : Text} :
    beginsWithWord word text = true ↔
      ∃ rest, text = word ++ rest ∧ rest.head?.any Text.isWordChar = false := by
  rw [beginsWithWord, Bool.and_eq_true, List.isPrefixOf_iff_prefix, Bool.not_eq_true']
  constructor
  · rintro ⟨⟨rest, rfl⟩, hend⟩
    rw [List.drop_left] at hend
    exact ⟨rest, rfl, hend⟩
  · rintro ⟨rest, rfl, hend⟩
    rw [List.drop_left]
    exact ⟨List.prefix_append word rest, hend⟩

/-- Whether a text begins with a word can be seen from one character more than the word has. -/
theorem beginsWithWord_append {word front : Text} (h : word.length < front.length)
    (rest rest' : Text) :
    beginsWithWord word (front ++ rest) = beginsWithWord word (front ++ rest') := by
  have himp : ∀ rest rest', beginsWithWord word (front ++ rest) = true →
      beginsWithWord word (front ++ rest') = true := by
    intro rest rest' hbegins
    obtain ⟨behind, heq, hend⟩ := beginsWithWord_iff.1 hbegins
    obtain ⟨more, rfl, rfl⟩ | ⟨more, rfl, rfl⟩ := List.append_eq_append_iff.1 heq
    · rw [List.length_append] at h
      omega
    · rw [List.append_assoc]
      refine beginsWithWord_iff.2 ⟨more ++ rest', rfl, ?_⟩
      cases more with
      | nil => simp at h
      | cons c more => exact hend
  exact Bool.eq_iff_iff.2 ⟨himp rest rest', himp rest' rest⟩

/-! ### One statement in a masked source -/

private theorem extentsFrom_some_of_notMem {text : Text} (h : ';' ∉ text) (start offset : Nat)
    (inWord : Bool) : extentsFrom (some start) inWord offset text = [] := by
  induction text generalizing offset inWord with
  | nil => rfl
  | cons c rest ih =>
      rw [List.mem_cons, not_or] at h
      rw [extentsFrom, if_neg (Ne.symm h.1), ih h.2]

/-- A statement under way ends at the next semicolon. -/
theorem extentsFrom_some_append {text : Text} (h : ';' ∉ text) (start offset : Nat)
    (inWord : Bool) (rest : Text) :
    extentsFrom (some start) inWord offset (text ++ ';' :: rest)
      = (start, offset + text.length + 1) ::
          extentsFrom none false (offset + text.length + 1) rest := by
  induction text generalizing offset inWord with
  | nil => simp [extentsFrom]
  | cons c text ih =>
      rw [List.mem_cons, not_or] at h
      rw [List.cons_append, extentsFrom, if_neg (Ne.symm h.1), ih h.2, List.length_cons,
        Nat.add_right_comm offset 1, Nat.add_assoc offset]

def isMaskBlank (c : Char) : Bool := c == ' ' || c == '\n'

private theorem extentsFrom_blanks {blanks : Text} (hne : blanks ≠ [])
    (hblank : ∀ c ∈ blanks, isMaskBlank c = true) (inWord : Bool) (offset : Nat) (rest : Text) :
    extentsFrom none inWord offset (blanks ++ rest)
      = extentsFrom none false (offset + blanks.length) rest := by
  induction blanks generalizing inWord offset with
  | nil => exact absurd rfl hne
  | cons c blanks ih =>
      rw [List.forall_mem_cons] at hblank
      have hc : c = ' ' ∨ c = '\n' := by simpa [isMaskBlank] using hblank.1
      have hbegins : beginsWithWord importWord (c :: (blanks ++ rest)) = false := by
        rcases hc with rfl | rfl <;> rfl
      have hword : Text.isWordChar c = false := by
        rcases hc with rfl | rfl <;> decide
      rw [List.cons_append, extentsFrom, hbegins, Bool.and_false, if_neg (by decide), hword]
      by_cases hempty : blanks = []
      · subst hempty
        rfl
      · rw [ih hempty hblank.2, List.length_cons, Nat.add_assoc, Nat.add_comm 1]

/-- In a masked source that is read with a word going on or not, `gap` leads to `statement`,
whatever stands behind it. -/
structure LeadsTo (inWord : Bool) (gap statement : Text) : Prop where
  starts : ∃ more, statement = 'i' :: more
  stops : ∃ most, statement = most ++ [';']
  long : importWord.length < statement.length
  /-- No word goes on from the gap into the statement. -/
  apart : (gap.getLast?.map Text.isWordChar).getD inWord = false
  found : ∀ offset rest, extentsFrom none inWord offset (gap ++ (statement ++ rest))
    = (offset + gap.length, offset + gap.length + statement.length) ::
        extentsFrom none false (offset + gap.length + statement.length) rest
  skipped : ∀ offset blanks rest, blanks ≠ [] → (∀ c ∈ blanks, isMaskBlank c = true) →
    extentsFrom none inWord offset (gap ++ (blanks ++ rest))
      = extentsFrom none false (offset + gap.length + blanks.length) rest

theorem leadsTo_of_beginsWithWord {c : Char} {text rest : Text} (hfree : ';' ∉ text)
    (hword : beginsWithWord importWord (c :: (text ++ ';' :: rest)) = true) :
    LeadsTo false [] (c :: (text ++ [';'])) := by
  obtain ⟨behind, heq, -⟩ := beginsWithWord_iff.1 hword
  obtain ⟨rfl, htext⟩ : c = 'i' ∧ text ++ ';' :: rest = ['m', 'p', 'o', 'r', 't'] ++ behind := by
    simpa [importWord] using heq
  have hlong : importWord.length < ('i' :: (text ++ [';'])).length := by
    obtain ⟨more, rfl, -⟩ := append_eq_append_cons _ (by decide) htext.symm
    simp [importWord]
  have hbegins : ∀ rest', beginsWithWord importWord ('i' :: (text ++ ';' :: rest')) = true := by
    intro rest'
    have hsame := beginsWithWord_append hlong rest' rest
    simp only [List.cons_append, List.append_assoc, List.nil_append] at hsame
    rw [hsame, hword]
  constructor
  case starts => exact ⟨_, rfl⟩
  case stops => exact ⟨'i' :: text, rfl⟩
  case long => exact hlong
  case apart => rfl
  case found =>
    intro offset rest'
    have hstop : offset + 1 + text.length + 1 = offset + 0 + (text.length + 1 + 1) := by omega
    simp only [List.nil_append, List.cons_append, List.append_assoc]
    rw [extentsFrom, hbegins, Bool.not_false, Bool.and_self, if_pos rfl,
      extentsFrom_some_append hfree, hstop]
    simp
  case skipped =>
    intro offset blanks rest' hne hblank
    rw [List.nil_append, extentsFrom_blanks hne hblank]
    rfl

/-- No word begins in front of a blank that did not begin in front of a statement, unless it ends
there. -/
theorem not_beginsWithWord_of_blank (front : Text) {text rest : Text} {c : Char}
    (hc : isMaskBlank c = true) (htext : beginsWithWord importWord (front ++ text) = false)
    (hlast : front.getLast?.map Text.isWordChar ≠ some true) :
    beginsWithWord importWord (front ++ c :: rest) = false := by
  by_cases hlong : importWord.length < front.length
  · rw [beginsWithWord_append hlong _ text, htext]
  · refine Bool.eq_false_iff.2 fun hbegins => ?_
    obtain ⟨behind, heq, -⟩ := beginsWithWord_iff.1 hbegins
    have hfree : c ∉ importWord := by
      rcases (by simpa [isMaskBlank] using hc : c = ' ' ∨ c = '\n') with rfl | rfl <;> decide
    obtain ⟨more, rfl, -⟩ := append_eq_append_cons _ hfree heq.symm
    have hmore : more = [] := by
      rw [List.length_append] at hlong
      exact List.length_eq_zero_iff.1 (by omega)
    subst hmore
    exact hlast (by decide)

/-- A character in front of a gap makes it longer, unless a statement begins there. -/
theorem LeadsTo.cons {inWord : Bool} {c : Char} {gap statement rest : Text}
    (h : LeadsTo (Text.isWordChar c) gap statement)
    (hbegins : (!inWord && beginsWithWord importWord (c :: (gap ++ (statement ++ rest)))) = false) :
    LeadsTo inWord (c :: gap) statement := by
  have hlast : (c :: gap).getLast?.map Text.isWordChar = some false := by
    have hapart := h.apart
    rw [List.getLast?_cons]
    cases hgap : gap.getLast? with
    | none => simpa [hgap] using hapart
    | some d => simpa [hgap] using hapart
  have hlength : ∀ n, n + 1 + gap.length = n + (c :: gap).length := by
    intro n
    rw [List.length_cons]
    omega
  constructor
  case starts => exact h.starts
  case stops => exact h.stops
  case long => exact h.long
  case apart => rw [hlast, Option.getD_some]
  case found =>
    intro offset rest'
    have hlong : importWord.length < (c :: (gap ++ statement)).length := by
      have := h.long
      rw [List.length_cons, List.length_append]
      omega
    have hsame := beginsWithWord_append hlong rest' rest
    simp only [List.cons_append, List.append_assoc] at hsame
    rw [List.cons_append, extentsFrom, hsame, hbegins, if_neg (by decide), h.found, hlength]
  case skipped =>
    intro offset blanks rest' hne hblank
    have hskip :
        (!inWord && beginsWithWord importWord (c :: (gap ++ (blanks ++ rest')))) = false := by
      obtain ⟨b, blanks, rfl⟩ := List.exists_cons_of_ne_nil hne
      cases inWord with
      | true => rfl
      | false =>
          exact not_beginsWithWord_of_blank (c :: gap) (hblank b List.mem_cons_self) hbegins
            (by simp [hlast])
    rw [List.cons_append, extentsFrom, hskip, if_neg (by decide), h.skipped _ _ _ hne hblank,
      hlength]

/-- **A masked source holds no further statement, or a gap leads to the next one.** -/
theorem exists_leadsTo (inWord : Bool) (masked : Text) :
    (∀ offset, extentsFrom none inWord offset masked = []) ∨
      ∃ gap statement rest, masked = gap ++ (statement ++ rest) ∧ LeadsTo inWord gap statement := by
  induction masked generalizing inWord with
  | nil => exact Or.inl fun _ => rfl
  | cons c rest ih =>
      cases hbegins : !inWord && beginsWithWord importWord (c :: rest) with
      | true =>
          by_cases hsemicolon : ';' ∈ rest
          · obtain ⟨text, behind, rfl, hfree⟩ := List.eq_append_cons_of_mem hsemicolon
            rw [Bool.and_eq_true, Bool.not_eq_true'] at hbegins
            obtain ⟨rfl, hword⟩ := hbegins
            exact Or.inr ⟨[], c :: (text ++ [';']), behind, by simp,
              leadsTo_of_beginsWithWord hfree hword⟩
          · refine Or.inl fun offset => ?_
            rw [extentsFrom, if_pos hbegins, extentsFrom_some_of_notMem hsemicolon]
      | false =>
          rcases ih (Text.isWordChar c) with hnone | ⟨gap, statement, behind, rfl, hlead⟩
          · refine Or.inl fun offset => ?_
            rw [extentsFrom, if_neg (by simp [hbegins]), hnone]
          · exact Or.inr ⟨c :: gap, statement, behind, rfl, hlead.cons hbegins⟩

/-! ### One statement in a source -/

/-- A gap and a statement of a source, with what each of them is masked to, whatever stands behind
them. -/
structure FirstStatement (gap statement maskedGap maskedStatement : Text) : Prop where
  leads : LeadsTo false maskedGap maskedStatement
  length_gap : maskedGap.length = gap.length
  length_statement : maskedStatement.length = statement.length
  mask_append : ∀ rest, mask (gap ++ (statement ++ rest))
    = maskedGap ++ (maskedStatement ++ mask rest)
  /-- What stands in place of the statement is read as code, if no slash of code comes before. -/
  mask_gap_append : maskedGap.getLast? ≠ some '/' → ∀ rest, mask (gap ++ rest)
    = maskedGap ++ mask rest

theorem exists_firstStatement {source maskedGap maskedStatement maskedRest : Text}
    (h : mask source = maskedGap ++ (maskedStatement ++ maskedRest))
    (hlead : LeadsTo false maskedGap maskedStatement) :
    ∃ gap statement rest, source = gap ++ (statement ++ rest) ∧
      FirstStatement gap statement maskedGap maskedStatement := by
  obtain ⟨more, hmore⟩ := hlead.starts
  obtain ⟨most, hmost⟩ := hlead.stops
  have hfirst : mask source = maskedGap ++ 'i' :: (more ++ maskedRest) := by
    rw [h, hmore]
    rfl
  have hlast : mask source = (maskedGap ++ most) ++ ';' :: maskedRest := by
    rw [h, hmost]
    simp
  obtain ⟨gap, behindGap, hgap, hgapLength, hgapCut⟩ :=
    cutsBefore_of_maskFrom Mode.possible_code (by decide) hfirst
  obtain ⟨front, rest, hfront, hfrontLength, hfrontCut⟩ :=
    cutsBefore_of_maskFrom Mode.possible_code (by decide) hlast
  -- The gap is the beginning of what stands in front of the semicolon.
  obtain ⟨inner, rfl⟩ : gap <+: front := by
    have hgapPrefix : gap <+: source := ⟨_, hgap.symm⟩
    have hfrontPrefix : front <+: source := ⟨_, hfront.symm⟩
    refine List.prefix_of_prefix_length_le hgapPrefix hfrontPrefix ?_
    rw [hgapLength, hfrontLength, List.length_append]
    omega
  refine ⟨gap, inner ++ [';'], rest, by simp [hfront], hlead, hgapLength.symm, ?_, ?_, ?_⟩
  · rw [List.length_append, List.length_append] at hfrontLength
    rw [hmost, List.length_append, List.length_append]
    omega
  · intro rest'
    have hcut := hfrontCut (';' :: rest') fun _ => rfl
    rw [maskFrom_code_cons (absurd · (by decide)), Mode.afterCode_of_isBareCode (by decide)] at hcut
    rw [hmost, mask, mask]
    simpa using hcut
  · intro hslash rest'
    exact hgapCut rest' fun hlast => absurd hlast hslash

/-- A source is a row of statements with gaps in front of them, and a rest without statements. -/
inductive Parses : Text → Prop
  | rest {source : Text} (h : ∀ offset, extentsFrom none false offset (mask source) = []) :
      Parses source
  | first {gap statement maskedGap maskedStatement source : Text}
      (h : FirstStatement gap statement maskedGap maskedStatement) (hrest : Parses source) :
      Parses (gap ++ (statement ++ source))

/-- **Every source falls apart into statements.** -/
theorem parses (source : Text) : Parses source := by
  rcases exists_leadsTo false (mask source) with hnone | ⟨_, _, _, hmask, hlead⟩
  · exact .rest hnone
  · obtain ⟨gap, statement, rest, rfl, hfirst⟩ := exists_firstStatement hmask hlead
    exact .first hfirst (parses rest)
termination_by source.length
decreasing_by
  have hlong := hfirst.leads.long
  rw [hfirst.length_statement] at hlong
  subst_vars
  rw [List.length_append, List.length_append]
  omega

end SolidityBundler
