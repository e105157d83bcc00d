/-
What of a source is code.

Masking leaves every character of a source as it is or puts a blank in its place, and a character
of code always stays.  So a character that only code leaves in a masked source stands there exactly
if it stands in the source, in code.

A word of code is a word of the masked source and the other way round.  Code goes on behind one of
its characters until a comment or a literal is opened, and it begins again behind the end of a
comment, behind a quote or at the end of a line, and none of these is part of a word.  So where a
word goes on in the source from code or into code, all of it is code.
-/
import Mathlib.Tactic.ByContra
import SolidityBundler.Proofs.Source.Mask
import SolidityBundler.Text.WordChar

namespace SolidityBundler

variable {mode : Mode} {source : Text} {i : Nat} {c d : Char}

/-! ### Masked characters -/

/-- What the masked source shows for a character of a class. -/
inductive Shown : Char → CharClass → Char → Prop
  /-- Quotes are no code, because they delimit literals. -/
  | code {c : Char} (h : isQuote c = false) : Shown c .code c
  | delimiter {c : Char} (h : isBareCode c = false) : Shown c .delimiter c
  | comment {c shown : Char} (h : shown = blanked c ∨ shown = ' ') : Shown c .comment shown
  | quotedText {c : Char} : Shown c .quotedText ' '

/-- **Each character has a class, and it is shown as that class is.** -/
theorem shown_at (hmode : mode.Possible) (hc : source[i]? = some c) :
    ∃ part shown, (classifyFrom mode source)[i]? = some part ∧
      (maskFrom mode source)[i]? = some shown ∧ Shown c part shown := by
  fun_induction maskFrom mode source generalizing i with
  | case1 mode => simp at hc
  | case2 rest ih | case3 rest ih | case6 rest ih =>
      rw [classifyFrom]
      rcases i with _ | _ | i
      · exact ⟨.comment, ' ', rfl, rfl, .comment (Or.inr rfl)⟩
      · exact ⟨.comment, ' ', rfl, rfl, .comment (Or.inr rfl)⟩
      · exact ih trivial hc
  | case4 d rest hline hblock ih =>
      rw [classifyFrom]
      · cases i with
        | zero =>
            obtain rfl : d = c := by simpa using hc
            refine ⟨_, d, rfl, rfl, ?_⟩
            by_cases hquote : isQuote d = true
            · rw [if_pos hquote]
              exact .delimiter (by simp [isBareCode, hquote])
            · rw [if_neg hquote]
              exact .code (by simpa using hquote)
        | succ i => exact ih (Mode.possible_afterCode d) hc
      · exact hline
      · exact hblock
  | case5 d rest ih =>
      rw [classifyFrom]
      cases i with
      | zero =>
          obtain rfl : d = c := by simpa using hc
          refine ⟨_, blanked d, rfl, rfl, ?_⟩
          by_cases hd : d = '\n'
          · subst hd
            exact .code (by decide)
          · rw [if_neg hd]
            exact .comment (Or.inl rfl)
      | succ i => exact ih (by split <;> trivial) hc
  | case7 d rest hclose ih =>
      rw [classifyFrom]
      · cases i with
        | zero =>
            obtain rfl : d = c := by simpa using hc
            exact ⟨.comment, blanked d, rfl, rfl, .comment (Or.inl rfl)⟩
        | succ i => exact ih trivial hc
      · exact hclose
  | case8 quote d rest ih =>
      rw [classifyFrom]
      rcases i with _ | _ | i
      · exact ⟨.quotedText, ' ', rfl, rfl, .quotedText⟩
      · exact ⟨.quotedText, ' ', rfl, rfl, .quotedText⟩
      · exact ih hmode hc
  | case9 quote d rest hescape hends ih =>
      rw [classifyFrom, if_pos hends]
      · cases i with
        | zero =>
            obtain rfl : d = c := by simpa using hc
            exact ⟨.delimiter, d, rfl, rfl, .delimiter (isBareCode_of_ends hmode hends)⟩
        | succ i => exact ih trivial hc
      · exact hescape
  | case10 quote d rest hescape hends ih =>
      rw [classifyFrom, if_neg hends]
      · cases i with
        | zero => exact ⟨.quotedText, ' ', rfl, rfl, .quotedText⟩
        | succ i => exact ih hmode hc
      · exact hescape

/-- Masking keeps a character or puts a blank in its place. -/
theorem getElem?_mask (source : Text) (i : Nat) :
    (mask source)[i]? = source[i]? ∨ (mask source)[i]? = some ' ' := by
  cases hc : source[i]? with
  | none =>
      rw [List.getElem?_eq_none_iff] at hc
      rw [List.getElem?_eq_none_iff, mask, length_maskFrom]
      exact Or.inl hc
  | some c =>
      obtain ⟨part, shown, -, hshown, hpart⟩ := shown_at Mode.possible_code hc
      rw [mask, hshown]
      cases hpart with
      | code | delimiter => exact Or.inl rfl
      | quotedText => exact Or.inr rfl
      | comment h =>
          rcases h with rfl | rfl
          · by_cases hfeed : c = '\n'
            · exact Or.inl (congrArg some (if_pos hfeed))
            · exact Or.inr (congrArg some (if_neg hfeed))
          · exact Or.inr rfl

/-- The character stands at the offset, outside comments and literals. -/
def CodeAt (source : Text) (i : Nat) (c : Char) : Prop :=
  source[i]? = some c ∧ (classify source)[i]? = some .code

instance (source : Text) (i : Nat) (c : Char) : Decidable (CodeAt source i c) :=
  inferInstanceAs (Decidable (_ ∧ _))

/-- A character of code stays. -/
theorem CodeAt.getElem?_mask (h : CodeAt source i c) : (mask source)[i]? = some c := by
  obtain ⟨part, shown, hclass, hshown, hpart⟩ := shown_at Mode.possible_code h.1
  obtain rfl := Option.some.inj (h.2.symm.trans hclass)
  cases hpart with
  | code => exact hshown

/-- What only code leaves in a masked source stands in code. -/
theorem codeAt_iff (hc : isBareCode c = true) :
    CodeAt source i c ↔ (mask source)[i]? = some c := by
  constructor
  · exact CodeAt.getElem?_mask
  · intro h
    have hlength : i < source.length := by
      rw [← length_maskFrom .code source]
      exact (List.getElem?_eq_some_iff.1 h).1
    have hchar := List.getElem?_eq_getElem hlength
    obtain ⟨part, shown, hclass, hshown, hpart⟩ := shown_at Mode.possible_code hchar
    obtain rfl := Option.some.inj (hshown.symm.trans h)
    cases hpart with
    | code => exact ⟨hchar, hclass⟩
    | delimiter hbare => simp [hbare] at hc
    | quotedText => exact absurd hc (by decide)
    | comment hblank =>
        rcases hblank with rfl | rfl
        · simp [isBareCode_blanked] at hc
        · exact absurd hc (by decide)

/-- The character stands at the offset, inside a comment or between the quotes of a literal. -/
def HiddenAt (source : Text) (i : Nat) (c : Char) : Prop :=
  source[i]? = some c ∧
    ((classify source)[i]? = some .comment ∨ (classify source)[i]? = some .quotedText)

/-- A character that delimits no literal stands in code, or it is hidden. -/
theorem hiddenAt_of_not_codeAt (hc : isBareCode c = true) (h : source[i]? = some c)
    (hcode : ¬ CodeAt source i c) : HiddenAt source i c := by
  obtain ⟨part, shown, hclass, -, hpart⟩ := shown_at Mode.possible_code h
  cases hpart with
  | code => exact absurd ⟨h, hclass⟩ hcode
  | delimiter hbare => simp [hbare] at hc
  | comment => exact ⟨h, Or.inl hclass⟩
  | quotedText => exact ⟨h, Or.inr hclass⟩

/-- In code there are no quotes. -/
theorem not_isQuote_of_code (hmode : mode.Possible)
    (hclass : (classifyFrom mode source)[i]? = some .code) (hc : source[i]? = some c) :
    isQuote c = false := by
  obtain ⟨part, shown, hpart, -, hshown⟩ := shown_at hmode hc
  obtain rfl := Option.some.inj (hclass.symm.trans hpart)
  cases hshown with
  | code h => exact h

/-! ### Where code goes on -/

/-- Behind a character of code the source is read as code. -/
theorem drop_classifyFrom_of_code (h : (classifyFrom mode source)[i]? = some .code) :
    (classifyFrom mode source).drop (i + 1) = classifyFrom .code (source.drop (i + 1)) := by
  fun_induction classifyFrom mode source generalizing i with
  | case1 mode => simp at h
  | case2 rest ih | case3 rest ih | case6 rest ih | case8 quote d rest ih =>
      rcases i with _ | _ | i
      · simp at h
      · simp at h
      · exact ih (by simpa using h)
  | case4 d rest hline hblock ih =>
      cases i with
      | zero =>
          have hquote : ¬ isQuote d = true := by
            intro hquote
            rw [if_pos hquote] at h
            simp at h
          simp [Mode.afterCode, hquote]
      | succ i => exact ih (by simpa using h)
  | case5 d rest ih =>
      cases i with
      | zero =>
          have hd : d = '\n' := by
            by_contra hd
            simp [hd] at h
          simp [hd]
      | succ i => exact ih (by simpa using h)
  | case7 d rest hclose ih =>
      cases i with
      | zero => simp at h
      | succ i => exact ih (by simpa using h)
  | case9 quote d rest hescape hends ih | case10 quote d rest hescape hends ih =>
      cases i with
      | zero => simp at h
      | succ i => exact ih (by simpa using h)

/-- Inside a comment or a literal no code begins, except at the end of a line. -/
private theorem eq_lineFeed_of_code (hmode : mode ≠ .code)
    (hcode : (classifyFrom mode source)[0]? = some .code) (hc : source[0]? = some c) :
    c = '\n' := by
  fun_cases classifyFrom mode source with
  | case1 mode => simp at hc
  | case2 rest | case3 rest => exact absurd rfl hmode
  | case4 d rest hline hblock => exact absurd rfl hmode
  | case5 d rest =>
      obtain rfl : d = c := by simpa using hc
      by_contra hd
      simp [classifyFrom, hd] at hcode
  | case6 rest => simp [classifyFrom] at hcode
  | case7 d rest hclose =>
      rw [classifyFrom] at hcode
      · simp at hcode
      · exact hclose
  | case8 quote d rest => simp [classifyFrom] at hcode
  | case9 quote d rest hescape hends =>
      rw [classifyFrom, if_pos hends] at hcode
      · simp at hcode
      · exact hescape
  | case10 quote d rest hescape hends =>
      rw [classifyFrom, if_neg hends] at hcode
      · simp at hcode
      · exact hescape

/-! ### Words -/

private theorem not_isQuote_of_isWordChar (hc : Text.isWordChar c = true) : isQuote c = false := by
  by_cases hdouble : c = '"'
  · subst hdouble
    exact absurd hc (by decide)
  · by_cases hsingle : c = '\''
    · subst hsingle
      exact absurd hc (by decide)
    · simp [isQuote, hdouble, hsingle]

/-- A character of a word stands in code if the next one does, on the same line. -/
theorem code_of_isWordChar (hmode : mode.Possible) (hc : source[i]? = some c)
    (hword : Text.isWordChar c = true) (hd : source[i + 1]? = some d) (hline : d ≠ '\n')
    (hcode : (classifyFrom mode source)[i + 1]? = some .code) :
    (classifyFrom mode source)[i]? = some .code := by
  have hquote := not_isQuote_of_isWordChar hword
  -- None of the characters that open or close a comment is part of a word.
  have hapart : ∀ e, Text.isWordChar e = false → e ≠ c := by
    rintro e he rfl
    simp [he] at hword
  have hslash := hapart '/' (by decide)
  have hstar := hapart '*' (by decide)
  have hbackslash := hapart '\\' (by decide)
  have hfeed := hapart '\n' (by decide)
  have hinside : ∀ (mode : Mode) (rest : Text), mode ≠ .code → rest[0]? = some d →
      (classifyFrom mode rest)[0]? ≠ some .code := by
    intro mode rest hne hd hcode
    exact hline (eq_lineFeed_of_code hne hcode hd)
  fun_induction classifyFrom mode source generalizing i with
  | case1 mode => simp at hc
  | case2 rest ih =>
      rcases i with _ | _ | i
      · simp [hslash] at hc
      · simp [hslash] at hc
      · exact ih trivial (by simpa using hc) (by simpa using hd) (by simpa using hcode)
  | case3 rest ih =>
      rcases i with _ | _ | i
      · simp [hslash] at hc
      · simp [hstar] at hc
      · exact ih trivial (by simpa using hc) (by simpa using hd) (by simpa using hcode)
  | case4 e rest hlines hblock ih =>
      cases i with
      | zero =>
          obtain rfl : e = c := by simpa using hc
          simp [hquote]
      | succ i =>
          exact ih (Mode.possible_afterCode e) (by simpa using hc) (by simpa using hd)
            (by simpa using hcode)
  | case5 e rest ih =>
      cases i with
      | zero =>
          have he : e ≠ '\n' := fun heq => hfeed (by simpa [heq] using hc)
          simp only [if_neg he] at hcode
          exact absurd hcode (hinside .lineComment rest (by simp) (by simpa using hd))
      | succ i =>
          exact ih (by split <;> trivial) (by simpa using hc) (by simpa using hd)
            (by simpa using hcode)
  | case6 rest ih =>
      rcases i with _ | _ | i
      · simp [hstar] at hc
      · simp [hslash] at hc
      · exact ih trivial (by simpa using hc) (by simpa using hd) (by simpa using hcode)
  | case7 e rest hclose ih =>
      cases i with
      | zero => exact absurd hcode (hinside .blockComment rest (by simp) (by simpa using hd))
      | succ i => exact ih trivial (by simpa using hc) (by simpa using hd) (by simpa using hcode)
  | case8 quote e rest ih =>
      rcases i with _ | _ | i
      · simp [hbackslash] at hc
      · exact absurd hcode (hinside (.literal quote) rest (by simp) (by simpa using hd))
      · exact ih hmode (by simpa using hc) (by simpa using hd) (by simpa using hcode)
  | case9 quote e rest hescape hends ih =>
      cases i with
      | zero =>
          obtain rfl : e = c := by simpa using hc
          rcases hends with rfl | rfl
          · rw [show isQuote e = true from hmode] at hquote
            exact Bool.noConfusion hquote
          · exact absurd rfl hfeed
      | succ i => exact ih trivial (by simpa using hc) (by simpa using hd) (by simpa using hcode)
  | case10 quote e rest hescape hends ih =>
      cases i with
      | zero => exact absurd hcode (hinside (.literal quote) rest (by simp) (by simpa using hd))
      | succ i => exact ih hmode (by simpa using hc) (by simpa using hd) (by simpa using hcode)

/-- A character of a word stands in code if the one before it does. -/
theorem code_of_isWordChar_behind (hcode : (classifyFrom mode source)[i]? = some .code)
    (hc : source[i + 1]? = some c) (hword : Text.isWordChar c = true) :
    (classifyFrom mode source)[i + 1]? = some .code := by
  have hrest : source.drop (i + 1) = c :: source.drop (i + 2) := by
    rw [← List.head?_drop] at hc
    obtain ⟨rest, hrest⟩ := List.head?_eq_some_iff.1 hc
    rw [hrest, ← List.tail_drop, hrest, List.tail_cons]
  have hread := drop_classifyFrom_of_code hcode
  rw [hrest, classifyFrom] at hread
  · rw [← List.head?_drop, hread, List.head?_cons, not_isQuote_of_isWordChar hword]
    rfl
  all_goals
    rintro more rfl
    exact absurd hword (by decide)

end SolidityBundler
