/-
A source beside its masked form.

Masking keeps every offset.  It keeps line feeds too, in code, in comments and at the end of a
literal, but not behind a backslash in a literal: the backslash takes the line feed with it, and
both become blanks.  Which line feeds these are can be told from the source.  Backslashes escape
each other in pairs, so the last one of a row escapes what follows if the row is odd.

A masked source has no comments, and its literals stand where those of the source stand.  The
inside of a literal is blank, so nothing is left there that could end it early, and the only
characters that could open a comment are those of code: a slash of code keeps behind it what stood
there, or has a blank behind it.  So a reader goes through the masked source in step with one that
goes through the source, and masking once more finds nothing to blank out.
-/
import SolidityBundler.Proofs.Source.Code

namespace SolidityBundler

variable {mode : Mode} {front source rest masked : Text} {classes parts : List CharClass}
  {part : CharClass} {c shown : Char}

/-! ### Escaped characters -/

/-- The number of backslashes at the end of a text. -/
def Text.trailingBackslashes (text : Text) : Nat := (text.reverse.takeWhile (· == '\\')).length

private theorem Text.trailingBackslashes_concat (text : Text) (c : Char) :
    trailingBackslashes (text ++ [c]) = if c = '\\' then trailingBackslashes text + 1 else 0 := by
  rw [trailingBackslashes, List.reverse_append, List.reverse_singleton, List.singleton_append,
    List.takeWhile_cons]
  by_cases hc : c = '\\'
  · simp [hc, trailingBackslashes]
  · simp [hc]

/-- What follows `front`, whose characters are of `classes`, is escaped: `front` ends inside a
literal, with an odd number of backslashes. -/
def EscapedBehind (front : Text) (classes : List CharClass) : Prop :=
  classes.getLast? = some .quotedText ∧ front.trailingBackslashes % 2 = 1

/-- The character at the offset stands in a literal behind a backslash that escapes it. -/
def EscapedAt (source : Text) (i : Nat) : Prop :=
  EscapedBehind (source.take i) ((classify source).take i)

instance (source : Text) (i : Nat) : Decidable (EscapedAt source i) :=
  inferInstanceAs (Decidable (_ ∧ _))

/-- A reader that comes to the end of `front` in the given mode has no escaped character ahead: a
row of backslashes is even there, if it stands in a literal. -/
structure Mode.Clear (mode : Mode) (front : Text) (classes : List CharClass) : Prop where
  even : ∀ quote, mode = .literal quote → front.trailingBackslashes % 2 = 0
  inLiteral : classes.getLast? = some .quotedText → ∃ quote, mode = .literal quote

private theorem Mode.Clear.not_escapedBehind (h : mode.Clear front classes) :
    ¬ EscapedBehind front classes := by
  rintro ⟨hlast, hodd⟩
  obtain ⟨quote, hmode⟩ := h.inLiteral hlast
  have heven := h.even quote hmode
  omega

theorem Mode.clear_of_ne_literal (front : Text) (classes : List CharClass)
    (hmode : ∀ quote, mode ≠ .literal quote) (hpart : part ≠ .quotedText) :
    mode.Clear front (classes ++ [part]) where
  even := fun quote h => absurd h (hmode quote)
  inLiteral := by simp [hpart]

theorem Mode.clear_of_ne_backslash (front : Text) (classes : List CharClass) (hc : c ≠ '\\')
    (hpart : part = .quotedText → ∃ quote, mode = .literal quote) :
    mode.Clear (front ++ [c]) (classes ++ [part]) where
  even := by simp [Text.trailingBackslashes_concat, hc]
  inLiteral := by simpa using hpart

/-- A backslash in a literal escapes the next character, and no more than that one. -/
theorem Mode.Clear.backslash {quote : Char} (h : (Mode.literal quote).Clear front classes)
    (d : Char) : EscapedBehind (front ++ ['\\']) (classes ++ [.quotedText]) ∧
      (Mode.literal quote).Clear (front ++ ['\\'] ++ [d])
        (classes ++ [.quotedText] ++ [.quotedText]) := by
  have heven := h.even quote rfl
  refine ⟨⟨by simp, ?_⟩, ?_, ?_⟩
  · rw [Text.trailingBackslashes_concat, if_pos rfl]
    omega
  · intro _ _
    rw [Text.trailingBackslashes_concat, Text.trailingBackslashes_concat, if_pos rfl]
    split
    · omega
    · rfl
  · exact fun _ => ⟨quote, rfl⟩

/-! ### Line feeds that are lost -/

/-- Of the line feeds in `source`, which stands behind `front`, exactly the escaped ones are
blanks in `masked`. -/
def BlanksEscaped (source masked : Text) (parts : List CharClass) (front : Text)
    (classes : List CharClass) : Prop :=
  ∀ i, source[i]? = some '\n' →
    (masked[i]? = some ' ' ↔ EscapedBehind (front ++ source.take i) (classes ++ parts.take i))

theorem BlanksEscaped.cons (h : BlanksEscaped rest masked parts (front ++ [c]) (classes ++ [part]))
    (hc : c = '\n' → (shown = ' ' ↔ EscapedBehind front classes)) :
    BlanksEscaped (c :: rest) (shown :: masked) (part :: parts) front classes := by
  intro i hi
  cases i with
  | zero => simpa using hc (by simpa using hi)
  | succ i => simpa using h i (by simpa using hi)

private theorem BlanksEscaped.cons_of_clear (hclear : mode.Clear front classes)
    (h : BlanksEscaped rest masked parts (front ++ [c]) (classes ++ [part]))
    (hc : c = '\n' → shown ≠ ' ') :
    BlanksEscaped (c :: rest) (shown :: masked) (part :: parts) front classes :=
  h.cons fun heq => iff_of_false (hc heq) hclear.not_escapedBehind

private theorem BlanksEscaped.cons_cons {d : Char} (hc : c ≠ '\n') (hd : d ≠ '\n')
    (h : BlanksEscaped rest masked parts (front ++ [c] ++ [d]) (classes ++ [part] ++ [part])) :
    BlanksEscaped (c :: d :: rest) (shown :: shown :: masked) (part :: part :: parts) front
      classes :=
  (h.cons fun heq => absurd heq hd).cons fun heq => absurd heq hc

/-- **Exactly the escaped line feeds are blanked out.**  A reader takes the backslash and what it
escapes in one step, so between two steps no character is escaped. -/
theorem blanksEscaped_maskFrom (hclear : mode.Clear front classes) :
    BlanksEscaped source (maskFrom mode source) (classifyFrom mode source) front classes := by
  have hblanked : ∀ d : Char, d = '\n' → blanked d ≠ ' ' := by
    rintro d rfl
    decide
  fun_induction maskFrom mode source generalizing front classes with
  | case1 mode =>
      intro i hi
      simp at hi
  | case2 rest ih | case3 rest ih | case6 rest ih =>
      rw [classifyFrom]
      exact .cons_cons (by decide) (by decide)
        (ih (Mode.clear_of_ne_literal _ _ (by simp) (by simp)))
  | case4 d rest hline hblock ih =>
      rw [classifyFrom]
      · refine .cons_of_clear hclear (ih ?_) fun heq => by simp [heq]
        by_cases hquote : isQuote d = true
        · rw [if_pos hquote]
          refine Mode.clear_of_ne_backslash _ _ ?_ (by simp)
          rintro rfl
          exact absurd hquote (by decide)
        · rw [Mode.afterCode, if_neg hquote, if_neg hquote]
          exact Mode.clear_of_ne_literal _ _ (by simp) (by simp)
      · exact hline
      · exact hblock
  | case5 d rest ih =>
      rw [classifyFrom]
      refine .cons_of_clear hclear (ih (Mode.clear_of_ne_literal _ _ ?_ ?_)) (hblanked d)
      · split <;> simp
      · split <;> simp
  | case7 d rest hclose ih =>
      rw [classifyFrom]
      · exact .cons_of_clear hclear (ih (Mode.clear_of_ne_literal _ _ (by simp) (by simp)))
          (hblanked d)
      · exact hclose
  | case8 quote d rest ih =>
      rw [classifyFrom]
      obtain ⟨hescaped, hclear'⟩ := hclear.backslash d
      exact ((ih hclear').cons fun _ => iff_of_true rfl hescaped).cons (by simp)
  | case9 quote d rest hescape hends ih =>
      rw [classifyFrom, if_pos hends]
      · exact .cons_of_clear hclear (ih (Mode.clear_of_ne_literal _ _ (by simp) (by simp)))
          fun heq => by simp [heq]
      · exact hescape
  | case10 quote d rest hescape hends ih =>
      rw [classifyFrom, if_neg hends]
      · refine .cons_of_clear hclear ?_ fun heq => absurd (Or.inr heq) hends
        cases rest with
        | nil =>
            -- A backslash at the end of the source escapes nothing.
            intro i hi
            simp at hi
        | cons head more =>
            have hbackslash : d ≠ '\\' := fun heq => hescape head more heq rfl
            exact ih (Mode.clear_of_ne_backslash _ _ hbackslash fun _ => ⟨quote, rfl⟩)
      · exact hescape

/-- **Masking keeps offsets, and all line feeds but the escaped ones.**  Every other character stays
or becomes a blank. -/
theorem mask_keeps_lineFeeds (source : Text) :
    (mask source).length = source.length ∧
      (∀ i : Nat, (mask source)[i]? = source[i]? ∨ (mask source)[i]? = some ' ') ∧
      ∀ i : Nat, source[i]? = some '\n' →
        ((mask source)[i]? = some '\n' ↔ ¬ EscapedAt source i) := by
  refine ⟨length_maskFrom .code source, getElem?_mask source, ?_⟩
  intro i hi
  have hclear : Mode.code.Clear [] [] := ⟨by simp, by simp⟩
  have hlost : (mask source)[i]? = some ' ' ↔ EscapedAt source i :=
    blanksEscaped_maskFrom hclear i hi
  have hkept := getElem?_mask source i
  rw [hi] at hkept
  rw [← hlost]
  constructor
  · intro heq hblank
    rw [heq] at hblank
    exact absurd hblank (by decide)
  · exact hkept.resolve_right

/-- A literal with a line feed behind one backslash and another one behind two, and a comment of
two lines. -/
def continuedLiteral : Text := "\"a\\\n\\\\\n/*\n*/"

/-- The first of the three line feeds is lost, and the other two stay. -/
theorem continuedLiteral_keeps_lineFeeds :
    continuedLiteral[3]? = some '\n' ∧ (mask continuedLiteral)[3]? ≠ some '\n' ∧
      (mask continuedLiteral)[6]? = some '\n' ∧ (mask continuedLiteral)[9]? = some '\n' := by
  obtain ⟨-, -, hfeeds⟩ := mask_keeps_lineFeeds continuedLiteral
  refine ⟨by decide, ?_, (hfeeds 6 (by decide)).2 (by decide),
    (hfeeds 9 (by decide)).2 (by decide)⟩
  rw [ne_eq, hfeeds 3 (by decide), not_not]
  decide

/-- Two lines in one literal. -/
def brokenOffLiteral : Text := "\"\\\n\""

/-- The line feed between them becomes a blank, so masked they are one line. -/
theorem brokenOffLiteral_loses_lineFeed :
    brokenOffLiteral[2]? = some '\n' ∧ (mask brokenOffLiteral)[2]? = some ' ' ∧
      Text.lineFeeds brokenOffLiteral = 1 ∧ Text.lineFeeds (mask brokenOffLiteral) = 0 := by
  decide

/-! ### Masking a masked source -/

/-- The mode in which the masked source is read: comments are code there. -/
def Mode.uncommented : Mode → Mode
  | .lineComment => .code
  | .blockComment => .code
  | mode => mode

private theorem Mode.uncommented_afterCode (c : Char) :
    (afterCode c).uncommented = afterCode c := by
  unfold afterCode
  split <;> rfl

/-- The part that a character plays in the masked source. -/
def CharClass.uncommented : CharClass → CharClass
  | .comment => .code
  | part => part

/-- Read in `mode`, the text has the given parts, and masking leaves it as it is. -/
def Settles (mode : Mode) (text : Text) (parts : List CharClass) : Prop :=
  maskFrom mode text = text ∧ classifyFrom mode text = parts

namespace Settles

variable {text : Text} {quote : Char}

theorem code_cons (h : Settles (.afterCode c) text parts)
    (hopens : c = '/' → opensComment text = false) :
    Settles .code (c :: text) ((if isQuote c then .delimiter else .code) :: parts) := by
  refine ⟨?_, ?_⟩
  · rw [maskFrom_code_cons hopens, h.1]
  · rw [classifyFrom]
    · rw [h.2]
    all_goals
      rintro more hc rfl
      exact absurd (hopens hc) (by simp [opensComment])

theorem blank_cons (h : Settles .code text parts) : Settles .code (' ' :: text) (.code :: parts) :=
  code_cons (c := ' ') h fun heq => absurd heq (by decide)

/-- What is put in place of a comment is read as code. -/
private theorem blanked_cons (h : Settles .code text parts) (d : Char) :
    Settles .code (blanked d :: text) (.code :: parts) := by
  unfold blanked
  split
  · next hd =>
      subst hd
      exact code_cons (c := '\n') h fun heq => absurd heq (by decide)
  · exact h.blank_cons

private theorem literal_blank (h : Settles (.literal quote) text parts)
    (hquote : isQuote quote = true) :
    Settles (.literal quote) (' ' :: text) (.quotedText :: parts) := by
  have hopen : ¬ (' ' = quote ∨ ' ' = '\n') := by
    rintro (rfl | heq)
    · exact absurd hquote (by decide)
    · exact absurd heq (by decide)
  refine ⟨?_, ?_⟩
  · rw [maskFrom_literal_cons (by decide), if_neg hopen, h.1]
  · rw [classifyFrom, if_neg hopen, h.2]
    simp

private theorem literal_ends (h : Settles .code text parts) (hquote : isQuote quote = true)
    (hends : c = quote ∨ c = '\n') :
    Settles (.literal quote) (c :: text) (.delimiter :: parts) := by
  have hbackslash : c ≠ '\\' := by
    rintro rfl
    rcases hends with rfl | heq
    · exact absurd hquote (by decide)
    · exact absurd heq (by decide)
  refine ⟨?_, ?_⟩
  · rw [maskFrom_literal_cons hbackslash, if_pos hends, h.1]
  · rw [classifyFrom, if_pos hends, h.2]
    exact fun _ _ heq _ => hbackslash heq

end Settles

private theorem opensComment_maskFrom (h : opensComment source = false) :
    opensComment (maskFrom .code source) = false := by
  cases source with
  | nil => rfl
  | cons d rest =>
      have hslash : d ≠ '/' := by
        rintro rfl
        simp [opensComment] at h
      rw [maskFrom_code_cons fun heq => absurd heq hslash]
      exact h

/-- **A reader of the masked source keeps in step.** -/
theorem settles_maskFrom (hmode : mode.Possible) :
    Settles mode.uncommented (maskFrom mode source)
      ((classifyFrom mode source).map CharClass.uncommented) := by
  fun_induction maskFrom mode source with
  | case1 mode => exact ⟨by simp [maskFrom], by simp [classifyFrom]⟩
  | case2 rest ih | case3 rest ih | case6 rest ih =>
      rw [classifyFrom]
      exact (ih trivial).blank_cons.blank_cons
  | case4 d rest hline hblock ih =>
      rw [classifyFrom]
      · have hrest := ih (Mode.possible_afterCode d)
        rw [Mode.uncommented_afterCode] at hrest
        rw [List.map_cons, apply_ite CharClass.uncommented]
        refine hrest.code_cons ?_
        rintro rfl
        exact opensComment_maskFrom (opensComment_eq_false (hline · rfl) (hblock · rfl))
      · exact hline
      · exact hblock
  | case5 d rest ih =>
      rw [classifyFrom]
      have hmode : (if d = '\n' then Mode.code else .lineComment).uncommented = .code := by
        split <;> rfl
      have hpart : (if d = '\n' then CharClass.code else .comment).uncommented = .code := by
        split <;> rfl
      have hrest := ih (by split <;> trivial)
      rw [hmode] at hrest
      rw [List.map_cons, hpart]
      exact hrest.blanked_cons d
  | case7 d rest hclose ih =>
      rw [classifyFrom]
      · exact (ih trivial).blanked_cons d
      · exact hclose
  | case8 quote d rest ih =>
      rw [classifyFrom]
      exact ((ih hmode).literal_blank hmode).literal_blank hmode
  | case9 quote d rest hescape hends ih =>
      rw [classifyFrom, if_pos hends]
      · exact (ih trivial).literal_ends hmode hends
      · exact hescape
  | case10 quote d rest hescape hends ih =>
      rw [classifyFrom, if_neg hends]
      · exact (ih hmode).literal_blank hmode
      · exact hescape

/-- **Masking a masked source changes nothing.**  Its characters play the parts that they play in
the source, except that there are no comments: what stood in one is code.  So no comment is opened
in it, and its literals begin and end where those of the source do. -/
theorem mask_mask (source : Text) :
    mask (mask source) = mask source ∧
      classify (mask source) = (classify source).map CharClass.uncommented :=
  settles_maskFrom Mode.possible_code

end SolidityBundler
