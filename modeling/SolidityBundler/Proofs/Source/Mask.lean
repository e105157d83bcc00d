/-
What masking does to the pieces of a source.

A masked source can be cut in front of any character that only code leaves there: what stands
before the cut is masked the same whatever follows it, and what follows is read as a source of
its own.  The one exception is a slash right in front of the cut, which makes a comment of what
begins with another slash or a star.

A statement that is commented out is a comment to its end and nothing else, so the source goes
on behind it as it did behind the statement.
-/
import SolidityBundler.Bundle.Layout

namespace SolidityBundler

/-! ### Characters of code -/

/-- Whether a character of a masked source can only be one of code: blanks are put in place of
other characters, quotes delimit literals, and line feeds stay in comments too. -/
def isBareCode (c : Char) : Bool := c != ' ' && c != '\n' && !isQuote c

theorem isBareCode_blanked (c : Char) : isBareCode (blanked c) = false := by
  unfold blanked
  split
  · next h =>
      subst h
      decide
  · decide

/-- A mode that a source can be read in: only quotes open literals. -/
def Mode.Possible : Mode → Prop
  | .literal quote => isQuote quote = true
  | _ => True

theorem Mode.possible_code : Mode.code.Possible := trivial

theorem Mode.possible_afterCode (c : Char) : (Mode.afterCode c).Possible := by
  unfold Mode.afterCode
  split
  · assumption
  · trivial

theorem isBareCode_of_ends {quote c : Char} (hquote : isQuote quote = true)
    (h : c = quote ∨ c = '\n') : isBareCode c = false := by
  rcases h with rfl | rfl
  · simp [isBareCode, hquote]
  · decide

theorem Mode.afterCode_of_isBareCode {c : Char} (h : isBareCode c = true) :
    Mode.afterCode c = .code := by
  rw [isBareCode, Bool.and_eq_true, Bool.not_eq_true'] at h
  rw [Mode.afterCode, if_neg (by simp [h.2])]

/-! ### Cutting a source -/

/-- Whether a text behind a slash makes a comment of it. -/
def opensComment (text : Text) : Bool := text.head? == some '/' || text.head? == some '*'

theorem opensComment_append {front : Text} (h : front ≠ []) (s t : Text) :
    opensComment (front ++ s) = opensComment (front ++ t) := by
  cases front with
  | nil => exact absurd rfl h
  | cons c front => rfl

theorem opensComment_eq_false {rest : Text} (hline : ∀ more, rest ≠ '/' :: more)
    (hblock : ∀ more, rest ≠ '*' :: more) : opensComment rest = false := by
  cases rest with
  | nil => rfl
  | cons c rest =>
      have hslash : c ≠ '/' := fun heq => hline rest (by rw [heq])
      have hstar : c ≠ '*' := fun heq => hblock rest (by rw [heq])
      simp [opensComment, hslash, hstar]

theorem maskFrom_code_cons {c : Char} {rest : Text}
    (h : c = '/' → opensComment rest = false) :
    maskFrom .code (c :: rest) = c :: maskFrom (.afterCode c) rest := by
  rw [maskFrom] <;>
  · rintro more rfl rfl
    exact absurd (h rfl) (by simp [opensComment])

theorem maskFrom_literal_cons {quote c : Char} (h : c ≠ '\\') (rest : Text) :
    maskFrom (.literal quote) (c :: rest)
      = if c = quote ∨ c = '\n' then c :: maskFrom .code rest
        else ' ' :: maskFrom (.literal quote) rest := by
  rw [maskFrom]
  exact fun _ _ heq _ => h heq

/-- The source can be cut in front of a character of code, `masked` being what stands there in
the masked source. -/
def CutsBefore (mode : Mode) (c : Char) (source masked : Text) : Prop :=
  ∃ before after, source = before ++ c :: after ∧ before.length = masked.length ∧
    ∀ rest, (masked.getLast? = some '/' → opensComment rest = false) →
      maskFrom mode (before ++ rest) = masked ++ maskFrom .code rest

namespace CutsBefore

variable {mode mode' : Mode} {c : Char} {source masked : Text}

theorem here (c : Char) (rest : Text) : CutsBefore .code c (c :: rest) [] :=
  ⟨[], rest, rfl, rfl, fun _ _ => rfl⟩

/-- Characters that are masked the same whatever follows leave the cut behind them as it is. -/
theorem step (h : CutsBefore mode' c source masked) (first blanks : Text)
    (hlength : first.length = blanks.length)
    (hstep : ∀ rest, maskFrom mode (first ++ rest) = blanks ++ maskFrom mode' rest) :
    CutsBefore mode c (first ++ source) (blanks ++ masked) := by
  obtain ⟨before, after, rfl, hbefore, hcut⟩ := h
  refine ⟨first ++ before, after, by simp, by simp [hlength, hbefore], fun rest hrest => ?_⟩
  rw [List.append_assoc, hstep, hcut rest, List.append_assoc]
  intro hlast
  exact hrest (by rw [List.getLast?_append, hlast]; rfl)

/-- A slash in code is masked the same as long as no comment opens behind it. -/
private theorem slash (h : CutsBefore .code c source masked)
    (hsource : opensComment source = false) :
    CutsBefore .code c ('/' :: source) ('/' :: masked) := by
  obtain ⟨before, after, rfl, hbefore, hcut⟩ := h
  refine ⟨'/' :: before, after, rfl, by simp [hbefore], fun rest hrest => ?_⟩
  have hopens : opensComment (before ++ rest) = false := by
    by_cases hempty : before = []
    · subst hempty
      rw [List.length_nil, eq_comm, List.length_eq_zero_iff] at hbefore
      subst hbefore
      exact hrest rfl
    · rw [opensComment_append hempty rest (c :: after)]
      exact hsource
  rw [List.cons_append, maskFrom_code_cons fun _ => hopens, List.cons_append]
  refine congrArg _ (hcut rest fun hlast => hrest ?_)
  rw [List.getLast?_cons, hlast]
  rfl

/-- A star in a block comment is masked the same as long as no slash follows. -/
private theorem star (h : CutsBefore .blockComment c source masked)
    (hsource : source.head? ≠ some '/') :
    CutsBefore .blockComment c ('*' :: source) (' ' :: masked) := by
  obtain ⟨before, after, rfl, hbefore, hcut⟩ := h
  cases before with
  | nil =>
      rw [List.length_nil, eq_comm, List.length_eq_zero_iff] at hbefore
      subst hbefore
      exact absurd (hcut ['x'] (by simp)) (by decide)
  | cons d before =>
      refine ⟨'*' :: d :: before, after, rfl, by simp [hbefore], fun rest hrest => ?_⟩
      have hd : d ≠ '/' := by simpa using hsource
      rw [List.cons_append, List.cons_append, maskFrom]
      · refine congrArg _ (hcut rest fun hlast => hrest ?_)
        rw [List.getLast?_cons, hlast]
        rfl
      · rintro more - heq
        exact hd (List.cons.inj heq).1

end CutsBefore

/-- A character that is none of the first ones stands behind them. -/
theorem append_eq_append_cons (first : Text) {rest masked after : Text} {c : Char} (hc : c ∉ first)
    (h : first ++ rest = masked ++ c :: after) :
    ∃ more, masked = first ++ more ∧ rest = more ++ c :: after := by
  rcases List.append_eq_append_iff.1 h with ⟨more, rfl, hrest⟩ | ⟨more, rfl, hrest⟩
  · exact ⟨more, rfl, hrest⟩
  · cases more with
    | nil => exact ⟨[], by simp, by simpa using hrest.symm⟩
    | cons d more =>
        rw [List.cons_append, List.cons.injEq] at hrest
        exact absurd (by simp [hrest.1]) hc

/-- A backslash that escapes nothing is the last character. -/
private theorem not_backslash_of_maskFrom {mode : Mode} {c d : Char} {rest masked after : Text}
    (hescape : ∀ head more, d = '\\' → rest = head :: more → False)
    (h : maskFrom mode rest = masked ++ c :: after) : d ≠ '\\' := by
  rintro rfl
  cases rest with
  | nil => simp [maskFrom] at h
  | cons head more => exact hescape head more rfl rfl

/-- **A source can be cut in front of every character that only code leaves in the masked
source.** -/
theorem cutsBefore_of_maskFrom {mode : Mode} {source masked after : Text} {c : Char}
    (hmode : mode.Possible) (hc : isBareCode c = true)
    (h : maskFrom mode source = masked ++ c :: after) : CutsBefore mode c source masked := by
  have hblanked : ∀ d, c ≠ blanked d := by
    rintro d rfl
    simp [isBareCode_blanked] at hc
  have hblank : c ≠ ' ' := hblanked ' '
  fun_induction maskFrom mode source generalizing masked with
  | case1 mode => simp at h
  | case2 rest ih =>
      obtain ⟨more, rfl, hrest⟩ := append_eq_append_cons [' ', ' '] (by simp [hblank]) h
      exact (ih trivial hrest).step ['/', '/'] [' ', ' '] rfl fun _ => by simp [maskFrom]
  | case3 rest ih =>
      obtain ⟨more, rfl, hrest⟩ := append_eq_append_cons [' ', ' '] (by simp [hblank]) h
      exact (ih trivial hrest).step ['/', '*'] [' ', ' '] rfl fun _ => by simp [maskFrom]
  | case4 d rest hline hblock ih =>
      cases masked with
      | nil =>
          rw [List.nil_append, List.cons.injEq] at h
          rw [h.1]
          exact .here c rest
      | cons e masked =>
          rw [List.cons_append, List.cons.injEq] at h
          obtain ⟨rfl, hrest⟩ := h
          have hcut := ih (Mode.possible_afterCode d) hrest
          by_cases hd : d = '/'
          · subst hd
            exact hcut.slash (opensComment_eq_false (hline · rfl) (hblock · rfl))
          · exact hcut.step [d] [d] rfl fun rest => maskFrom_code_cons (absurd · hd)
  | case5 d rest ih =>
      obtain ⟨more, rfl, hrest⟩ := append_eq_append_cons [blanked d]
        (by simp [hblanked]) h
      refine (ih ?_ hrest).step [d] [blanked d] rfl fun _ => by simp [maskFrom]
      split <;> trivial
  | case6 rest ih =>
      obtain ⟨more, rfl, hrest⟩ := append_eq_append_cons [' ', ' '] (by simp [hblank]) h
      exact (ih trivial hrest).step ['*', '/'] [' ', ' '] rfl fun _ => by simp [maskFrom]
  | case7 d rest hclose ih =>
      obtain ⟨more, rfl, hrest⟩ := append_eq_append_cons [blanked d]
        (by simp [hblanked]) h
      have hcut := ih trivial hrest
      by_cases hd : d = '*'
      · subst hd
        refine hcut.star fun hhead => ?_
        obtain ⟨rest', rfl⟩ := List.head?_eq_some_iff.1 hhead
        exact hclose rest' rfl rfl
      · refine hcut.step [d] [blanked d] rfl fun rest => ?_
        rw [List.singleton_append, maskFrom]
        · rfl
        · exact fun _ heq _ => hd heq
  | case8 quote d rest ih =>
      obtain ⟨more, rfl, hrest⟩ := append_eq_append_cons [' ', ' '] (by simp [hblank]) h
      exact (ih hmode hrest).step ['\\', d] [' ', ' '] rfl fun _ => by simp [maskFrom]
  | case9 quote d rest hescape hends ih =>
      have hd : c ≠ d := by
        rintro rfl
        simp [isBareCode_of_ends hmode hends] at hc
      obtain ⟨more, rfl, hrest⟩ := append_eq_append_cons [d] (by simp [hd]) h
      have hbackslash := not_backslash_of_maskFrom hescape hrest
      refine (ih trivial hrest).step [d] [d] rfl fun rest => ?_
      rw [List.singleton_append, maskFrom_literal_cons hbackslash, if_pos hends]
      rfl
  | case10 quote d rest hescape hends ih =>
      obtain ⟨more, rfl, hrest⟩ := append_eq_append_cons [' '] (by simp [hblank]) h
      have hbackslash := not_backslash_of_maskFrom hescape hrest
      refine (ih hmode hrest).step [d] [' '] rfl fun rest => ?_
      rw [List.singleton_append, maskFrom_literal_cons hbackslash, if_neg hends]
      rfl

/-! ### Statements that are commented out -/

private theorem head?_spaceOut (a b : Char) (t : Text) : (Text.spaceOut a b t).head? = t.head? := by
  fun_cases Text.spaceOut a b t with
  | case3 c d rest h => simp [h.1]
  | _ => rfl

/-- Behind the opening of a comment a statement without ends of comments is blanked out. -/
theorem maskFrom_spaceOut (statement rest : Text) :
    maskFrom .blockComment (Text.spaceOut '*' '/' statement ++ ' ' :: '*' :: '/' :: rest)
      = (Text.spaceOut '*' '/' statement).map blanked ++
          ' ' :: ' ' :: ' ' :: maskFrom .code rest := by
  fun_induction Text.spaceOut '*' '/' statement with
  | case1 => rfl
  | case2 c =>
      rw [List.singleton_append, maskFrom]
      · rfl
      · simp
  | case3 c d more h ih =>
      obtain ⟨rfl, rfl⟩ := h
      simp only [List.cons_append, List.map_cons]
      rw [maskFrom, maskFrom, maskFrom, ih]
      all_goals simp
  | case4 c d more h ih =>
      rw [List.cons_append, maskFrom]
      · rw [ih]
        rfl
      · rintro after rfl heq
        have hhead : (Text.spaceOut '*' '/' (d :: more)).head? = some d := head?_spaceOut _ _ _
        obtain ⟨spaced, hspaced⟩ := List.head?_eq_some_iff.1 hhead
        rw [hspaced] at heq
        exact h ⟨rfl, (List.cons.inj heq).1⟩

/-- A statement that is commented out is blanked out as a whole, and the source goes on behind
it. -/
theorem mask_commentedOut (statement rest : Text) :
    mask (commentedOut statement ++ rest)
      = (commentedOut statement).map blanked ++ mask rest := by
  have hsplit : commentedOut statement ++ rest
      = '/' :: '*' :: ' ' :: (Text.spaceOut '*' '/' statement ++ ' ' :: '*' :: '/' :: rest) := by
    simp [commentedOut]
  rw [hsplit, mask, maskFrom, maskFrom, maskFrom_spaceOut]
  · simp [commentedOut, blanked, mask]
  · simp

end SolidityBundler
