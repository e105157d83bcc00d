/-
What one unit of a bundle does to the masking of the next.

Every section of a bundle ends with a line feed, and behind a line feed a reader is in one of
three modes.  It reads code, or it is in a block comment, or, if a backslash stood in front of the
line feed, still in a literal; the empty line between the sections ends the literal.  So the only
thing that goes on from one unit into the next is a block comment.  Whether one does can be told
from the text in front of a unit: its last line feed belongs to a comment.  A unit that leaves a
comment open is the only way for that to begin, but a later unit may end it.

Masking keeps offsets, so the lines of a unit are found in a masked bundle where they stand in the
bundle itself.
-/
import SolidityBundler.Proofs.Attribution
import SolidityBundler.Proofs.Index.Lookup
import SolidityBundler.Proofs.Source.Mask

namespace SolidityBundler

/-! ### Reading past a line feed -/

/-- Behind `text`, which is read in `mode`, a reader goes on in `next`. -/
def Mode.Goes (mode : Mode) (text : Text) (next : Mode) : Prop :=
  ∀ rest, maskFrom mode (text ++ rest) = maskFrom mode text ++ maskFrom next rest

theorem Mode.Goes.trans {mode middle next : Mode} {s t : Text} (h : mode.Goes s middle)
    (h' : middle.Goes t next) : mode.Goes (s ++ t) next := by
  intro rest
  rw [List.append_assoc, h, h, h', List.append_assoc]

theorem Mode.Goes.cons {mode middle next : Mode} {first blanks rest : Text}
    (h : middle.Goes rest next)
    (hmask : ∀ more, maskFrom mode (first ++ (rest ++ more))
      = blanks ++ maskFrom middle (rest ++ more)) : mode.Goes (first ++ rest) next := by
  intro more
  have hself := hmask []
  rw [List.append_nil] at hself
  rw [List.append_assoc, hmask, h, hself, List.append_assoc]

/-- Whether the last character of a source stands in a comment. -/
def endsInComment (mode : Mode) (source : Text) : Prop :=
  (classifyFrom mode source).getLast? = some .comment

instance (mode : Mode) (source : Text) : Decidable (endsInComment mode source) :=
  inferInstanceAs (Decidable (_ = _))

private theorem endsInComment_append {mode middle : Mode} {first rest : Text}
    {classes : List CharClass} (hne : rest ≠ [])
    (hclasses : classifyFrom mode (first ++ rest) = classes ++ classifyFrom middle rest) :
    endsInComment mode (first ++ rest) ↔ endsInComment middle rest := by
  have hlast : classifyFrom middle rest ≠ [] := by
    intro hnil
    have hlength := length_classifyFrom middle rest
    rw [hnil, List.length_nil, eq_comm, List.length_eq_zero_iff] at hlength
    exact hne hlength
  rw [endsInComment, hclasses, List.getLast?_append_of_ne_nil _ hlast, endsInComment]

/-- Behind a line feed no line comment is under way, and the line feed belongs to a comment exactly
if a block comment is. -/
structure Mode.Closes (mode : Mode) (source : Text) (next : Mode) : Prop where
  goes : mode.Goes source next
  notLine : next ≠ .lineComment
  comment_iff : endsInComment mode source ↔ next = .blockComment

theorem Mode.Closes.cons {mode middle next : Mode} {rest : Text} (h : middle.Closes rest next)
    (first blanks : Text) (classes : List CharClass) (hne : rest ≠ [])
    (hmask : ∀ more, maskFrom mode (first ++ (rest ++ more))
      = blanks ++ maskFrom middle (rest ++ more))
    (hclasses : classifyFrom mode (first ++ rest) = classes ++ classifyFrom middle rest) :
    mode.Closes (first ++ rest) next :=
  ⟨h.goes.cons hmask, h.notLine, (endsInComment_append hne hclasses).trans h.comment_iff⟩

theorem maskFrom_eq_blank_iff (mode : Mode) :
    maskFrom mode ['\n', 'x'] = ['\n', ' '] ↔ mode = .blockComment := by
  cases mode with
  | code | lineComment | blockComment => decide
  | literal quote =>
      rw [maskFrom_literal_cons (by decide), if_pos (Or.inr rfl)]
      simp [maskFrom]

/-- A text leads into a block comment in one way only. -/
theorem Mode.Goes.blockComment_iff {mode next other : Mode} {text : Text} (h : mode.Goes text next)
    (h' : mode.Goes text other) : next = .blockComment ↔ other = .blockComment := by
  have hsame : maskFrom next ['\n', 'x'] = maskFrom other ['\n', 'x'] :=
    List.append_cancel_left ((h _).symm.trans (h' _))
  rw [← maskFrom_eq_blank_iff, hsame, maskFrom_eq_blank_iff]

/-- The mode behind a line feed by itself: only a block comment goes on. -/
def Mode.behindLineFeed (mode : Mode) : Mode :=
  if mode = .blockComment then .blockComment else .code

theorem Mode.closes_lineFeed (mode : Mode) : mode.Closes ['\n'] mode.behindLineFeed := by
  cases mode with
  | code | lineComment | blockComment =>
    exact ⟨fun _ => by simp [maskFrom, afterCode, isQuote, behindLineFeed], by decide, by decide⟩
  | literal quote =>
    refine ⟨fun rest => ?_, by simp [behindLineFeed], ?_⟩
    · rw [List.singleton_append, maskFrom_literal_cons (by decide),
        maskFrom_literal_cons (by decide)]
      simp [maskFrom, behindLineFeed]
    · simp [endsInComment, classifyFrom, behindLineFeed]

private theorem exists_closes_cons {mode middle : Mode} {c : Char} {rest : Text} (blank : Char)
    (part : CharClass) (ih : rest.getLast? = some '\n' → ∃ next, middle.Closes rest next)
    (h : (c :: rest).getLast? = some '\n')
    (hmask : rest ≠ [] → ∀ more, maskFrom mode (c :: (rest ++ more))
      = blank :: maskFrom middle (rest ++ more))
    (hclasses : classifyFrom mode (c :: rest) = part :: classifyFrom middle rest) :
    ∃ next, mode.Closes (c :: rest) next := by
  by_cases hne : rest = []
  · subst hne
    obtain rfl : c = '\n' := by simpa using h
    exact ⟨_, mode.closes_lineFeed⟩
  · rw [← List.singleton_append, List.getLast?_append_of_ne_nil _ hne] at h
    obtain ⟨next, hnext⟩ := ih h
    exact ⟨next, hnext.cons [c] [blank] [part] hne (hmask hne) hclasses⟩

private theorem exists_closes_cons_cons {mode middle : Mode} {c d : Char} {rest : Text}
    (part : CharClass) (ih : rest.getLast? = some '\n' → ∃ next, middle.Closes rest next)
    (h : (c :: d :: rest).getLast? = some '\n') (hne : rest ≠ [])
    (hmask : ∀ more, maskFrom mode (c :: d :: more) = ' ' :: ' ' :: maskFrom middle more)
    (hclasses : classifyFrom mode (c :: d :: rest) = part :: part :: classifyFrom middle rest) :
    ∃ next, mode.Closes (c :: d :: rest) next := by
  have hsplit : c :: d :: rest = [c, d] ++ rest := rfl
  rw [hsplit, List.getLast?_append_of_ne_nil _ hne] at h
  obtain ⟨next, hnext⟩ := ih h
  exact ⟨next, hnext.cons [c, d] [' ', ' '] [part, part] hne (fun more => hmask (rest ++ more))
    hclasses⟩

/-- **A source that ends with a line feed can be cut behind it**, whatever follows. -/
theorem exists_closes (mode : Mode) {source : Text} (h : source.getLast? = some '\n') :
    ∃ next, mode.Closes source next := by
  fun_induction maskFrom mode source with
  | case1 => simp at h
  | case2 rest ih | case3 rest ih | case6 rest ih =>
      have hne : rest ≠ [] := by
        rintro rfl
        exact absurd h (by decide)
      exact exists_closes_cons_cons .comment ih h hne (fun _ => by rw [maskFrom])
        (by rw [classifyFrom])
  | case4 c rest hline hblock ih =>
      refine exists_closes_cons c (if isQuote c then .delimiter else .code) ih h
        (fun hne more => maskFrom_code_cons ?_) ?_
      · -- What stands behind the slash does not depend on what follows.
        rintro rfl
        rw [opensComment_append hne more [], List.append_nil]
        exact opensComment_eq_false (hline · rfl) (hblock · rfl)
      · rw [classifyFrom]
        · exact hline
        · exact hblock
  | case5 c rest ih =>
      exact exists_closes_cons (blanked c) (if c = '\n' then .code else .comment) ih h
        (fun _ _ => by rw [maskFrom]) (by rw [classifyFrom])
  | case7 c rest hclose ih =>
      refine exists_closes_cons (blanked c) .comment ih h (fun hne more => ?_) ?_
      · rw [maskFrom]
        intro after hc hafter
        obtain ⟨d, rest, rfl⟩ := List.exists_cons_of_ne_nil hne
        rw [List.cons_append, List.cons.injEq] at hafter
        exact hclose rest hc (by rw [hafter.1])
      · rw [classifyFrom]
        exact hclose
  | case8 quote c rest ih =>
      by_cases hne : rest = []
      · -- The line feed behind a backslash belongs to the literal.
        subst hne
        exact ⟨.literal quote, fun more => by simp [maskFrom], by simp,
          by simp [endsInComment, classifyFrom]⟩
      · exact exists_closes_cons_cons .quotedText ih h hne (fun _ => by rw [maskFrom])
          (by rw [classifyFrom])
  | case9 quote c rest hescape hends ih | case10 quote c rest hescape hends ih =>
      refine exists_closes_cons (if c = quote ∨ c = '\n' then c else ' ')
        (if c = quote ∨ c = '\n' then .delimiter else .quotedText) ih h (fun hne more => ?_) ?_
      · have hbackslash : c ≠ '\\' := by
          rintro rfl
          obtain ⟨d, rest, rfl⟩ := List.exists_cons_of_ne_nil hne
          exact hescape d rest rfl rfl
        simp only [maskFrom_literal_cons hbackslash, hends, if_true, if_false]
      · rw [classifyFrom]
        · simp only [hends, if_true, if_false]
        · exact hescape

/-! ### Lines by offset -/

/-- The number of characters in the first `count` lines of a text, line feeds included. -/
def Text.lengthOfLines : (count : Nat) → Text → Nat
  | 0, _ => 0
  | _ + 1, [] => 0
  | count + 1, c :: rest =>
      (if c = '\n' then lengthOfLines count rest else lengthOfLines (count + 1) rest) + 1

private theorem Text.lengthOfLines_append {s : Text} (h : s.getLast? = some '\n') (t : Text) :
    lengthOfLines (lineFeeds s) (s ++ t) = s.length := by
  induction s with
  | nil => simp at h
  | cons c rest ih =>
      by_cases hne : rest = []
      · subst hne
        obtain rfl : c = '\n' := by simpa using h
        simp [lineFeeds, lengthOfLines]
      · rw [← List.singleton_append, List.getLast?_append_of_ne_nil _ hne] at h
        by_cases hc : c = '\n'
        · subst hc
          have hcount : lineFeeds ('\n' :: rest) = lineFeeds rest + 1 := by simp [lineFeeds]
          rw [hcount, List.cons_append, lengthOfLines, if_pos rfl, ih h, List.length_cons]
        · have hcount : lineFeeds (c :: rest) = lineFeeds rest := by simp [lineFeeds, hc]
          obtain ⟨n, hn⟩ : ∃ n, lineFeeds rest = n + 1 :=
            Nat.exists_eq_add_one.2 (List.count_pos_iff.2 (List.mem_of_getLast? h))
          rw [hcount, hn, List.cons_append, lengthOfLines, if_neg hc, ← hn, ih h, List.length_cons]

/-- The text in front of the lines of the span. -/
def Span.front (span : Span) (content : Text) : Text :=
  content.take (Text.lengthOfLines (span.first - 1).toNat content)

/-- The characters of `text` that stand where the lines of the span stand in `content`. -/
def Span.cut (span : Span) (content text : Text) : Text :=
  slice text (Text.lengthOfLines (span.first - 1).toNat content)
    (Text.lengthOfLines ((span.first - 1).toNat + span.count) content)

theorem Span.front_eq {span : Span} {front : Text} (hfront : front.getLast? = some '\n')
    (hfirst : span.first = Text.lineFeeds front + 1) (back : Text) :
    span.front (front ++ back) = front := by
  have hlines : (span.first - 1).toNat = Text.lineFeeds front := by omega
  rw [Span.front, hlines, Text.lengthOfLines_append hfront, List.take_left]

theorem Span.cut_eq {span : Span} {front body back : Text} (hfront : front.getLast? = some '\n')
    (hbody : body.getLast? = some '\n') (hfirst : span.first = Text.lineFeeds front + 1)
    (hcount : span.count = Text.lineFeeds body) {x y z : Text} (hx : x.length = front.length)
    (hy : y.length = body.length) : span.cut (front ++ (body ++ back)) (x ++ (y ++ z)) = y := by
  have hlines : (span.first - 1).toNat = Text.lineFeeds front := by omega
  have hboth : (front ++ body).getLast? = some '\n' := by
    rw [List.getLast?_append, hbody]
    rfl
  rw [Span.cut, hlines, Text.lengthOfLines_append hfront, hcount, ← Text.lineFeeds_append,
    ← List.append_assoc front, Text.lengthOfLines_append hboth, List.length_append, ← hx, ← hy,
    slice_middle]

/-! ### Sections -/

/-- What stands in a bundle in front of the body of a section. -/
def Section.front (s : Section) (earlier : List Section) : Text :=
  sectionsBefore earlier ++ headerLine s.unit ++ "\n\n"

private theorem content_eq_front (entry : Text) (earlier : List Section) (s : Section)
    (later : List Section) : ∃ back,
    (Bundle.ofSections entry (earlier ++ s :: later)).content
      = s.front earlier ++ (s.body ++ back) := by
  obtain ⟨back, hback⟩ := Text.join_append_cons ['\n'] (earlier.map Section.text) s.text
    (later.map Section.text)
  refine ⟨back, ?_⟩
  show Text.join ['\n'] ((earlier ++ s :: later).map Section.text) = _
  rw [List.map_append, List.map_cons, hback, Section.text, Section.front, sectionsBefore,
    List.flatMap_map]
  simp

private theorem Section.getLast?_front (s : Section) (earlier : List Section) :
    (s.front earlier).getLast? = some '\n' := by
  rw [Section.front, List.getLast?_append]
  rfl

private theorem lineFeeds_front {s : Section} {earlier : List Section} (hunit : '\n' ∉ s.unit)
    (hearlier : ∀ s ∈ earlier, '\n' ∉ s.unit) :
    Text.lineFeeds (s.front earlier) = height earlier + 2 := by
  rw [Section.front, Text.lineFeeds_append, Text.lineFeeds_append,
    lineFeeds_sectionsBefore hearlier, lineFeeds_headerLine hunit, lineFeeds_gap]

private theorem Mode.goes_of_notMem {text : Text} (h : '\n' ∉ text) :
    Mode.lineComment.Goes text .lineComment := by
  intro rest
  induction text with
  | nil => rfl
  | cons c text ih =>
      rw [List.mem_cons, not_or] at h
      rw [List.cons_append, maskFrom, maskFrom, if_neg (Ne.symm h.1), ih h.2]
      rfl

private theorem Mode.goes_commentLine {line : Text} (h : '\n' ∉ line) :
    Mode.code.Goes (['/', '/'] ++ line ++ ['\n'] ++ ['\n']) .code := by
  have hopening : Mode.code.Goes ['/', '/'] .lineComment := fun _ => by simp [maskFrom]
  have hfeed : Mode.lineComment.Goes ['\n'] .code := fun _ => by simp [maskFrom]
  have hgap : Mode.code.Goes ['\n'] .code := fun _ => by simp [maskFrom, afterCode, isQuote]
  exact ((hopening.trans (goes_of_notMem h)).trans hfeed).trans hgap

theorem Mode.goes_header {unit : Text} (h : '\n' ∉ unit) :
    Mode.code.Goes (headerLine unit ++ "\n\n") .code := by
  show Mode.code.Goes ('/' :: '/' :: (" File: ".toList ++ unit ++ ['\n', '\n'])) .code
  have hword : '\n' ∉ " File: ".toList := by decide
  -- With the literal in place its characters would be unfolded at each step.
  generalize " File: ".toList = word at hword ⊢
  have hline : '\n' ∉ word ++ unit := by
    rw [List.mem_append, not_or]
    exact ⟨hword, h⟩
  have hsplit : '/' :: '/' :: (word ++ unit ++ ['\n', '\n'])
      = ['/', '/'] ++ (word ++ unit) ++ ['\n'] ++ ['\n'] := by simp
  rw [hsplit]
  exact goes_commentLine hline

/-- Behind a section that leaves no comment open the reader is back in code. -/
theorem Mode.goes_section {s : Section} (hunit : '\n' ∉ s.unit) (hclosed : Text.endsLine s.body)
    (hopen : ¬ endsInComment .code s.body) : Mode.code.Goes (s.text ++ ['\n']) .code := by
  obtain ⟨next, hnext⟩ := exists_closes .code (beq_iff_eq.1 hclosed)
  have hback : next.behindLineFeed = .code := if_neg fun heq => hopen (hnext.comment_iff.2 heq)
  have hgoes := ((Mode.goes_header hunit).trans hnext.goes).trans next.closes_lineFeed.goes
  rw [hback] at hgoes
  rwa [Section.text]

theorem Mode.goes_sectionsBefore {earlier : List Section} (hunits : ∀ s ∈ earlier, '\n' ∉ s.unit)
    (hclosed : ∀ s ∈ earlier, Text.endsLine s.body)
    (hopen : ∀ s ∈ earlier, ¬ endsInComment .code s.body) :
    Mode.code.Goes (sectionsBefore earlier) .code := by
  induction earlier with
  | nil => exact fun _ => rfl
  | cons s rest ih =>
      rw [List.forall_mem_cons] at hunits hclosed hopen
      exact (Mode.goes_section hunits.1 hclosed.1 hopen.1).trans (ih hunits.2 hclosed.2 hopen.2)

/-- The mode in which the next unit is read behind `front`. -/
def Mode.behindFront (front : Text) : Mode :=
  if endsInComment .code front then .blockComment else .code

/-- **A body is read as the inside of a block comment exactly if the text in front of it ends in a
comment**, and as code otherwise. -/
theorem Section.goes_front (s : Section) (earlier : List Section) :
    Mode.code.Goes (s.front earlier) (Mode.behindFront (s.front earlier)) := by
  have hends : (sectionsBefore earlier ++ headerLine s.unit ++ ['\n']).getLast? = some '\n' := by
    simp
  obtain ⟨middle, hmiddle⟩ := exists_closes .code hends
  have hgoes := hmiddle.goes.trans middle.closes_lineFeed.goes
  have hfront : s.front earlier
      = sectionsBefore earlier ++ headerLine s.unit ++ ['\n'] ++ ['\n'] := by
    simp [Section.front]
  rw [← hfront] at hgoes
  obtain ⟨next, hnext⟩ := exists_closes .code (s.getLast?_front earlier)
  have hcomment : endsInComment .code (s.front earlier) ↔ middle = .blockComment := by
    rw [hnext.comment_iff, hnext.goes.blockComment_iff hgoes, Mode.behindLineFeed]
    by_cases hopen : middle = .blockComment
    · simp [hopen]
    · simp [hopen]
  have hmode : Mode.behindFront (s.front earlier) = middle.behindLineFeed := by
    simp only [Mode.behindFront, Mode.behindLineFeed, hcomment]
  rwa [hmode]

/-- No comment goes on into a unit if each unit in front of it, read by itself, closes its own. -/
theorem Section.not_endsInComment_front {s : Section} {earlier : List Section}
    (hunit : '\n' ∉ s.unit) (hunits : ∀ s ∈ earlier, '\n' ∉ s.unit)
    (hclosed : ∀ s ∈ earlier, Text.endsLine s.body)
    (hopen : ∀ s ∈ earlier, ¬ endsInComment .code s.body) :
    ¬ endsInComment .code (s.front earlier) := by
  obtain ⟨next, hnext⟩ := exists_closes .code (s.getLast?_front earlier)
  have hgoes : Mode.code.Goes (s.front earlier) .code := by
    rw [Section.front, List.append_assoc]
    exact (Mode.goes_sectionsBefore hunits hclosed hopen).trans (Mode.goes_header hunit)
  rw [hnext.comment_iff, hnext.goes.blockComment_iff hgoes]
  decide

theorem Mode.Goes.cut_mask {front body back : Text} {mode : Mode} {span : Span}
    (hgoes : Mode.code.Goes front mode) (hfront : front.getLast? = some '\n')
    (hbody : body.getLast? = some '\n') (hfirst : span.first = Text.lineFeeds front + 1)
    (hcount : span.count = Text.lineFeeds body) :
    span.cut (front ++ (body ++ back)) (mask (front ++ (body ++ back))) = maskFrom mode body := by
  obtain ⟨next, hnext⟩ := exists_closes mode hbody
  rw [mask, hgoes, hnext.goes]
  exact Span.cut_eq hfront hbody hfirst hcount (length_maskFrom _ _) (length_maskFrom _ _)

/-! ### The units of a bundle -/

namespace UnitIndex

variable {index : UnitIndex} {entry unit : SourceUnit} {i : Nat} {span : Span}

/-- The sections of the first `i` units of a bundle. -/
def firstSections (index : UnitIndex) (entry : SourceUnit) (i : Nat) : List Section :=
  ((index.inlineOrder entry).take i).map index.sectionOf

variable (hnames : ∀ unit ∈ index.inlineOrder entry, '\n' ∉ unit.name)
include hnames

private theorem notMem_firstSections : ∀ s ∈ index.firstSections entry i, '\n' ∉ s.unit := by
  intro s hs
  obtain ⟨other, hother, rfl⟩ := List.mem_map.1 hs
  exact hnames other (List.mem_of_mem_take hother)

private theorem content_bundleOf_of_span (hunit : (index.inlineOrder entry)[i]? = some unit)
    (hspan : (index.bundleOf entry).spans[i]? = some span) :
    let front := (index.sectionOf unit).front (index.firstSections entry i)
    let body := Text.closeLine (index.inlinedText unit)
    span.first = Text.lineFeeds front + 1 ∧ span.count = Text.lineFeeds body ∧
      ∃ back, (index.bundleOf entry).content = front ++ (body ++ back) := by
  intro front body
  obtain ⟨before, after, horder, hi⟩ := exists_split_of_getElem? hunit
  have hearlier : index.firstSections entry i = before.map index.sectionOf := by
    rw [firstSections, horder, ← hi, List.take_left]
  have hsections : (index.inlineOrder entry).map index.sectionOf
      = index.firstSections entry i ++ index.sectionOf unit :: after.map index.sectionOf := by
    rw [hearlier, horder, List.map_append, List.map_cons]
  have hplace := getElem?_spansFrom 1 (index.firstSections entry i) (index.sectionOf unit)
    (after.map index.sectionOf)
  rw [← hsections, hearlier, List.length_map, hi, ← hearlier] at hplace
  obtain rfl := Option.some.inj (hspan.symm.trans hplace)
  have hname : '\n' ∉ (index.sectionOf unit).unit := hnames unit (List.mem_of_getElem? hunit)
  have hheight : Text.lineFeeds front = height (index.firstSections entry i) + 2 :=
    lineFeeds_front hname (notMem_firstSections hnames)
  obtain ⟨back, hcontent⟩ := content_eq_front entry.name (index.firstSections entry i)
    (index.sectionOf unit) (after.map index.sectionOf)
  rw [← hsections] at hcontent
  refine ⟨?_, rfl, back, hcontent⟩
  rw [hheight]
  show (1 : Int) + height (index.firstSections entry i) + 2 = _
  omega

/-- Where the lines of a unit stand in a bundle, its text as it is inlined stands, and the masked
bundle has this text there as it is masked behind what stands in front. -/
theorem cut_bundleOf (hunit : (index.inlineOrder entry)[i]? = some unit)
    (hspan : (index.bundleOf entry).spans[i]? = some span) :
    let content := (index.bundleOf entry).content
    let body := Text.closeLine (index.inlinedText unit)
    span.cut content content = body ∧
      span.cut content (mask content) = maskFrom (Mode.behindFront (span.front content)) body ∧
      ((∀ other ∈ (index.inlineOrder entry).take i,
          ¬ endsInComment .code (Text.closeLine (index.inlinedText other))) →
        ¬ endsInComment .code (span.front content)) := by
  intro content body
  obtain ⟨hfirst, hcount, back, hcontent⟩ := content_bundleOf_of_span hnames hunit hspan
  have hends := Section.getLast?_front (index.sectionOf unit) (index.firstSections entry i)
  have hbody : body.getLast? = some '\n' := beq_iff_eq.1 (Text.endsLine_closeLine _)
  have hfront : span.front content
      = (index.sectionOf unit).front (index.firstSections entry i) := by
    rw [show content = _ from hcontent]
    exact Span.front_eq hends hfirst _
  refine ⟨?_, ?_, ?_⟩
  · rw [show content = _ from hcontent]
    exact Span.cut_eq hends hbody hfirst hcount rfl rfl
  · rw [hfront, show content = _ from hcontent]
    exact (Section.goes_front _ _).cut_mask hends hbody hfirst hcount
  · intro hnone
    rw [hfront]
    refine Section.not_endsInComment_front (hnames unit (List.mem_of_getElem? hunit))
      (notMem_firstSections hnames) ?_ ?_
    · intro s hs
      obtain ⟨other, -, rfl⟩ := List.mem_map.1 hs
      exact Text.endsLine_closeLine _
    · intro s hs
      obtain ⟨other, hother, rfl⟩ := List.mem_map.1 hs
      exact hnone other hother

end UnitIndex

namespace Bundler

variable {index : UnitIndex} {b : Bundler} {entries : List Text}

/-- **A unit of a bundle is read as it is read by itself, unless a comment goes on into it.**  The
lines of its span are found by their offset, which masking keeps.  They are read as the inside of a
comment exactly if the text in front of them ends in one, and as the text of the unit alone
otherwise.  The text in front ends in no comment if none of the units there leaves one open when it
is read by itself. -/
theorem bundleAll_masks_units_alone (hkeyed : index.WellKeyed) (hb : Reached index b)
    (hknown : ∀ name ∈ entries, (index.lookup? name).isSome)
    (hnames : ∀ unit ∈ index.units, '\n' ∉ unit.name) :
    ∃ bundling, (b.bundleAll entries).1 = .ok bundling ∧
      ∀ name ∈ entries, ∃ entry bundle, index.lookup? name = some entry ∧
        bundling.bundles.get? name = some bundle ∧
        bundle.units = (index.inlineOrder entry).map SourceUnit.name ∧
        ∀ (i : Nat) (unit : SourceUnit) (span : Span),
          (index.inlineOrder entry)[i]? = some unit → bundle.spans[i]? = some span →
          let textOf := fun unit : SourceUnit =>
            Text.closeLine ((b.bundleAll entries).2.inlinedText unit).1
          span.cut bundle.content bundle.content = textOf unit ∧
            (¬ endsInComment .code (span.front bundle.content) →
              span.cut bundle.content (mask bundle.content) = mask (textOf unit)) ∧
            (endsInComment .code (span.front bundle.content) →
              span.cut bundle.content (mask bundle.content)
                = maskFrom .blockComment (textOf unit)) ∧
            ((∀ other ∈ (index.inlineOrder entry).take i,
                ¬ endsInComment .code (textOf other)) →
              ¬ endsInComment .code (span.front bundle.content) ∧
                span.cut bundle.content (mask bundle.content) = mask (textOf unit)) := by
  obtain ⟨bundling, hok, -, hbundles, hcovers⟩ :=
    (hb.sound hkeyed).bundleAll_ok hkeyed hknown
  refine ⟨bundling, hok, ?_⟩
  intro name hname
  obtain ⟨entry, hentry, hlookup, hget⟩ := hbundles name hname
  have hunits : ∀ unit ∈ index.inlineOrder entry, unit ∈ index.units :=
    fun unit hunit => mem_units_of_mem_inlineOrder hkeyed hentry hunit
  refine ⟨entry, index.bundleOf entry, hlookup, hget, index.bundleOf_units entry, ?_⟩
  intro i unit span hunit hspan textOf
  have htext : ∀ other ∈ index.inlineOrder entry,
      textOf other = Text.closeLine (index.inlinedText other) := by
    intro other hother
    exact congrArg Text.closeLine (hcovers.sound.inlinedText_eq (hunits other hother))
  obtain ⟨hbody, hread, hopen⟩ := UnitIndex.cut_bundleOf
    (fun unit hunit => hnames unit (hunits unit hunit)) hunit hspan
  rw [htext unit (List.mem_of_getElem? hunit)]
  have halone : ¬ endsInComment .code (span.front (index.bundleOf entry).content) →
      span.cut (index.bundleOf entry).content (mask (index.bundleOf entry).content)
        = mask (Text.closeLine (index.inlinedText unit)) := by
    intro hclosed
    rw [hread, Mode.behindFront, if_neg hclosed]
    rfl
  refine ⟨hbody, halone, ?_, ?_⟩
  · intro hends
    rw [hread, Mode.behindFront, if_pos hends]
  · intro hnone
    have hclosed := hopen fun other hother => by
      rw [← htext other (List.mem_of_mem_take hother)]
      exact hnone other hother
    exact ⟨hclosed, halone hclosed⟩

/-- A unit that imports two others. -/
def behindEnds : SourceUnit :=
  .ofText .project "m" "import \"a\"; import \"b\";\nint z;" none

/-- One of them ends in a comment of one line, and the other one in a literal, behind a
backslash. -/
def behindEndsIndex : UnitIndex :=
  .overTexts (.ofList [("m".toList, behindEnds.text), ("a".toList, "int x; // /*".toList),
    ("b".toList, "\"y \\".toList)]) .empty

/-- The unit behind them is read as it is read by itself. -/
theorem behindEnds_masked_alone :
    behindEndsIndex.WellKeyed ∧ Reached behindEndsIndex (ofIndex behindEndsIndex) ∧
      (∀ name ∈ ["m".toList], (behindEndsIndex.lookup? name).isSome) ∧
      (∀ unit ∈ behindEndsIndex.units, '\n' ∉ unit.name) ∧
      ∃ bundling bundle span, ((ofIndex behindEndsIndex).bundleAll ["m".toList]).1 = .ok bundling ∧
        bundling.bundles.get? "m".toList = some bundle ∧ bundle.spans[2]? = some span ∧
        span.cut bundle.content (mask bundle.content)
          = mask "/* import \"a\"; */ /* import \"b\"; */\nint z;\n".toList := by
  have hkeyed : behindEndsIndex.WellKeyed := UnitIndex.wellKeyed_unitsOf _ _ _
  have hknown : ∀ name ∈ ["m".toList], (behindEndsIndex.lookup? name).isSome := by decide
  have hnames : ∀ unit ∈ behindEndsIndex.units, '\n' ∉ unit.name := by decide
  refine ⟨hkeyed, .new, hknown, hnames, ?_⟩
  obtain ⟨bundling, hok, hbundles⟩ := bundleAll_masks_units_alone hkeyed .new hknown hnames
  obtain ⟨entry, bundle, hlookup, hget, hunits, hspans⟩ := hbundles "m".toList List.mem_cons_self
  have hentry : entry = behindEnds := Option.some.inj (hlookup.symm.trans (by decide))
  subst hentry
  obtain ⟨span, hspan⟩ : ∃ span : Span, bundle.spans[2]? = some span := by
    have hlength := congrArg List.length hunits
    rw [Bundle.units, List.length_map] at hlength
    exact ⟨_, List.getElem?_eq_getElem (by rw [hlength]; decide +kernel)⟩
  refine ⟨bundling, bundle, span, hok, hget, hspan, ?_⟩
  obtain ⟨-, -, -, hlast⟩ := hspans 2 behindEnds span (by decide +kernel) hspan
  rw [(hlast (by decide +kernel)).2]
  decide +kernel

/-- A unit with code in front of its import. -/
def behindOpening : SourceUnit :=
  .ofText .project "m" "int y; import \"a\";\nint z;" none

/-- The imported unit opens a comment and does not close it. -/
def behindOpeningIndex : UnitIndex :=
  .overTexts (.ofList [("m".toList, behindOpening.text), ("a".toList, "/* x".toList)]) .empty

/-- The comment runs on into the importing unit, to the end of its commented import, and nothing
is reported. -/
theorem behindOpening_swallowed :
    behindOpeningIndex.WellKeyed ∧ (∀ unit ∈ behindOpeningIndex.units, '\n' ∉ unit.name) ∧
      ∃ bundling bundle span,
        ((ofIndex behindOpeningIndex).bundleAll ["m".toList]).1 = .ok bundling ∧
        bundling.findings = [] ∧ bundling.bundles.get? "m".toList = some bundle ∧
        bundle.spans[1]? = some span ∧ span.unit = behindOpening.name ∧
        span.cut bundle.content (mask bundle.content)
          = "                        \nint z;\n".toList ∧
        mask (Text.closeLine
            (((ofIndex behindOpeningIndex).bundleAll ["m".toList]).2.inlinedText behindOpening).1)
          = "int y;                  \nint z;\n".toList := by
  have hkeyed : behindOpeningIndex.WellKeyed := UnitIndex.wellKeyed_unitsOf _ _ _
  have hknown : ∀ name ∈ ["m".toList], (behindOpeningIndex.lookup? name).isSome := by decide
  obtain ⟨bundling, hok, hfindings, hbundles, -⟩ :=
    (Reached.new.sound hkeyed).bundleAll_ok hkeyed hknown
  obtain ⟨entry, -, hlookup, hget⟩ := hbundles "m".toList List.mem_cons_self
  have hentry : entry = behindOpening := Option.some.inj (hlookup.symm.trans (by decide))
  subst hentry
  refine ⟨hkeyed, by decide, bundling, _, { unit := "m", first := 7, count := 2 }, hok, ?_, hget,
    by decide +kernel, rfl, by decide +kernel, by decide +kernel⟩
  rw [hfindings]
  decide +kernel

end Bundler

end SolidityBundler
