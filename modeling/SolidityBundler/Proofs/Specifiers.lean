/-
Which text of a statement becomes its specifier.

The extent of a statement is found in the masked source, but its specifier is searched in the
statement as it is written.  The search takes the first two equal quotes on one line with no quote
between them, and knows nothing of comments and literals.  The first literal of the statement is
what the reader of the source takes for it: two delimiters, in code, with quoted text between them.

The two agree if the search reaches the literal and can read it.  It reaches it if no quote stands
in front of it, and a quote in front of the first delimiter can only stand in a comment: in code a
quote is a delimiter, and quoted text stands behind one.  It can read the literal if no quote of
either kind and no line feed is part of its text.
-/
import Mathlib.Algebra.Group.Nat.Even
import Mathlib.Data.List.TakeWhile
import SolidityBundler.Proofs.CommentOut
import SolidityBundler.Proofs.Source.Code
import SolidityBundler.Proofs.Source.Words

namespace SolidityBundler

/-! ### The first quoted text -/

/-- Behind `front` stand two equal quotes that the search takes for those of a specifier. -/
structure QuotedPair (text front : Text) (quote : Char) (body back : Text) : Prop where
  written : text = front ++ quote :: (body ++ quote :: back)
  quoted : isQuote quote = true
  readable : ∀ c ∈ body, isSpecifierChar c = true

/-- Of all such quotes these stand first. -/
structure FirstPair (text front : Text) (quote : Char) (body back : Text) : Prop
    extends QuotedPair text front quote body back where
  first : ∀ front' quote' body' back', QuotedPair text front' quote' body' back' →
    front.length ≤ front'.length

private theorem isSpecifierChar_of_isQuote {c : Char} (h : isQuote c = true) :
    isSpecifierChar c = false := by
  rw [isSpecifierChar, h]
  rfl

theorem QuotedPair.takeWhile_eq {text front body back : Text} {quote : Char}
    (h : QuotedPair text front quote body back) :
    (body ++ quote :: back).takeWhile isSpecifierChar = body ∧
      (body ++ quote :: back).dropWhile isSpecifierChar = quote :: back := by
  have hquote := isSpecifierChar_of_isQuote h.quoted
  constructor
  · rw [List.takeWhile_append_of_pos h.readable, List.takeWhile_cons_of_neg (by simp [hquote]),
      List.append_nil]
  · rw [List.dropWhile_append_of_pos h.readable, List.dropWhile_cons_of_neg (by simp [hquote])]

theorem FirstPair.unique {text front front' body body' back back' : Text} {quote quote' : Char}
    (h : FirstPair text front quote body back) (h' : FirstPair text front' quote' body' back') :
    front = front' ∧ body = body' := by
  have hlength : front.length = front'.length :=
    Nat.le_antisymm (h.first _ _ _ _ h'.toQuotedPair) (h'.first _ _ _ _ h.toQuotedPair)
  have hsame := h.written.symm.trans h'.written
  obtain ⟨rfl, hrest⟩ := List.append_inj hsame hlength
  rw [List.cons.injEq] at hrest
  refine ⟨rfl, ?_⟩
  rw [← h.takeWhile_eq.1, ← h'.takeWhile_eq.1, hrest.2]

private theorem stops_iff {c : Char} {rest : Text} :
    (isQuote c && (rest.dropWhile isSpecifierChar).head? == some c) = true ↔
      ∃ quote body back, QuotedPair (c :: rest) [] quote body back := by
  rw [Bool.and_eq_true, beq_iff_eq]
  constructor
  · intro ⟨hquote, hhead⟩
    obtain ⟨back, hback⟩ := List.head?_eq_some_iff.1 hhead
    refine ⟨c, rest.takeWhile isSpecifierChar, back, ?_, hquote, fun _ => List.mem_takeWhile_imp⟩
    rw [← hback, List.takeWhile_append_dropWhile, List.nil_append]
  · intro ⟨quote, body, back, hpair⟩
    obtain ⟨rfl, rfl⟩ := List.cons.inj hpair.written
    refine ⟨hpair.quoted, ?_⟩
    rw [hpair.takeWhile_eq.2, List.head?_cons]

private theorem QuotedPair.cons {text front body back : Text} {quote : Char} (c : Char)
    (h : QuotedPair text front quote body back) :
    QuotedPair (c :: text) (c :: front) quote body back :=
  ⟨by rw [h.written, List.cons_append], h.quoted, h.readable⟩

private theorem QuotedPair.tail {c d : Char} {rest front body back : Text} {quote : Char}
    (h : QuotedPair (c :: rest) (d :: front) quote body back) :
    QuotedPair rest front quote body back :=
  ⟨(List.cons.inj h.written).2, h.quoted, h.readable⟩

theorem exists_firstPair_of_firstQuoted? {text specifier : Text}
    (h : firstQuoted? text = some specifier) :
    ∃ front quote back, FirstPair text front quote specifier back := by
  induction text with
  | nil => simp [firstQuoted?] at h
  | cons c rest ih =>
      rw [firstQuoted?] at h
      by_cases hstops : (isQuote c && (rest.dropWhile isSpecifierChar).head? == some c) = true
      · rw [if_pos hstops] at h
        obtain ⟨quote, body, back, hpair⟩ := stops_iff.1 hstops
        obtain ⟨rfl, hrest⟩ := List.cons.inj hpair.written
        have hbody : body = specifier := by
          rw [← hpair.takeWhile_eq.1, ← hrest]
          exact Option.some.inj h
        subst hbody
        exact ⟨[], c, back, hpair, fun _ _ _ _ _ => Nat.zero_le _⟩
      · rw [if_neg hstops] at h
        obtain ⟨front, quote, back, hfirst⟩ := ih h
        refine ⟨c :: front, quote, back, hfirst.cons c, ?_⟩
        intro front' quote' body' back' hpair
        cases front' with
        | nil => exact absurd (stops_iff.2 ⟨quote', body', back', hpair⟩) hstops
        | cons d front' => exact Nat.succ_le_succ (hfirst.first _ _ _ _ hpair.tail)

theorem not_quotedPair_of_firstQuoted? {text front body back : Text} {quote : Char}
    (h : firstQuoted? text = none) : ¬ QuotedPair text front quote body back := by
  intro hpair
  induction text generalizing front with
  | nil =>
      have hwritten := hpair.written
      simp at hwritten
  | cons c rest ih =>
      rw [firstQuoted?] at h
      by_cases hstops : (isQuote c && (rest.dropWhile isSpecifierChar).head? == some c) = true
      · rw [if_pos hstops] at h
        simp at h
      · rw [if_neg hstops] at h
        cases front with
        | nil => exact hstops (stops_iff.2 ⟨quote, body, back, hpair⟩)
        | cons d front => exact ih h hpair.tail

/-- **The search finds the text between the first two quotes that can be those of a specifier.** -/
theorem firstQuoted?_eq_some_iff {text specifier : Text} :
    firstQuoted? text = some specifier ↔
      ∃ front quote back, FirstPair text front quote specifier back := by
  constructor
  · exact exists_firstPair_of_firstQuoted?
  · intro ⟨front, quote, back, hfirst⟩
    cases hfound : firstQuoted? text with
    | none => exact absurd hfirst.toQuotedPair (not_quotedPair_of_firstQuoted? hfound)
    | some found =>
        obtain ⟨front', quote', back', hfirst'⟩ := exists_firstPair_of_firstQuoted? hfound
        rw [(hfirst'.unique hfirst).2]

/-! ### The edge of a statement -/

/-- Of the statement with this extent an edge with this specifier is listed. -/
def ListsEdge (name source : Text) (extent : Nat × Nat) (specifier : Text) : Prop :=
  ∃ edge ∈ importsOf name source,
    edge.start = extent.1 ∧ edge.stop = extent.2 ∧ edge.specifier = specifier

theorem listsEdge_iff {name source specifier : Text} {extent : Nat × Nat}
    (h : extent ∈ extents (mask source)) : ListsEdge name source extent specifier ↔
      firstQuoted? (slice source extent.1 extent.2) = some specifier := by
  constructor
  · intro ⟨edge, hedge, hstart, hstop, hspecifier⟩
    obtain ⟨extent', -, hat⟩ := List.mem_filterMap.1 hedge
    obtain ⟨hstart', hstop'⟩ := extent_of_edgeAt? hat
    obtain rfl : extent' = extent :=
      Prod.ext (hstart'.symm.trans hstart) (hstop'.symm.trans hstop)
    obtain ⟨found, hfound, rfl⟩ := Option.map_eq_some_iff.1 hat
    rw [hfound, ← hspecifier]
  · intro hfound
    refine ⟨{ importer := name, specifier, start := extent.1, stop := extent.2
              position := Text.positionAt source extent.1 }, ?_, rfl, rfl, rfl⟩
    refine List.mem_filterMap.2 ⟨extent, h, ?_⟩
    rw [edgeAt?, hfound, Option.map_some]

/-! ### What the reader takes for a literal -/

theorem code_of_mem_extents {source : Text} {extent : Nat × Nat}
    (h : extent ∈ extents (mask source)) : (classify source)[extent.1]? = some .code := by
  obtain ⟨j, hfound⟩ := found_of_mem_extentsFrom h
  obtain ⟨i, hstart, -, -, hword, -⟩ := hfound.starts.resolve_left (by simp)
  have hletter := (beginsWithWord_drop_iff.1 hword.begins).1 0 (by decide)
  rw [hstart, Nat.zero_add]
  exact ((codeAt_iff (by decide)).2 hletter).2

/-- Before position `j` a delimiter stands. -/
def DelimiterBefore (classes : List CharClass) (j : Nat) : Prop :=
  ∃ k < j, classes[k]? = some .delimiter

private theorem DelimiterBefore.cons {classes : List CharClass} {j : Nat}
    (h : DelimiterBefore classes j)
    (first : CharClass) : DelimiterBefore (first :: classes) (j + 1) := by
  obtain ⟨k, hk, hclass⟩ := h
  exact ⟨k + 1, Nat.succ_lt_succ hk, by rw [List.getElem?_cons_succ, hclass]⟩

theorem delimiterBefore_of_quotedText {mode : Mode} {source : Text} {j : Nat}
    (hmode : ∀ quote, mode ≠ .literal quote)
    (h : (classifyFrom mode source)[j]? = some .quotedText) :
    DelimiterBefore (classifyFrom mode source) j := by
  fun_induction classifyFrom mode source generalizing j with
  | case1 mode => simp at h
  | case2 rest ih | case3 rest ih | case6 rest ih =>
      rcases j with _ | _ | j
      · simp at h
      · simp at h
      · exact ((ih (by simp) (by simpa using h)).cons _).cons _
  | case4 d rest hline hblock ih =>
      cases j with
      | zero =>
          by_cases hquote : isQuote d = true
          · simp [hquote] at h
          · simp [hquote] at h
      | succ j =>
          by_cases hquote : isQuote d = true
          · exact ⟨0, Nat.succ_pos j, by simp [hquote]⟩
          · refine (ih ?_ (by simpa using h)).cons _
            simp [Mode.afterCode, hquote]
  | case5 d rest ih =>
      cases j with
      | zero =>
          by_cases hd : d = '\n'
          · simp [hd] at h
          · simp [hd] at h
      | succ j => exact (ih (by split <;> simp) (by simpa using h)).cons _
  | case7 d rest hclose ih =>
      cases j with
      | zero => simp at h
      | succ j => exact (ih (by simp) (by simpa using h)).cons _
  | case8 quote d rest ih => exact absurd rfl (hmode quote)
  | case9 quote d rest hescape hends ih => exact absurd rfl (hmode quote)
  | case10 quote d rest hescape hends ih => exact absurd rfl (hmode quote)

/-- **A quote that stands behind code, with no delimiter up to it, stands in a comment.** -/
theorem comment_of_isQuote {mode : Mode} {source : Text} {i n : Nat} {c : Char}
    (hmode : mode.Possible) (hcode : (classifyFrom mode source)[i]? = some .code)
    (hc : source[i + n]? = some c) (hquote : isQuote c = true)
    (hnone : ∀ k ≤ n, (classifyFrom mode source)[i + k]? ≠ some .delimiter) :
    (classifyFrom mode source)[i + n]? = some .comment := by
  have hlength : i + n < (classifyFrom mode source).length := by
    rw [length_classifyFrom]
    exact (List.getElem?_eq_some_iff.1 hc).1
  cases hclass : (classifyFrom mode source)[i + n]? with
  | none =>
      rw [List.getElem?_eq_none_iff] at hclass
      omega
  | some part =>
      cases part with
      | comment => rfl
      | delimiter => exact absurd hclass (hnone n le_rfl)
      | code =>
          rw [not_isQuote_of_code hmode hclass hc] at hquote
          exact Bool.noConfusion hquote
      | quotedText =>
          have hn : n ≠ 0 := by
            rintro rfl
            rw [Nat.add_zero, hcode] at hclass
            simp at hclass
          obtain ⟨m, rfl⟩ := Nat.exists_eq_succ_of_ne_zero hn
          have hread := drop_classifyFrom_of_code hcode
          have hshift : ∀ k, (classifyFrom .code (source.drop (i + 1)))[k]?
              = (classifyFrom mode source)[i + (k + 1)]? := by
            intro k
            rw [← hread, List.getElem?_drop, Nat.add_assoc, Nat.add_comm 1]
          rw [Nat.succ_eq_add_one, ← hshift] at hclass
          obtain ⟨k, hk, hdelimiter⟩ := delimiterBefore_of_quotedText (by simp) hclass
          rw [hshift] at hdelimiter
          exact absurd hdelimiter (hnone (k + 1) (by omega))

/-! ### The first literal of a statement -/

/-- Behind `front` the statement holds a literal: two delimiters that are equal quotes, with quoted
text between them, and everything that is opened in front of them is closed there. -/
structure Literal (source : Text) (extent : Nat × Nat) (front : Text) (quote : Char)
    (body back : Text) : Prop where
  written : slice source extent.1 extent.2 = front ++ quote :: (body ++ quote :: back)
  quoted : isQuote quote = true
  delimited : ∃ before behind, classify source = before ++ .delimiter ::
    (List.replicate body.length .quotedText ++ .delimiter :: behind) ∧
      before.length = extent.1 + front.length ∧ Even (before.count .delimiter)

/-- Of the literals of the statement this one stands first. -/
structure FirstLiteral (source : Text) (extent : Nat × Nat) (front : Text) (quote : Char)
    (body back : Text) : Prop extends Literal source extent front quote body back where
  first : ∀ front' quote' body' back', Literal source extent front' quote' body' back' →
    front.length ≤ front'.length

/-- In `front`, with which a statement begins, nothing is opened, and no comment holds a quote. -/
structure QuoteFree (source : Text) (extent : Nat × Nat) (front : Text) : Prop where
  unopened : ∀ i < front.length, (classify source)[extent.1 + i]? ≠ some .delimiter
  uncommented : ∀ i c, front[i]? = some c → (classify source)[extent.1 + i]? = some .comment →
    isQuote c = false

theorem Literal.isFirst {source front body back : Text} {extent : Nat × Nat} {quote : Char}
    (h : Literal source extent front quote body back)
    (hunopened : ∀ i < front.length, (classify source)[extent.1 + i]? ≠ some .delimiter) :
    FirstLiteral source extent front quote body back := by
  refine ⟨h, fun front' quote' body' back' h' => ?_⟩
  obtain ⟨before, behind, hclasses, hlength, -⟩ := h'.delimited
  by_contra hlt
  refine hunopened front'.length (by omega) ?_
  rw [hclasses, ← hlength, List.getElem?_append_right le_rfl, Nat.sub_self]
  rfl

/-- The search finds nothing to take that begins in `front`, with which a statement begins. -/
def SearchReaches (source : Text) (extent : Nat × Nat) (front : Text) : Prop :=
  ∀ front' quote' body' back',
    QuotedPair (slice source extent.1 extent.2) front' quote' body' back' →
    front.length ≤ front'.length

theorem QuoteFree.searchReaches {source front body back : Text} {extent : Nat × Nat} {quote : Char}
    (h : QuoteFree source extent front) (hextent : extent ∈ extents (mask source))
    (hliteral : Literal source extent front quote body back) :
    SearchReaches source extent front := by
  intro front' quote' body' back' hpair
  by_contra hlt
  have hat : front[front'.length]? = some quote' := by
    rw [← List.getElem?_append_left (by omega), hliteral.written.symm.trans hpair.written,
      List.getElem?_append_right le_rfl, Nat.sub_self]
    rfl
  have hsource : source[extent.1 + front'.length]? = some quote' := by
    have hslice : (slice source extent.1 extent.2)[front'.length]? = some quote' := by
      rw [hliteral.written, List.getElem?_append_left (by omega), hat]
    rw [getElem?_slice] at hslice
    split at hslice
    · exact hslice
    · simp at hslice
  have hcomment := comment_of_isQuote Mode.possible_code (code_of_mem_extents hextent) hsource
    hpair.quoted fun k hk => h.unopened k (by omega)
  have hquote := h.uncommented _ _ hat hcomment
  rw [hpair.quoted] at hquote
  exact Bool.noConfusion hquote

/-- A literal that the search reaches is taken exactly if it can be read. -/
theorem Literal.listsEdge_iff {name source front body back : Text} {extent : Nat × Nat}
    {quote : Char} (h : Literal source extent front quote body back)
    (hextent : extent ∈ extents (mask source)) (hreaches : SearchReaches source extent front) :
    ListsEdge name source extent body ↔ ∀ c ∈ body, isSpecifierChar c = true := by
  rw [SolidityBundler.listsEdge_iff hextent, firstQuoted?_eq_some_iff]
  constructor
  · intro ⟨_, _, _, hfirst⟩
    exact hfirst.readable
  · intro hreadable
    exact ⟨front, quote, back, ⟨h.written, h.quoted, hreadable⟩, hreaches⟩

/-- **A statement imports the text between the first quotes that the search can take.**  If it
reaches the first literal, it takes that one exactly if the literal holds no quote and no line feed,
and it reaches it if nothing is opened in front of it and no comment there holds a quote. -/
theorem importsOf_specifier (name : Text) {source : Text} {extent : Nat × Nat}
    (hextent : extent ∈ extents (mask source)) :
    (∀ specifier, ListsEdge name source extent specifier ↔ ∃ front quote back,
      FirstPair (slice source extent.1 extent.2) front quote specifier back) ∧
    ∀ front quote body back, FirstLiteral source extent front quote body back →
      (SearchReaches source extent front →
        (ListsEdge name source extent body ↔ ∀ c ∈ body, isSpecifierChar c = true)) ∧
      (QuoteFree source extent front → SearchReaches source extent front) := by
  refine ⟨fun specifier => ?_, fun front quote body back hliteral => ⟨?_, ?_⟩⟩
  · rw [listsEdge_iff hextent, firstQuoted?_eq_some_iff]
  · exact hliteral.toLiteral.listsEdge_iff hextent
  · intro hfree
    exact hfree.searchReaches hextent hliteral.toLiteral

/-! ### Comments and literals with quotes -/

/-- A statement with a comment in front of its literal. -/
def plainComment : Text := "import/*x*/\"a\";"

private theorem plainComment_literal :
    FirstLiteral plainComment (0, 15) "import/*x*/".toList '"' ['a'] [';'] := by
  refine Literal.isFirst ⟨by decide, by decide, ?_⟩ (by decide)
  exact ⟨(classify plainComment).take 11, (classify plainComment).drop 14, by decide, by decide,
    by decide⟩

theorem plainComment_imports_literal :
    (0, 15) ∈ extents (mask plainComment) ∧
    FirstLiteral plainComment (0, 15) "import/*x*/".toList '"' ['a'] [';'] ∧
    QuoteFree plainComment (0, 15) "import/*x*/".toList ∧
    ListsEdge ['m'] plainComment (0, 15) ['a'] := by
  have hextent : (0, 15) ∈ extents (mask plainComment) := by decide
  have hfree : QuoteFree plainComment (0, 15) "import/*x*/".toList := by
    refine ⟨by decide, fun i c hc _ => ?_⟩
    have hfree : "import/*x*/".toList.all (!isQuote ·) = true := by decide
    simpa using List.all_eq_true.1 hfree c (List.mem_of_getElem? hc)
  obtain ⟨htaken, hreaches⟩ :=
    (importsOf_specifier ['m'] hextent).2 _ _ _ _ plainComment_literal
  refine ⟨hextent, plainComment_literal, hfree, (htaken (hreaches hfree)).2 ?_⟩
  intro c hc
  rw [List.mem_singleton.1 hc]
  rfl

/-- The same statement with quotes in the comment. -/
def quotedComment : Text := "import/*'x'*/\"a\";"

/-- A statement whose literal holds the other kind of quote. -/
def otherQuote : Text := "import\"a'b\";"

/-- A comment changes what a statement imports, and a quote of the other kind in its literal lets
it import nothing. -/
theorem quotes_change_specifier :
    ((0, 17) ∈ extents (mask quotedComment) ∧
      FirstLiteral quotedComment (0, 17) "import/*'x'*/".toList '"' ['a'] [';'] ∧
      ¬ ListsEdge ['m'] quotedComment (0, 17) ['a'] ∧
      ListsEdge ['m'] quotedComment (0, 17) ['x']) ∧
    (0, 12) ∈ extents (mask otherQuote) ∧
      FirstLiteral otherQuote (0, 12) "import".toList '"' ['a', '\'', 'b'] [';'] ∧
      importsOf ['m'] otherQuote = [] := by
  have hextent : (0, 17) ∈ extents (mask quotedComment) := by decide
  have hquoted : FirstLiteral quotedComment (0, 17) "import/*'x'*/".toList '"' ['a'] [';'] := by
    refine Literal.isFirst ⟨by decide, by decide, ?_⟩ (by decide)
    exact ⟨(classify quotedComment).take 13, (classify quotedComment).drop 16, by decide,
      by decide, by decide⟩
  have hother : FirstLiteral otherQuote (0, 12) "import".toList '"' ['a', '\'', 'b'] [';'] := by
    refine Literal.isFirst ⟨by decide, by decide, ?_⟩ (by decide)
    exact ⟨(classify otherQuote).take 6, (classify otherQuote).drop 11, by decide, by decide,
      by decide⟩
  refine ⟨⟨hextent, hquoted, ?_, ?_⟩, by decide, hother, by decide⟩
  · rw [listsEdge_iff hextent]
    decide
  · rw [listsEdge_iff hextent]
    decide

end SolidityBundler
