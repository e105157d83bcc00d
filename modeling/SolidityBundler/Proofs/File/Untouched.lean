/-
What writing leaves alone.

A directory is made only where there is nothing, so making directories changes no file and makes
none.  A file that is written changes its own address only.  So whatever comes of writing texts,
and wherever it stops, files that stand at none of the addresses of the texts are as they were, and
there are no others.

Writing fails on the null character before it looks at the tree, and on nothing else does it fail
that way.
-/
import SolidityBundler.Crash
import SolidityBundler.Proofs.File.Writing

namespace SolidityBundler

namespace FileTree

variable {tree tree' : FileTree} {a : Address} {path : TreePath}

/-! ### Files that are not written -/

theorem content?_congr (h : tree'.node? a = tree.node? a) : tree'.content? a = tree.content? a := by
  rw [content?, content?, h]

private theorem content?_makeDirectory (h : tree.makeDirectory path = .ok tree') (a : Address) :
    tree'.content? a = tree.content? a := by
  unfold makeDirectory at h
  cases hfollow : tree.follow path with
  | free address =>
      obtain ⟨hends, hnode⟩ := node?_of_free hfollow
      rw [hfollow] at h
      rw [← Except.ok.inj h]
      by_cases ha : address = a
      · subst ha
        rw [content?, content?, node?_put tree hends.ne_nil, if_pos rfl, hnode]
      · exact content?_congr (by rw [node?_put tree hends.ne_nil, if_neg ha])
  | found _ _ | absent | blocked =>
      rw [hfollow] at h
      cases h

private theorem content?_makeDirectoriesAlong (tree : FileTree) (slashes : Nat) (trail : List Text)
    (a : Address) : (tree.makeDirectoriesAlong slashes trail).2.content? a = tree.content? a := by
  induction trail generalizing tree with
  | nil =>
      unfold makeDirectoriesAlong
      dsimp only
      split
      · next h => exact content?_makeDirectory h a
      · rfl
  | cons segment above ih =>
      have habove := ih tree
      unfold makeDirectoriesAlong
      dsimp only
      split
      · next h => exact content?_makeDirectory h a
      · split
        · next h =>
            rw [h] at habove
            exact habove
        · next h =>
            rw [h] at habove
            split
            · next h' => exact (content?_makeDirectory h' a).trans habove
            · exact habove
      · rfl

theorem content?_makeDirectories (tree : FileTree) (path : TreePath) (a : Address) :
    (tree.makeDirectories path).2.content? a = tree.content? a := by
  unfold makeDirectories
  split
  · rfl
  · exact content?_makeDirectoriesAlong tree path.slashes path.segments.reverse a

theorem content?_writeFile {content : Bytes} (h : ¬ tree.EndsAt path a) :
    (tree.writeFile path content).2.content? a = tree.content? a := by
  have hput : ∀ address, tree.EndsAt path address →
      (tree.put address (.file content)).content? a = tree.content? a := by
    intro address hends
    have hne : address ≠ a := by
      rintro rfl
      exact h hends
    exact content?_congr (by rw [node?_put tree hends.ne_nil, if_neg hne])
  unfold writeFile
  split
  · rfl
  · split
    · next hfollow => exact hput _ (node?_of_free hfollow).1
    · next hfollow => exact hput _ (node?_of_found_file hfollow).1
    · rfl
    · rfl
    · rfl

theorem content?_writeText {text : Text} (h : ¬ (tree.writeText path text).2.EndsAt path a) :
    (tree.writeText path text).2.content? a = tree.content? a := by
  have hdirectories := content?_makeDirectories tree path.parent a
  unfold writeText at h ⊢
  split
  · next heq =>
      rw [heq] at hdirectories
      exact hdirectories
  · next between heq =>
      rw [heq] at hdirectories h
      refine (content?_writeFile fun hends => h ?_).trans hdirectories
      exact (writes_writeFile between path _).endsAt hends

/-- **Files at none of the addresses of texts are as they were**, wherever writing them ends. -/
theorem content?_writeTexts {directory : TreePath} {items : List (Text × Text)}
    (h : ∀ item ∈ items,
      ¬ (tree.writeTexts directory items).2.EndsAt (directory.child item.1) a) :
    (tree.writeTexts directory items).2.content? a = tree.content? a := by
  induction items generalizing tree with
  | nil => rfl
  | cons item rest ih =>
      obtain ⟨name, text⟩ := item
      rw [List.forall_mem_cons] at h
      unfold writeTexts at h ⊢
      dsimp only at h ⊢
      cases hfirst : tree.writeText (directory.child name) text with
      | mk result between =>
          have hbetween : ¬ (tree.writeText (directory.child name) text).2.EndsAt
              (directory.child name) a →
              (tree.writeText (directory.child name) text).2.content? a = tree.content? a :=
            content?_writeText
          rw [hfirst] at h hbetween
          cases result with
          | error e => exact hbetween h.1
          | ok =>
              have hrest := writes_writeTexts between directory rest
              exact (ih h.2).trans (hbetween fun hends => h.1 (hrest.endsAt hends))

/-! ### The null character -/

private theorem crash?_settle {problem : FileProblem} {e : FileError}
    (h : (tree.settle path problem).1 = .error e) : e.crash? = none := by
  unfold settle at h
  split at h
  · cases h
  · rw [← Except.error.inj h]
    rfl

private theorem crash?_makeDirectoriesAlong {slashes : Nat} {trail : List Text} {e : FileError}
    (h : (tree.makeDirectoriesAlong slashes trail).1 = .error e) : e.crash? = none := by
  induction trail generalizing tree with
  | nil =>
      unfold makeDirectoriesAlong at h
      dsimp only at h
      split at h
      · cases h
      · exact crash?_settle h
  | cons segment above ih =>
      unfold makeDirectoriesAlong at h
      dsimp only at h
      split at h
      · cases h
      · split at h
        · next heq =>
            obtain rfl := Except.error.inj h
            exact ih (congrArg Prod.fst heq)
        · split at h
          · cases h
          · exact crash?_settle h
      · exact crash?_settle h

theorem crash?_makeDirectories {e : FileError} (hnull : path.hasNull = false)
    (h : (tree.makeDirectories path).1 = .error e) : e.crash? = none := by
  rw [makeDirectories, hnull] at h
  exact crash?_makeDirectoriesAlong h

theorem crash?_writeFile {content : Bytes} {e : FileError} (hnull : path.hasNull = false)
    (h : (tree.writeFile path content).1 = .error e) : e.crash? = none := by
  rw [writeFile, hnull, if_neg Bool.false_ne_true] at h
  split at h
  · cases h
  · cases h
  all_goals
    rw [← Except.error.inj h]
    rfl

private theorem hasNull_parent (hnull : path.hasNull = false) : path.parent.hasNull = false := by
  rw [TreePath.hasNull, List.any_eq_false] at hnull ⊢
  exact fun segment hsegment => hnull segment ((List.dropLast_sublist _).subset hsegment)

theorem crash?_writeText {text : Text} {e : FileError} (hnull : path.hasNull = false)
    (h : (tree.writeText path text).1 = .error e) : e.crash? = none := by
  unfold writeText at h
  split at h
  · next heq =>
      rw [← Except.error.inj h]
      exact crash?_makeDirectories (hasNull_parent hnull) (congrArg Prod.fst heq)
  · exact crash?_writeFile hnull h

/-- A directory whose path has the null character cannot be written to. -/
theorem writeTexts_of_hasNull {directory : TreePath} {item : Text × Text}
    (rest : List (Text × Text)) (hnull : (directory.child item.1).parent.hasNull = true) :
    tree.writeTexts directory (item :: rest) = (.error .nullInPath, tree) := by
  have hdirectories : tree.makeDirectories (directory.child item.1).parent
      = (.error .nullInPath, tree) := if_pos hnull
  obtain ⟨name, text⟩ := item
  unfold writeTexts writeText
  dsimp only at hdirectories ⊢
  rw [hdirectories]

/-- **Writing ends the run only on a path with the null character.** -/
theorem crash?_writeTexts {directory : TreePath} {items : List (Text × Text)} {e : FileError}
    (hnull : ∀ item ∈ items, (directory.child item.1).hasNull = false)
    (h : (tree.writeTexts directory items).1 = .error e) : e.crash? = none := by
  induction items generalizing tree with
  | nil => cases h
  | cons item rest ih =>
      obtain ⟨name, text⟩ := item
      rw [List.forall_mem_cons] at hnull
      unfold writeTexts at h
      dsimp only at h
      split at h
      · next heq =>
          rw [← Except.error.inj h]
          exact crash?_writeText hnull.1 (congrArg Prod.fst heq)
      · next between heq =>
          cases hrest : (between.writeTexts directory rest).1 with
          | ok paths =>
              rw [hrest] at h
              cases h
          | error e' =>
              rw [hrest] at h
              obtain rfl := Except.error.inj h
              exact ih hnull.2 hrest

end FileTree

end SolidityBundler
