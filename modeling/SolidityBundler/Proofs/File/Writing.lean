/-
What writing does to a tree of files.

Nothing is ever taken away: a directory is made where there is nothing, and a file is put where
there is nothing or another file.  So a path that led to a directory goes on leading there, and a
path that a file was written to leads to the same address ever after.  What is read there later is
what was written, unless a later write comes to the same address; plain names that differ never
make it do so.
-/
import SolidityBundler.Proofs.File.Following
import SolidityBundler.Proofs.Table

namespace SolidityBundler

namespace FileTree

variable {tree tree' tree'' : FileTree} {start base a : Address} {path : TreePath}

/-! ### What stays -/

/-- From one tree to the other nothing is lost, and only files at addresses in `written` have a
new content. -/
structure Writes (written : Address → Prop) (tree tree' : FileTree) : Prop where
  current : tree'.current = tree.current
  directory : ∀ a, tree.node? a = some .directory → tree'.node? a = some .directory
  file : ∀ a content, ¬ written a → tree.node? a = some (.file content) →
    tree'.node? a = some (.file content)

namespace Writes

variable {written written' : Address → Prop}

theorem refl (written : Address → Prop) (tree : FileTree) : Writes written tree tree :=
  ⟨rfl, fun _ h => h, fun _ _ _ h => h⟩

theorem mono (h : Writes written tree tree') (hsub : ∀ a, written a → written' a) :
    Writes written' tree tree' :=
  ⟨h.current, h.directory, fun a content hnot => h.file a content (hnot ∘ hsub a)⟩

theorem trans (h : Writes written tree tree') (h' : Writes written tree' tree'') :
    Writes written tree tree'' where
  current := h'.current.trans h.current
  directory a hnode := h'.directory a (h.directory a hnode)
  file a content hnot hnode := h'.file a content hnot (h.file a content hnot hnode)

theorem followFrom_directory (h : Writes written tree tree') {segs : List Text}
    (hfound : tree.followFrom start segs = .found base .directory) :
    tree'.followFrom start segs = .found base .directory := by
  induction segs generalizing start with
  | nil => exact hfound
  | cons segment rest ih =>
      by_cases hup : segment = SlashPath.up
      · subst hup
        rw [followFrom_up] at hfound ⊢
        exact ih hfound
      · have hnode := directory_of_found hup hfound
        rw [FileTree.followFrom_directory hup hnode] at hfound
        rw [FileTree.followFrom_directory hup (h.directory _ hnode)]
        exact ih hfound

theorem endsAt (h : Writes written tree tree') (hends : tree.EndsAt path a) :
    tree'.EndsAt path a := by
  obtain ⟨front, last, base, hsegments, hup, hfront, ha⟩ := hends
  have hstart : tree'.startOf path = tree.startOf path := by rw [startOf, startOf, h.current]
  exact ⟨front, last, base, hsegments, hup, by rw [hstart]; exact h.followFrom_directory hfront, ha⟩

end Writes

theorem node?_put (tree : FileTree) (ha : a ≠ []) (node : FileNode) (x : Address) :
    (tree.put a node).node? x = if a = x then some node else tree.node? x := by
  by_cases hx : x = []
  · subst hx
    rw [if_neg ha]
    rfl
  · have hat : ∀ tree : FileTree, tree.node? x = tree.nodes.get? x := by
      intro tree
      rw [node?, if_neg (by simpa using hx)]
    rw [hat, hat]
    exact Table.get?_insert _ _ _ _

private theorem writes_put_file (ha : a ≠ []) (hnode : tree.node? a ≠ some .directory)
    (content : Bytes) : Writes (· = a) tree (tree.put a (.file content)) := by
  refine ⟨rfl, ?_, ?_⟩
  · intro x hx
    rw [node?_put tree ha, if_neg, hx]
    rintro rfl
    exact hnode hx
  · intro x _ hne hx
    rw [node?_put tree ha, if_neg (Ne.symm hne), hx]

private theorem writes_put_directory (ha : a ≠ []) (hnode : tree.node? a = none) :
    Writes (fun _ => False) tree (tree.put a .directory) := by
  have hne : ∀ x node, tree.node? x = some node → a ≠ x := by
    rintro x node hx rfl
    rw [hnode] at hx
    cases hx
  refine ⟨rfl, ?_, ?_⟩
  · intro x hx
    rw [node?_put tree ha, if_neg (hne x _ hx), hx]
  · intro x _ _ hx
    rw [node?_put tree ha, if_neg (hne x _ hx), hx]

/-! ### One operation -/

private theorem writes_of_makeDirectory (h : tree.makeDirectory path = .ok tree') :
    Writes (fun _ => False) tree tree' := by
  unfold makeDirectory at h
  cases hfollow : tree.follow path with
  | free address =>
      obtain ⟨hends, hnode⟩ := node?_of_free hfollow
      rw [hfollow] at h
      rw [← Except.ok.inj h]
      exact writes_put_directory hends.ne_nil hnode
  | found _ _ | absent | blocked =>
      rw [hfollow] at h
      cases h

private theorem writes_makeDirectoriesAlong (tree : FileTree) (slashes : Nat) (trail : List Text) :
    Writes (fun _ => False) tree (tree.makeDirectoriesAlong slashes trail).2 := by
  induction trail generalizing tree with
  | nil =>
      unfold makeDirectoriesAlong
      dsimp only
      split
      · next h => exact writes_of_makeDirectory h
      · exact .refl _ tree
  | cons segment above ih =>
      unfold makeDirectoriesAlong
      dsimp only
      split
      · next h => exact writes_of_makeDirectory h
      · split
        · next h =>
            have habove := ih tree
            rw [h] at habove
            exact habove
        · next h =>
            have habove := ih tree
            rw [h] at habove
            split
            · next h' => exact habove.trans (writes_of_makeDirectory h')
            · exact habove
      · exact .refl _ tree

theorem writes_makeDirectories (tree : FileTree) (path : TreePath) :
    Writes (fun _ => False) tree (tree.makeDirectories path).2 := by
  unfold makeDirectories
  split
  · exact .refl _ tree
  · exact writes_makeDirectoriesAlong tree path.slashes path.segments.reverse

/-! ### Files that hold a content -/

/-- A path leads to a file of this content. -/
def Holds (tree : FileTree) (path : TreePath) (content : Bytes) : Prop :=
  path.hasNull = false ∧ ∃ a, tree.EndsAt path a ∧ tree.node? a = some (.file content)

theorem Holds.read {content : Bytes} (h : tree.Holds path content) :
    tree.read path = .ok content := by
  obtain ⟨hnull, a, hends, hnode⟩ := h
  rw [FileTree.read, hnull, follow_of_endsAt hnull hends, hnode]
  rfl

/-- A file keeps its content as long as nothing is written to its address. -/
theorem Holds.of_writes {content : Bytes} {written : Address → Prop} (h : tree.Holds path content)
    (hwrites : Writes written tree tree') (hapart : ∀ a, tree'.EndsAt path a → ¬ written a) :
    tree'.Holds path content := by
  obtain ⟨hnull, a, hends, hnode⟩ := h
  have hends' := hwrites.endsAt hends
  exact ⟨hnull, a, hends', hwrites.file a content (hapart a hends') hnode⟩

theorem writeFile_ok {content : Bytes} (h : tree.writeFile path content = (.ok (), tree')) :
    tree'.Holds path content := by
  unfold writeFile at h
  split at h
  · cases h
  · next hnull =>
      have hput : ∀ address, tree.EndsAt path address → tree.node? address ≠ some .directory →
          (tree.put address (.file content)).Holds path content := by
        intro address hends hnode
        refine ⟨by simpa using hnull, address,
          (writes_put_file hends.ne_nil hnode content).endsAt hends, ?_⟩
        rw [node?_put tree hends.ne_nil, if_pos rfl]
      split at h
      · next address hfollow =>
          obtain ⟨hends, hnode⟩ := node?_of_free hfollow
          obtain rfl : tree.put address (.file content) = tree' := congrArg Prod.snd h
          exact hput address hends (by simp [hnode])
      · next address before hfollow =>
          obtain ⟨hends, hnode⟩ := node?_of_found_file hfollow
          obtain rfl : tree.put address (.file content) = tree' := congrArg Prod.snd h
          exact hput address hends (by simp [hnode])
      · cases h
      · cases h
      · cases h

/-- A file is written to the address of its path, if to any. -/
theorem writes_writeFile (tree : FileTree) (path : TreePath) (content : Bytes) :
    Writes (tree.EndsAt path) tree (tree.writeFile path content).2 := by
  unfold writeFile
  split
  · exact .refl _ tree
  · split
    · next address hfollow =>
        obtain ⟨hends, hnode⟩ := node?_of_free hfollow
        refine (writes_put_file hends.ne_nil (by simp [hnode]) content).mono ?_
        rintro x rfl
        exact hends
    · next address before hfollow =>
        obtain ⟨hends, hnode⟩ := node?_of_found_file hfollow
        refine (writes_put_file hends.ne_nil (by simp [hnode]) content).mono ?_
        rintro x rfl
        exact hends
    · exact .refl _ tree
    · exact .refl _ tree
    · exact .refl _ tree

/-! ### Texts -/

theorem writeText_ok {text : Text} (h : tree.writeText path text = (.ok (), tree')) :
    tree'.Holds path (Utf8.encode text) := by
  unfold writeText at h
  split at h
  · cases h
  · exact writeFile_ok h

theorem writes_writeText (tree : FileTree) (path : TreePath) (text : Text) :
    Writes ((tree.writeText path text).2.EndsAt path) tree (tree.writeText path text).2 := by
  have hdirectories := writes_makeDirectories tree path.parent
  unfold writeText
  split
  · next heq =>
      rw [heq] at hdirectories
      exact hdirectories.mono fun _ => False.elim
  · next between heq =>
      rw [heq] at hdirectories
      have hfile := writes_writeFile between path (Utf8.encode text)
      exact (hdirectories.mono fun _ => False.elim).trans (hfile.mono fun _ => hfile.endsAt)

variable {directory : TreePath} {items : List (Text × Text)} {paths : List TreePath}

/-- Texts change nothing but what stands at the addresses of their paths. -/
theorem writes_writeTexts (tree : FileTree) (directory : TreePath) (items : List (Text × Text)) :
    Writes (fun a => ∃ item ∈ items,
        (tree.writeTexts directory items).2.EndsAt (directory.child item.1) a) tree
      (tree.writeTexts directory items).2 := by
  induction items generalizing tree with
  | nil => exact .refl _ tree
  | cons item rest ih =>
      obtain ⟨name, text⟩ := item
      have hfirst := writes_writeText tree (directory.child name) text
      unfold writeTexts
      dsimp only
      split
      · next heq =>
          rw [heq] at hfirst
          exact hfirst.mono fun a ha => ⟨(name, text), List.mem_cons_self, ha⟩
      · next between heq =>
          rw [heq] at hfirst
          have hrest := ih between
          refine (hfirst.mono fun a ha => ?_).trans (hrest.mono fun a ha => ?_)
          · exact ⟨(name, text), List.mem_cons_self, hrest.endsAt ha⟩
          · obtain ⟨item, hitem, hends⟩ := ha
            exact ⟨item, List.mem_cons_of_mem _ hitem, hends⟩

/-- **Texts that are all written can all be read back**, if their names are plain and differ. -/
theorem writeTexts_ok {items : List (Text × Text)} {paths : List TreePath}
    (h : tree.writeTexts directory items = (.ok paths, tree'))
    (hplain : ∀ item ∈ items, SlashPath.Plain item.1) (hdistinct : (items.map Prod.fst).Nodup) :
    paths = items.map (fun item => directory.child item.1) ∧
      ∀ item ∈ items, tree'.Holds (directory.child item.1) (Utf8.encode item.2) := by
  induction items generalizing tree paths with
  | nil =>
      obtain rfl : [] = paths := Except.ok.inj (congrArg Prod.fst h)
      exact ⟨rfl, fun _ hmem => absurd hmem List.not_mem_nil⟩
  | cons item rest ih =>
      obtain ⟨name, text⟩ := item
      rw [List.forall_mem_cons] at hplain
      rw [List.map_cons, List.nodup_cons] at hdistinct
      unfold writeTexts at h
      dsimp only at h
      split at h
      · cases h
      · next between hfirst =>
          cases hrest : between.writeTexts directory rest with
          | mk result last =>
              rw [hrest] at h
              obtain rfl : last = tree' := congrArg Prod.snd h
              cases result with
              | error e => cases h
              | ok others =>
                  obtain rfl : directory.child name :: others = paths :=
                    Except.ok.inj (congrArg Prod.fst h)
                  obtain ⟨hothers, hholds⟩ := ih hrest hplain.2 hdistinct.2
                  refine ⟨by rw [hothers, List.map_cons], ?_⟩
                  rw [List.forall_mem_cons]
                  refine ⟨?_, hholds⟩
                  have hwrites := writes_writeTexts between directory rest
                  rw [hrest] at hwrites
                  refine (writeText_ok hfirst).of_writes hwrites fun a hends => ?_
                  rintro ⟨other, hother, hends'⟩
                  have hname := hends.name_eq hends' hplain.1 (hplain.2 other hother)
                  exact hdistinct.1 (List.mem_map.2 ⟨other, hother, hname.symm⟩)

end FileTree

end SolidityBundler
