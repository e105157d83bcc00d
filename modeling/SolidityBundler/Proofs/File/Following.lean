/-
Where a path leads.

A path is followed segment by segment, and the walk goes on only behind a directory.  So a path can
be followed in two parts: the first one leads to a directory, or the walk comes to nothing.  A path
that a file can stand at ends with a segment that names an entry of a directory, and the address of
that entry is all that reading and writing look at.

Without `..` a walk comes to the address that its segments spell out, so two paths below one
directory come to different addresses if they differ and do not go up.
-/
import SolidityBundler.File.Tree
import SolidityBundler.Proofs.Path.Descent

namespace SolidityBundler

namespace FileTree

variable {tree : FileTree} {start base a : Address} {path : TreePath}

/-! ### Following a path in two parts -/

/-- The address that following a path comes to, whether something is there or not. -/
def Place.address? : Place → Option Address
  | .found address _ | .free address => some address
  | .absent | .blocked => none

theorem followFrom_nil (tree : FileTree) (start : Address) :
    tree.followFrom start [] = .found start .directory := rfl

theorem followFrom_up (tree : FileTree) (start : Address) (rest : List Text) :
    tree.followFrom start (SlashPath.up :: rest) = tree.followFrom start.dropLast rest :=
  if_pos rfl

theorem followFrom_directory {segment : Text} (hup : segment ≠ SlashPath.up)
    (hnode : tree.node? (start ++ [segment]) = some .directory) (rest : List Text) :
    tree.followFrom start (segment :: rest) = tree.followFrom (start ++ [segment]) rest := by
  refine (if_neg hup).trans ?_
  dsimp only
  rw [hnode]

/-- A walk goes on only behind a directory. -/
theorem address?_followFrom_eq_none {segment : Text} {rest : List Text}
    (hup : segment ≠ SlashPath.up) (hnode : tree.node? (start ++ [segment]) ≠ some .directory)
    (hrest : rest ≠ []) : (tree.followFrom start (segment :: rest)).address? = none := by
  obtain ⟨next, rest, rfl⟩ := List.exists_cons_of_ne_nil hrest
  refine (congrArg Place.address? (if_neg hup)).trans ?_
  dsimp only
  cases hat : tree.node? (start ++ [segment]) with
  | none => rfl
  | some node =>
      cases node with
      | file content => rfl
      | directory => exact absurd hat hnode

/-- The last segment comes to what stands there. -/
theorem followFrom_last {segment : Text} (hup : segment ≠ SlashPath.up) :
    tree.followFrom start [segment] = (tree.node? (start ++ [segment])).elim
      (.free (start ++ [segment])) (.found (start ++ [segment])) := by
  refine (if_neg hup).trans ?_
  dsimp only
  cases hat : tree.node? (start ++ [segment]) with
  | none => rfl
  | some node =>
      cases node with
      | file content => rfl
      | directory => rfl

theorem address?_followFrom_last {segment : Text} (hup : segment ≠ SlashPath.up) :
    (tree.followFrom start [segment]).address? = some (start ++ [segment]) := by
  rw [followFrom_last hup]
  cases tree.node? (start ++ [segment]) <;> rfl

/-- The first step of a walk to a directory leads to a directory. -/
theorem directory_of_found {segment : Text} {rest : List Text} (hup : segment ≠ SlashPath.up)
    (h : tree.followFrom start (segment :: rest) = .found base .directory) :
    tree.node? (start ++ [segment]) = some .directory := by
  refine Decidable.byContradiction fun hnode => ?_
  by_cases hrest : rest = []
  · subst hrest
    rw [followFrom_last hup] at h
    cases hat : tree.node? (start ++ [segment]) with
    | none =>
        rw [hat] at h
        cases h
    | some node =>
        rw [hat] at h
        cases h
        exact hnode hat
  · have hnone := address?_followFrom_eq_none hup hnode hrest
    rw [h] at hnone
    cases hnone

theorem followFrom_append {front : List Text}
    (h : tree.followFrom start front = .found base .directory) (back : List Text) :
    tree.followFrom start (front ++ back) = tree.followFrom base back := by
  induction front generalizing start with
  | nil =>
      obtain rfl : start = base := by simpa [followFrom_nil] using h
      rfl
  | cons segment rest ih =>
      by_cases hup : segment = SlashPath.up
      · subst hup
        rw [followFrom_up] at h
        rw [List.cons_append, followFrom_up, ih h]
      · have hnode := directory_of_found hup h
        rw [followFrom_directory hup hnode] at h
        rw [List.cons_append, followFrom_directory hup hnode, ih h]

/-- A walk that comes to an address passes through directories. -/
theorem exists_found_of_append {front back : List Text} (hback : back ≠ [])
    (h : (tree.followFrom start (front ++ back)).address? = some a) :
    ∃ base, tree.followFrom start front = .found base .directory := by
  induction front generalizing start with
  | nil => exact ⟨start, followFrom_nil tree start⟩
  | cons segment rest ih =>
      rw [List.cons_append] at h
      by_cases hup : segment = SlashPath.up
      · subst hup
        rw [followFrom_up] at h ⊢
        exact ih h
      · by_cases hnode : tree.node? (start ++ [segment]) = some .directory
        · rw [followFrom_directory hup hnode] at h ⊢
          exact ih h
        · rw [address?_followFrom_eq_none hup hnode (by simp [hback])] at h
          cases h

/-- Without `..` a walk comes to the address that its segments spell out. -/
theorem address_of_notMem_up {segs : List Text} (hplain : SlashPath.up ∉ segs)
    (h : (tree.followFrom start segs).address? = some a) : a = start ++ segs := by
  induction segs generalizing start with
  | nil =>
      rw [followFrom_nil, Place.address?, Option.some.injEq] at h
      rw [← h, List.append_nil]
  | cons segment rest ih =>
      rw [List.mem_cons, not_or] at hplain
      have hup : segment ≠ SlashPath.up := Ne.symm hplain.1
      by_cases hnode : tree.node? (start ++ [segment]) = some .directory
      · rw [followFrom_directory hup hnode] at h
        rw [ih hplain.2 h, List.append_assoc, List.singleton_append]
      · by_cases hrest : rest = []
        · subst hrest
          rw [address?_followFrom_last hup, Option.some.injEq] at h
          exact h.symm
        · rw [address?_followFrom_eq_none hup hnode hrest] at h
          cases h

/-! ### The address of a file -/

/-- The last segment of a path names an entry of a directory, and `address` is that of the entry,
whether it is there or not. -/
def EndsAt (tree : FileTree) (path : TreePath) (address : Address) : Prop :=
  ∃ front last base, path.segments = front ++ [last] ∧ last ≠ SlashPath.up ∧
    tree.followFrom (tree.startOf path) front = .found base .directory ∧ address = base ++ [last]

theorem EndsAt.followFrom_eq (h : tree.EndsAt path a) :
    tree.followFrom (tree.startOf path) path.segments
      = (tree.node? a).elim (.free a) (.found a) := by
  obtain ⟨front, last, base, hsegments, hup, hfront, rfl⟩ := h
  rw [hsegments, followFrom_append hfront, followFrom_last hup]

theorem EndsAt.address?_eq (h : tree.EndsAt path a) :
    (tree.followFrom (tree.startOf path) path.segments).address? = some a := by
  rw [h.followFrom_eq]
  cases tree.node? a <;> rfl

theorem EndsAt.ne_nil (h : tree.EndsAt path a) : a ≠ [] := by
  obtain ⟨_, _, _, -, -, -, rfl⟩ := h
  simp

theorem endsAt_of_address?
    (h : (tree.followFrom (tree.startOf path) path.segments).address? = some a)
    (hnot : tree.followFrom (tree.startOf path) path.segments ≠ .found a .directory) :
    tree.EndsAt path a := by
  rcases List.eq_nil_or_concat path.segments with hnil | ⟨front, last, hconcat⟩
  · rw [hnil, followFrom_nil] at h hnot
    rw [Place.address?, Option.some.injEq] at h
    rw [h] at hnot
    exact absurd rfl hnot
  · rw [List.concat_eq_append] at hconcat
    rw [hconcat] at h hnot
    obtain ⟨base, hfront⟩ := exists_found_of_append (List.cons_ne_nil _ _) h
    rw [followFrom_append hfront] at h hnot
    have hup : last ≠ SlashPath.up := by
      rintro rfl
      rw [followFrom_up, followFrom_nil] at h hnot
      rw [Place.address?, Option.some.injEq] at h
      rw [h] at hnot
      exact absurd rfl hnot
    refine ⟨front, last, base, hconcat, hup, hfront, ?_⟩
    rw [address?_followFrom_last hup, Option.some.injEq] at h
    exact h.symm

/-- Where a path goes down at its end, its address is below that of the directory it goes down
from. -/
theorem EndsAt.exists_base {front back : List Text} (h : tree.EndsAt path a)
    (hpath : path.segments = front ++ back) (hne : back ≠ []) (hup : SlashPath.up ∉ back) :
    ∃ base, tree.followFrom (tree.startOf path) front = .found base .directory ∧
      a = base ++ back := by
  have haddress := h.address?_eq
  rw [hpath] at haddress
  obtain ⟨base, hbase⟩ := exists_found_of_append hne haddress
  rw [followFrom_append hbase] at haddress
  exact ⟨base, hbase, address_of_notMem_up hup haddress⟩

/-- The bases of paths that go down from one directory are one address. -/
theorem EndsAt.exists_common_base {path' : TreePath} {a' : Address} {front back back' : List Text}
    (h : tree.EndsAt path a) (h' : tree.EndsAt path' a') (hslashes : path.slashes = path'.slashes)
    (hpath : path.segments = front ++ back) (hpath' : path'.segments = front ++ back')
    (hne : back ≠ []) (hne' : back' ≠ []) (hup : SlashPath.up ∉ back)
    (hup' : SlashPath.up ∉ back') : ∃ base, a = base ++ back ∧ a' = base ++ back' := by
  have hstart : tree.startOf path = tree.startOf path' := by rw [startOf, startOf, hslashes]
  obtain ⟨base, hbase, ha⟩ := h.exists_base hpath hne hup
  obtain ⟨base', hbase', ha'⟩ := h'.exists_base hpath' hne' hup'
  rw [hstart, hbase'] at hbase
  obtain rfl : base' = base := (Place.found.inj hbase).1
  exact ⟨base', ha, ha'⟩

/-- **Different paths below one directory come to different addresses**, if they do not go up. -/
theorem EndsAt.eq_of_plain {path' : TreePath} {front back back' : List Text}
    (h : tree.EndsAt path a) (h' : tree.EndsAt path' a) (hslashes : path.slashes = path'.slashes)
    (hpath : path.segments = front ++ back) (hpath' : path'.segments = front ++ back')
    (hne : back ≠ []) (hup : SlashPath.up ∉ back)
    (hup' : SlashPath.up ∉ back') : back = back' := by
  have hstart : tree.startOf path = tree.startOf path' := by rw [startOf, startOf, hslashes]
  have haddress' := h'.address?_eq
  obtain ⟨base, hbase, ha⟩ := h.exists_base hpath hne hup
  rw [hpath', ← hstart, followFrom_append hbase] at haddress'
  exact List.append_cancel_left (ha.symm.trans (address_of_notMem_up hup' haddress'))

theorem follow_eq (tree : FileTree) (h : path.hasNull = false) :
    tree.follow path = tree.followFrom (tree.startOf path) path.segments := by
  rw [follow, h]
  rfl

theorem hasNull_of_address? (h : (tree.follow path).address? = some a) : path.hasNull = false := by
  cases hnull : path.hasNull with
  | false => rfl
  | true =>
      rw [follow, hnull] at h
      cases h

theorem endsAt_of_follow (h : (tree.follow path).address? = some a)
    (hnot : tree.follow path ≠ .found a .directory) : tree.EndsAt path a := by
  have hfollow := follow_eq tree (hasNull_of_address? h)
  rw [hfollow] at h hnot
  exact endsAt_of_address? h hnot

theorem follow_of_endsAt (hnull : path.hasNull = false) (h : tree.EndsAt path a) :
    tree.follow path = (tree.node? a).elim (.free a) (.found a) := by
  rw [follow_eq tree hnull, h.followFrom_eq]

theorem node?_of_free (h : tree.follow path = .free a) :
    tree.EndsAt path a ∧ tree.node? a = none := by
  have haddress : (tree.follow path).address? = some a := by
    rw [h]
    rfl
  have hends := endsAt_of_follow haddress (by simp [h])
  rw [follow_of_endsAt (hasNull_of_address? haddress) hends] at h
  refine ⟨hends, ?_⟩
  cases hat : tree.node? a with
  | none => rfl
  | some node =>
      rw [hat] at h
      cases h

theorem node?_of_found_file {content : Bytes} (h : tree.follow path = .found a (.file content)) :
    tree.EndsAt path a ∧ tree.node? a = some (.file content) := by
  have haddress : (tree.follow path).address? = some a := by
    rw [h]
    rfl
  have hends := endsAt_of_follow haddress (by simp [h])
  rw [follow_of_endsAt (hasNull_of_address? haddress) hends] at h
  refine ⟨hends, ?_⟩
  cases hat : tree.node? a with
  | none =>
      rw [hat] at h
      cases h
  | some node =>
      rw [hat] at h
      cases h
      rfl

end FileTree

/-! ### Plain names -/

theorem SlashPath.Plain.up_notMem {name : Text} (h : SlashPath.Plain name) :
    SlashPath.up ∉ SlashPath.segments name :=
  fun hup => absurd (h _ hup) (by decide)

private theorem SlashPath.Plain.head?_ne_slash {name : Text} (h : SlashPath.Plain name) :
    name.head? ≠ some '/' := by
  intro hslash
  obtain ⟨rest, rfl⟩ := List.head?_eq_some_iff.1 hslash
  exact absurd (h [] (by simp [SlashPath.segments, Text.split])) (by decide)

theorem TreePath.ofText_of_plain {name : Text} (h : SlashPath.Plain name) :
    TreePath.ofText name = { slashes := 0, segments := SlashPath.segments name } := by
  have hslashes := SlashPath.rootSlashes_eq_zero h.head?_ne_slash
  have hsegments : (SlashPath.segments name).filter TreePath.isNamed = SlashPath.segments name := by
    refine List.filter_eq_self.2 fun segment hsegment => ?_
    have hnamed := h segment hsegment
    rw [SlashPath.isRelativeSegment, Bool.or_eq_false_iff, Bool.or_eq_false_iff] at hnamed
    rw [TreePath.isNamed, hnamed.2, bne, hnamed.1.1]
    rfl
  rw [TreePath.ofText, hslashes, hsegments]

theorem TreePath.child_of_plain (directory : TreePath) {name : Text} (h : SlashPath.Plain name) :
    directory.child name
      = { directory with segments := directory.segments ++ SlashPath.segments name } := by
  rw [TreePath.child, TreePath.ofText_of_plain h]
  rfl

namespace FileTree

variable {tree : FileTree} {directory : TreePath} {a : Address}

/-- A file of a directory stands below the address of the directory. -/
theorem EndsAt.exists_above {name last : Text} {front : List Text}
    (h : tree.EndsAt (directory.child name) a) (hplain : SlashPath.Plain name)
    (hdirectory : directory.segments = front ++ [last]) (hup : last ≠ SlashPath.up) :
    ∃ c, tree.EndsAt directory c ∧ c <+: a := by
  rw [TreePath.child_of_plain _ hplain] at h
  have hsegments : directory.segments ++ SlashPath.segments name
      = front ++ (last :: SlashPath.segments name) := by
    rw [hdirectory, List.append_assoc, List.singleton_append]
  obtain ⟨base, hbase, rfl⟩ := h.exists_base hsegments (List.cons_ne_nil _ _)
    (List.not_mem_cons_of_ne_of_not_mem (Ne.symm hup) hplain.up_notMem)
  refine ⟨base ++ [last], ⟨front, last, base, hdirectory, hup, hbase, rfl⟩, ?_⟩
  exact (List.prefix_append_right_inj base).2 (List.cons_prefix_cons.2 ⟨rfl, List.nil_prefix⟩)

/-- Different plain names stand for different files of a directory. -/
theorem EndsAt.name_eq {name name' : Text} (h : tree.EndsAt (directory.child name) a)
    (h' : tree.EndsAt (directory.child name') a) (hplain : SlashPath.Plain name)
    (hplain' : SlashPath.Plain name') : name = name' := by
  rw [TreePath.child_of_plain _ hplain] at h
  rw [TreePath.child_of_plain _ hplain'] at h'
  have hsegments := h.eq_of_plain h' rfl rfl rfl (Text.split_ne_nil '/' name) hplain.up_notMem
    hplain'.up_notMem
  rw [← SlashPath.ofSegments_segments name, hsegments, SlashPath.ofSegments_segments]

end FileTree

end SolidityBundler
