/-
Which files are located.

Sources are located by looking through the whole tree for files below a root.  In a file system
everything stands in a directory.  So these are the files that going down from the root comes to,
and a walk down to a file says where it stands.  Directories are only gone through: one that is
named like a source is no source, and what stands in it is found like anything else.

Names of entries have no slash, so a name gives back the way it was made of and no two files below
one root share it.  Files below different roots may, and then the root that is listed first has it.
-/
import SolidityBundler.Proofs.Build.Sources

namespace SolidityBundler

namespace Table

variable {κ α : Type} [DecidableEq κ]

/-- A table made of pairs answers with the only value that they have for a key. -/
private theorem get?_ofList_of_mem {pairs : List (κ × α)} {k : κ} {a : α} (h : (k, a) ∈ pairs)
    (honly : ∀ b, (k, b) ∈ pairs → b = a) : (ofList pairs).get? k = some a := by
  cases hget : (ofList pairs).get? k with
  | some b => rw [honly b (mem_of_get?_ofList hget)]
  | none =>
      rw [get?_ofList, Option.map_eq_none_iff, List.find?_eq_none] at hget
      exact absurd (decide_eq_true rfl) (hget (k, a) (List.mem_reverse.2 h))

theorem get?_insertAllNew (t other : Table κ α) (k : κ) :
    (t.insertAllNew other).get? k = (t.get? k).or (other.get? k) := by
  unfold insertAllNew get?
  induction other.entries generalizing t with
  | nil => exact Option.or_none.symm
  | cons entry rest ih =>
      obtain ⟨k', a⟩ := entry
      rw [List.foldl_cons, ih]
      change ((t.insertNew k' a).get? k).or _ = _
      rw [get?_insertNew, find?]
      by_cases hk : k' = k
      · rw [if_pos hk, if_pos hk, Option.or_assoc, Option.some_or]
        rfl
      · rw [if_neg hk, if_neg hk]
        rfl

end Table

/-! ### Trees of a file system -/

namespace FileTree

/-- Whatever is there stands in a directory. -/
def Rooted (tree : FileTree) : Prop :=
  ∀ address ∈ tree.nodes.keys, tree.node? address.dropLast = some .directory

instance (tree : FileTree) : Decidable tree.Rooted :=
  inferInstanceAs (Decidable (∀ address ∈ tree.nodes.keys, _ = _))

variable {tree : FileTree} {base address : Address} {way : List Text} {name : Text}

private theorem node?_of_ne_nil (tree : FileTree) (h : address ≠ []) :
    tree.node? address = tree.nodes.get? address := by
  rw [node?, if_neg (by simpa using h)]

private theorem mem_keys_of_node? {node : FileNode} (hne : address ≠ [])
    (h : tree.node? address = some node) : address ∈ tree.nodes.keys := by
  rw [node?_of_ne_nil tree hne] at h
  exact Table.mem_keys_iff.2 ⟨node, h⟩

/-- All that is gone through on the way to an entry is a directory. -/
theorem Rooted.directory_above (hrooted : tree.Rooted) {front back : Address} {node : FileNode}
    (hback : back ≠ []) (h : tree.node? (front ++ back) = some node) :
    tree.node? front = some .directory := by
  induction back using List.reverseRecOn generalizing node with
  | nil => exact absurd rfl hback
  | append_singleton back last ih =>
      rw [← List.append_assoc] at h
      have hparent := hrooted _ (mem_keys_of_node? (by simp) h)
      rw [List.dropLast_concat] at hparent
      by_cases hnil : back = []
      · subst hnil
        rwa [List.append_nil] at hparent
      · exact ih hnil hparent

/-- A file is come to by going down from any directory above it. -/
theorem Rooted.followFrom_file (hrooted : tree.Rooted) {content : Bytes}
    (hup : SlashPath.up ∉ way) (hway : way ≠ [])
    (h : tree.node? (base ++ way) = some (.file content)) :
    tree.followFrom base way = .found (base ++ way) (.file content) := by
  induction way generalizing base with
  | nil => exact absurd rfl hway
  | cons segment rest ih =>
      rw [List.mem_cons, not_or] at hup
      have hsegment : segment ≠ SlashPath.up := Ne.symm hup.1
      by_cases hrest : rest = []
      · subst hrest
        rw [followFrom_last hsegment, h]
        rfl
      · rw [← List.singleton_append, ← List.append_assoc] at h ⊢
        rw [List.singleton_append,
          followFrom_directory hsegment (hrooted.directory_above hrest h)]
        exact ih hup.2 hrest h

private theorem node?_of_followFrom_file {content : Bytes}
    (h : tree.followFrom base way = .found address (.file content)) :
    tree.node? address = some (.file content) := by
  induction way generalizing base with
  | nil => cases h
  | cons segment rest ih =>
      by_cases hup : segment = SlashPath.up
      · subst hup
        rw [followFrom_up] at h
        exact ih h
      · by_cases hnode : tree.node? (base ++ [segment]) = some .directory
        · rw [followFrom_directory hup hnode] at h
          exact ih h
        · by_cases hrest : rest = []
          · subst hrest
            rw [followFrom_last hup] at h
            cases hat : tree.node? (base ++ [segment]) with
            | none =>
                rw [hat] at h
                cases h
            | some node =>
                rw [hat] at h
                cases h
                exact hat
          · have hnone := address?_followFrom_eq_none hup hnode hrest
            rw [h] at hnone
            cases hnone

/-! ### Below a directory -/

/-- Going down from a directory comes to a regular file whose name has the ending of sources. -/
def LeadsToSource (tree : FileTree) (base : Address) (way : List Text) : Prop :=
  (∃ content, tree.followFrom base way = .found (base ++ way) (.file content)) ∧
    ∃ last, way.getLast? = some last ∧ isSourceName last

namespace LeadsToSource

theorem ne_nil (h : tree.LeadsToSource base way) : way ≠ [] := by
  obtain ⟨-, last, hlast, -⟩ := h
  rintro rfl
  cases hlast

theorem node? (h : tree.LeadsToSource base way) :
    ∃ content, tree.node? (base ++ way) = some (.file content) := by
  obtain ⟨⟨content, hfound⟩, -⟩ := h
  exact ⟨content, node?_of_followFrom_file hfound⟩

private theorem mem_keys (h : tree.LeadsToSource base way) : base ++ way ∈ tree.nodes.keys := by
  obtain ⟨content, hnode⟩ := h.node?
  exact mem_keys_of_node? (by simp [h.ne_nil]) hnode

theorem segments_ofSegments (hnamed : tree.Named) (h : tree.LeadsToSource base way) :
    SlashPath.segments (SlashPath.ofSegments way) = way :=
  SlashPath.segments_ofSegments h.ne_nil fun segment hsegment =>
    (hnamed _ h.mem_keys segment (List.mem_append_right _ hsegment)).2

end LeadsToSource

/-- **Below a directory those files are found that going down from it comes to.** -/
theorem mem_sourcesBelow (hnamed : tree.Named) (hrooted : tree.Rooted) :
    way ∈ tree.sourcesBelow base ↔ tree.LeadsToSource base way := by
  rw [mem_sourcesBelow_iff]
  constructor
  · rintro ⟨⟨content, hentry⟩, last, hlast, hending⟩
    have hway : way ≠ [] := by
      rintro rfl
      cases hlast
    have hkey : base ++ way ∈ tree.nodes.keys := List.mem_map_of_mem hentry
    have hnode : tree.node? (base ++ way) = some (.file content) := by
      rw [node?_of_ne_nil tree (by simp [hway])]
      exact Table.find?_of_mem tree.nodes.distinct hentry
    have hup : SlashPath.up ∉ way := by
      intro hmem
      exact absurd (hnamed _ hkey _ (List.mem_append_right _ hmem)).1 (by decide)
    exact ⟨⟨content, hrooted.followFrom_file hup hway hnode⟩, last, hlast, hending⟩
  · intro h
    obtain ⟨content, hnode⟩ := h.node?
    rw [node?_of_ne_nil tree (by simp [h.ne_nil])] at hnode
    exact ⟨⟨content, Table.mem_of_find? hnode⟩, h.2⟩

theorem LeadsToSource.way_eq (hnamed : tree.Named) {other : List Text}
    (h : tree.LeadsToSource base way) (hother : tree.LeadsToSource base other)
    (hname : SlashPath.ofSegments way = SlashPath.ofSegments other) : way = other := by
  rw [← h.segments_ofSegments hnamed, hname]
  exact hother.segments_ofSegments hnamed

theorem get?_namedSources (hnamed : tree.Named) (hrooted : tree.Rooted) {path : TreePath} :
    (tree.namedSources base).get? name = some path ↔
      ∃ way, tree.LeadsToSource base way ∧ name = SlashPath.ofSegments way ∧
        path = .absolute (base ++ way) := by
  constructor
  · intro h
    obtain ⟨way, hway, hname, hpath⟩ := exists_way_of_namedSources h
    exact ⟨way, (mem_sourcesBelow hnamed hrooted).1 hway, hname, hpath⟩
  · rintro ⟨way, hway, rfl, rfl⟩
    refine Table.get?_ofList_of_mem ?_ ?_
    · exact List.mem_map.2 ⟨way, (mem_sourcesBelow hnamed hrooted).2 hway, rfl⟩
    · intro path hpath
      obtain ⟨other, hother, hpair⟩ := List.mem_map.1 hpath
      obtain ⟨hname, rfl⟩ := Prod.mk.inj hpair
      rw [((mem_sourcesBelow hnamed hrooted).1 hother).way_eq hnamed hway hname]

/-! ### Below roots -/

/-- A name is the way from a root, which is a directory, to the source at an address. -/
def SourceBelow (tree : FileTree) (root : TreePath) (name : Text) (address : Address) : Prop :=
  ∃ base way, tree.follow root = .found base .directory ∧ tree.LeadsToSource base way ∧
    name = SlashPath.ofSegments way ∧ address = base ++ way

/-- What a root gives for a name. -/
def sourceAt? (tree : FileTree) (name : Text) (root : TreePath) : Option TreePath :=
  (tree.locate root).toOption.bind fun sources => sources.get? name

theorem sourceAt?_eq_some_iff (hnamed : tree.Named) (hrooted : tree.Rooted) {root path : TreePath} :
    tree.sourceAt? name root = some path ↔
      ∃ address, tree.SourceBelow root name address ∧ path = .absolute address := by
  constructor
  · intro h
    obtain ⟨sources, hlocate, hget⟩ := Option.bind_eq_some_iff.1 h
    cases hsources : tree.locate root with
    | error e =>
        rw [hsources] at hlocate
        cases hlocate
    | ok found =>
        rw [hsources] at hlocate
        obtain rfl : found = sources := Option.some.inj hlocate
        obtain ⟨base, hfollow, rfl⟩ := follow_of_locate hsources
        obtain ⟨way, hway, hname, hpath⟩ := (get?_namedSources hnamed hrooted).1 hget
        exact ⟨base ++ way, ⟨base, way, hfollow, hway, hname, rfl⟩, hpath⟩
  · rintro ⟨address, ⟨base, way, hfollow, hway, hname, rfl⟩, hpath⟩
    rw [sourceAt?, locate_of_follow hfollow]
    exact (get?_namedSources hnamed hrooted).2 ⟨way, hway, hname, hpath⟩

/-- Sources of several roots: a name belongs to the first root that has it. -/
theorem get?_locateLibraries (tree : FileTree) (roots : List TreePath) (name : Text) :
    (tree.locateLibraries roots).get? name = roots.findSome? (tree.sourceAt? name) := by
  have hmerge : ∀ t : Table Text TreePath,
      ((roots.filterMap fun root => (tree.locate root).toOption).foldl
          Table.insertAllNew t).get? name = (t.get? name).or (roots.findSome? (tree.sourceAt? name)) := by
    induction roots with
    | nil => intro t; exact Option.or_none.symm
    | cons root rest ih =>
        intro t
        rw [List.findSome?_cons, sourceAt?]
        cases hroot : (tree.locate root).toOption with
        | none =>
            rw [List.filterMap_cons, hroot]
            exact ih t
        | some sources =>
            rw [List.filterMap_cons, hroot]
            dsimp only
            rw [List.foldl_cons, ih, Table.get?_insertAllNew, Option.or_assoc, Option.bind_some]
            cases sources.get? name <;> rfl
  rw [locateLibraries, hmerge, Table.get?_empty, Option.none_or]

/-- A name stands for the source below the first root that has one. -/
theorem get?_locateLibraries_eq_some_iff (hnamed : tree.Named) (hrooted : tree.Rooted)
    {roots : List TreePath} {path : TreePath} :
    (tree.locateLibraries roots).get? name = some path ↔
      ∃ before root after address, roots = before ++ root :: after ∧
        tree.SourceBelow root name address ∧ path = .absolute address ∧
        ∀ earlier ∈ before, ∀ other, ¬ tree.SourceBelow earlier name other := by
  rw [get?_locateLibraries, List.findSome?_eq_some_iff]
  constructor
  · rintro ⟨before, root, after, hroots, hroot, hbefore⟩
    obtain ⟨address, hsource, hpath⟩ := (sourceAt?_eq_some_iff hnamed hrooted).1 hroot
    refine ⟨before, root, after, address, hroots, hsource, hpath, ?_⟩
    intro earlier hearlier other hother
    have hnone := hbefore earlier hearlier
    rw [(sourceAt?_eq_some_iff hnamed hrooted).2 ⟨other, hother, rfl⟩] at hnone
    cases hnone
  · rintro ⟨before, root, after, address, hroots, hsource, hpath, hbefore⟩
    refine ⟨before, root, after, hroots,
      (sourceAt?_eq_some_iff hnamed hrooted).2 ⟨address, hsource, hpath⟩, ?_⟩
    intro earlier hearlier
    refine Option.eq_none_iff_forall_ne_some.2 fun path hpath => ?_
    obtain ⟨other, hother, -⟩ := (sourceAt?_eq_some_iff hnamed hrooted).1 hpath
    exact hbefore earlier hearlier other hother

private theorem mem_keys_locateLibraries (hnamed : tree.Named) (hrooted : tree.Rooted)
    {roots : List TreePath} :
    name ∈ (tree.locateLibraries roots).keys ↔
      ∃ root ∈ roots, ∃ address, tree.SourceBelow root name address := by
  rw [Table.mem_keys_iff]
  constructor
  · rintro ⟨path, hpath⟩
    obtain ⟨before, root, after, address, rfl, hsource, -⟩ :=
      (get?_locateLibraries_eq_some_iff hnamed hrooted).1 hpath
    exact ⟨root, List.mem_append_right _ List.mem_cons_self, address, hsource⟩
  · rintro ⟨root, hroot, address, hsource⟩
    rw [get?_locateLibraries, ← Option.isSome_iff_exists, List.findSome?_isSome_iff]
    refine ⟨root, hroot, ?_⟩
    rw [(sourceAt?_eq_some_iff hnamed hrooted).2 ⟨address, hsource, rfl⟩]
    rfl

/-- **A name is located exactly if a listed root is a directory below which it is the way to a
source, and then it stands for the source below the first such root.**  What is located are regular
files.  A directory on the way makes no difference, whatever its own name. -/
theorem locateLibraries_first_root (hnamed : tree.Named) (hrooted : tree.Rooted)
    (roots : List TreePath) :
    (∀ name, name ∈ (tree.locateLibraries roots).keys ↔
      ∃ root ∈ roots, ∃ address, tree.SourceBelow root name address) ∧
    (∀ name path, (tree.locateLibraries roots).get? name = some path ↔
      ∃ before root after address, roots = before ++ root :: after ∧
        tree.SourceBelow root name address ∧ path = .absolute address ∧
        ∀ earlier ∈ before, ∀ other, ¬ tree.SourceBelow earlier name other) ∧
    (∀ name address, (tree.locateLibraries roots).get? name = some (.absolute address) →
      tree.node? address ≠ some .directory) ∧
    ∀ root ∈ roots, ∀ base inner, tree.follow root = .found base .directory →
      tree.followFrom base inner = .found (base ++ inner) .directory →
      ∀ way, tree.LeadsToSource (base ++ inner) way →
        SlashPath.ofSegments (inner ++ way) ∈ (tree.locateLibraries roots).keys := by
  refine ⟨fun name => mem_keys_locateLibraries hnamed hrooted,
    fun name path => get?_locateLibraries_eq_some_iff hnamed hrooted, ?_, ?_⟩
  · intro name address hget hdirectory
    obtain ⟨_, _, _, found, -, ⟨base, way, -, hway, -, rfl⟩, hpath, -⟩ :=
      (get?_locateLibraries_eq_some_iff hnamed hrooted).1 hget
    obtain rfl : address = base ++ way := congrArg TreePath.segments hpath
    obtain ⟨content, hfile⟩ := hway.node?
    rw [hdirectory] at hfile
    cases hfile
  · intro root hroot base inner hbase hinner way hway
    have hlonger : tree.LeadsToSource base (inner ++ way) := by
      obtain ⟨⟨content, hfound⟩, last, hlast, hending⟩ := hway
      refine ⟨⟨content, ?_⟩, last, ?_, hending⟩
      · rw [followFrom_append hinner, hfound, List.append_assoc]
      · rw [List.getLast?_append, hlast]
        rfl
    exact (mem_keys_locateLibraries hnamed hrooted).2
      ⟨root, hroot, _, base, inner ++ way, hbase, hlonger, rfl, rfl⟩

/-- Two libraries with a name in common.  One of them has a directory that is named like a source,
with a source in it. -/
def librariesTree : FileTree :=
  (((FileTree.empty []).place (.ofText "k/u.sol") (.file [])).place
    (.ofText "l/u.sol") (.file [])).place (.ofText "l/d.sol/v.sol") (.file [])

/-- A root that is not there, a root that is a file, the two libraries, and the inner directory. -/
def libraryRoots : List TreePath :=
  [.ofText "m", .ofText "k/u.sol", .ofText "l", .ofText "k", .ofText "l/d.sol", .ofText "l"]

/-- The name in common stands for the file of the library that is listed first. -/
theorem librariesTree_first_root :
    librariesTree.Named ∧ librariesTree.Rooted ∧
      (librariesTree.locateLibraries libraryRoots).get? "u.sol"
        = some (.absolute ["l".toList, "u.sol".toList]) ∧
      "d.sol/v.sol".toList ∈ (librariesTree.locateLibraries libraryRoots).keys ∧
      "v.sol".toList ∈ (librariesTree.locateLibraries libraryRoots).keys ∧
      (librariesTree.locateLibraries libraryRoots).get? "d.sol"
        ≠ some (.absolute ["l".toList, "d.sol".toList]) := by
  have hnamed : librariesTree.Named := by decide +kernel
  have hrooted : librariesTree.Rooted := by decide +kernel
  have hdirectory : librariesTree.follow (.ofText "l") = .found ["l".toList] .directory := by
    decide +kernel
  have hinner : librariesTree.followFrom ["l".toList] ["d.sol".toList]
      = .found (["l".toList] ++ ["d.sol".toList]) .directory := by decide +kernel
  have hfirst : librariesTree.LeadsToSource ["l".toList] ["u.sol".toList] :=
    ⟨⟨[], by decide +kernel⟩, _, rfl, by decide⟩
  have hlast : librariesTree.LeadsToSource (["l".toList] ++ ["d.sol".toList]) ["v.sol".toList] :=
    ⟨⟨[], by decide +kernel⟩, _, rfl, by decide⟩
  obtain ⟨hkeys, hget, hfiles, hbelow⟩ :=
    locateLibraries_first_root hnamed hrooted libraryRoots
  refine ⟨hnamed, hrooted, ?_, ?_, ?_, fun h => hfiles _ _ h (by decide +kernel)⟩
  · refine (hget _ _).2 ⟨[.ofText "m", .ofText "k/u.sol"], .ofText "l", _, _, rfl,
      ⟨_, _, hdirectory, hfirst, rfl, rfl⟩, rfl, ?_⟩
    have hnone : ∀ earlier ∈ [TreePath.ofText "m", TreePath.ofText "k/u.sol"],
        librariesTree.isDirectory earlier = false := by decide +kernel
    rintro earlier hearlier other ⟨base, way, hfollow, -⟩
    have hisDirectory := hnone earlier hearlier
    rw [isDirectory, hfollow] at hisDirectory
    cases hisDirectory
  · exact hbelow _ (by decide) _ _ hdirectory hinner _ hlast
  · refine (hkeys _).2 ⟨.ofText "l/d.sol", by decide, _, _, _, ?_, hlast, rfl, rfl⟩
    decide +kernel

end FileTree

end SolidityBundler
