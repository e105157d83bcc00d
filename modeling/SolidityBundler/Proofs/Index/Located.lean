/-
Aliases of located files.

An index over files takes its aliases through the paths: the owner of a suffix gives a path, and
the path gives back a name.  The way back leads to the last name that carries the path, so it
leads to the owner only if no later name carries the same path.  Where library roots lie inside
each other a file has several names, and then a suffix can lead to another name of the file than
the one that owns it.

An index over the texts that were read has the owners themselves as aliases.  The two agree
exactly where every name that owns a suffix is the last one with its path.
-/
import SolidityBundler.File.Source
import SolidityBundler.Proofs.Index.Lookup

namespace SolidityBundler

/-! ### From a path back to a name -/

/-- The last of the names that carry a path. -/
def lastNameAt (library : Table Text TreePath) (path : TreePath) : Option Text :=
  (library.entries.reverse.find? fun entry => entry.2 = path).map Prod.fst

/-- **The alias of a suffix is the last name with the path of its owner.** -/
theorem get?_locatedAliases (library : Table Text TreePath) (suffix : Text) :
    (locatedAliases library).get? suffix
      = ((owner? library.keys suffix).bind library.get?).bind (lastNameAt library) := by
  have hback : (Table.ofList (library.entries.map fun entry => (entry.2, entry.1))).get?
      = lastNameAt library := by
    funext path
    rw [Table.get?_ofList, ← List.map_reverse, List.find?_map, Option.map_map, lastNameAt]
    rfl
  change (Table.ofList (Table.valued
    (Table.ofList (library.entries.map fun entry => (entry.2, entry.1))).get?
      (aliasTable library).entries)).get? suffix = _
  rw [Table.get?_ofList_valued, get?_aliasTable, hback]

/-- The aliases are the owners exactly if every name that owns a suffix is the last one with its
path. -/
theorem locatedAliases_agree_iff (library : Table Text TreePath) :
    (∀ suffix, (locatedAliases library).get? suffix = owner? library.keys suffix) ↔
      ∀ suffix owner path, owner? library.keys suffix = some owner →
        library.get? owner = some path → lastNameAt library path = some owner := by
  constructor
  · intro hagree suffix owner path howner hpath
    have hsuffix := hagree suffix
    rw [get?_locatedAliases, howner, Option.bind_some, hpath, Option.bind_some] at hsuffix
    exact hsuffix
  · intro hlast suffix
    rw [get?_locatedAliases]
    cases howner : owner? library.keys suffix with
    | none => rfl
    | some owner =>
        obtain ⟨path, hpath⟩ := Table.mem_keys_iff.1 (owner?_eq_some_iff.1 howner).2.1
        rw [Option.bind_some, hpath, Option.bind_some]
        exact hlast suffix owner path howner hpath

/-! ### Reading the files -/

namespace FileTree

/-- The text of the source file at a path, if it can be read. -/
def textAt? (tree : FileTree) (path : TreePath) : Option Text :=
  (tree.read path).toOption.bind fun bytes => (Utf8.readSource bytes).toOption

/-- The texts of files, under their names. -/
def textsOf (tree : FileTree) (sources : Table Text TreePath) : Table Text Text :=
  sources.mapValues fun _ path => (tree.textAt? path).getD []

theorem keys_textsOf (tree : FileTree) (sources : Table Text TreePath) :
    (tree.textsOf sources).keys = sources.keys := by
  simp [textsOf, Table.keys, Table.mapValues, Function.comp_def]

theorem load_of_textAt? {tree : FileTree} {path : TreePath} {text : Text}
    (h : tree.textAt? path = some text) (origin : Origin) (name : Text) :
    tree.load origin name path = .ok (.ofText origin name text (some path)) := by
  rw [textAt?] at h
  rw [load]
  cases hread : tree.read path with
  | error e => simp [hread, Except.toOption] at h
  | ok bytes =>
      cases htext : Utf8.readSource bytes with
      | error e => simp [hread, htext, Except.toOption] at h
      | ok found =>
          simp only [hread, htext, Except.toOption, Option.bind_some, Option.some.injEq] at h
          subst h
          change ((Utf8.readSource bytes).mapError LoadError.text >>= fun text => .ok _) = _
          rw [htext]
          rfl

/-- The unit of a file that can be read. -/
def unitAt (tree : FileTree) (origin : Origin) (name : Text) (path : TreePath) : SourceUnit :=
  .ofText origin name ((tree.textAt? path).getD []) (some path)

/-- Reads one of the files, under its name. -/
def loadEntry (tree : FileTree) (origin : Origin) (entry : Text × TreePath) :
    Except LoadError (Text × SourceUnit) := do
  return (entry.1, ← tree.load origin entry.1 entry.2)

theorem loadAll_eq (tree : FileTree) (origin : Origin) (sources : Table Text TreePath) :
    tree.loadAll origin sources
      = (sources.entries.mapM (tree.loadEntry origin)).map Table.ofList := by
  change (sources.entries.mapM (tree.loadEntry origin) >>= fun units => .ok (Table.ofList units)) = _
  cases sources.entries.mapM (tree.loadEntry origin) <;> rfl

private theorem loadEntry_of_readable {tree : FileTree} {entry : Text × TreePath}
    (h : (tree.textAt? entry.2).isSome) (origin : Origin) :
    tree.loadEntry origin entry = .ok (entry.1, tree.unitAt origin entry.1 entry.2) := by
  obtain ⟨text, htext⟩ := Option.isSome_iff_exists.1 h
  rw [loadEntry, load_of_textAt? htext, unitAt, htext, Option.getD_some]
  rfl

private theorem mapM_loadEntry {tree : FileTree} {entries : List (Text × TreePath)}
    (h : ∀ entry ∈ entries, (tree.textAt? entry.2).isSome) (origin : Origin) :
    entries.mapM (tree.loadEntry origin)
      = .ok (entries.map fun entry => (entry.1, tree.unitAt origin entry.1 entry.2)) := by
  induction entries with
  | nil => rfl
  | cons entry rest ih =>
      rw [List.forall_mem_cons] at h
      rw [List.mapM_cons, loadEntry_of_readable h.1, ih h.2]
      rfl

theorem loadAll_of_readable {tree : FileTree} {sources : Table Text TreePath}
    (h : ∀ path ∈ sources.values, (tree.textAt? path).isSome) (origin : Origin) :
    tree.loadAll origin sources = .ok (sources.mapValues (tree.unitAt origin)) := by
  rw [loadAll_eq, mapM_loadEntry fun entry hentry => h entry.2 (List.mem_map_of_mem hentry)]
  exact congrArg Except.ok (Table.ofList_entries (sources.mapValues (tree.unitAt origin)))

end FileTree

/-! ### The two ways to an index -/

namespace UnitIndex

theorem ofFiles_of_readable {tree : FileTree} {project library : Table Text TreePath}
    (hproject : ∀ path ∈ project.values, (tree.textAt? path).isSome)
    (hlibrary : ∀ path ∈ library.values, (tree.textAt? path).isSome) :
    ∃ index, ofFiles tree project library = .ok index ∧
      index.aliases = locatedAliases library := by
  refine ⟨{ project := project.mapValues (tree.unitAt .project)
            library := library.mapValues (tree.unitAt .library)
            aliases := locatedAliases library }, ?_, rfl⟩
  rw [ofFiles, FileTree.loadAll_of_readable hproject .project,
    FileTree.loadAll_of_readable hlibrary .library]
  rfl

/-- **The index over files and the index over their texts.**  Over readable files both come about.
The index over the texts sends every suffix to its owner; the index over the files sends it to the
last name with the owner's path.  Their aliases are the same exactly if every name that owns a
suffix is the last one with its path. -/
theorem ofFiles_aliases_agree_iff {tree : FileTree} {project library : Table Text TreePath}
    (hproject : ∀ path ∈ project.values, (tree.textAt? path).isSome)
    (hlibrary : ∀ path ∈ library.values, (tree.textAt? path).isSome) :
    ∃ located spoken,
      ofFiles tree project library = .ok located ∧
      ofTexts (tree.textsOf project) (tree.textsOf library) = .ok spoken ∧
      (∀ suffix, spoken.aliases.get? suffix = owner? library.keys suffix) ∧
      (∀ suffix, located.aliases.get? suffix
        = ((owner? library.keys suffix).bind library.get?).bind (lastNameAt library)) ∧
      ((∀ suffix, located.aliases.get? suffix = spoken.aliases.get? suffix) ↔
        ∀ suffix owner path, owner? library.keys suffix = some owner →
          library.get? owner = some path → lastNameAt library path = some owner) := by
  obtain ⟨located, hlocated, haliases⟩ := ofFiles_of_readable hproject hlibrary
  have hspoken : ∀ suffix,
      (overTexts (tree.textsOf project) (tree.textsOf library)).aliases.get? suffix
        = owner? library.keys suffix := by
    intro suffix
    rw [overTexts, get?_namedAliases, FileTree.keys_textsOf]
  refine ⟨located, _, hlocated, ofTexts_eq _ _, hspoken, fun suffix => ?_, ?_⟩
  · rw [haliases, get?_locatedAliases]
  · rw [← locatedAliases_agree_iff, haliases]
    exact forall_congr' fun suffix => by rw [hspoken]

/-- A file below two library roots, one inside the other. -/
def nestedPath : TreePath := .ofText "/l/p/m/u.sol"

def nestedTree : FileTree := (FileTree.empty []).place nestedPath (.file [])

/-- The names that the file has below the inner root and below the outer one. -/
def innerName : Text := "m/u.sol"

def outerName : Text := "p/m/u.sol"

def outerFirst : Table Text TreePath :=
  nestedTree.locateLibraries [.ofText "/l", .ofText "/l/p"]

def innerFirst : Table Text TreePath :=
  nestedTree.locateLibraries [.ofText "/l/p", .ofText "/l"]

private theorem readable_outerFirst :
    ∀ path ∈ outerFirst.values, (nestedTree.textAt? path).isSome := by
  decide +kernel

private theorem readable_innerFirst :
    ∀ path ∈ innerFirst.values, (nestedTree.textAt? path).isSome := by
  decide +kernel

private theorem readable_empty (tree : FileTree) :
    ∀ path ∈ (Table.empty : Table Text TreePath).values, (tree.textAt? path).isSome :=
  fun _ h => absurd h List.not_mem_nil

/-- With the inner root first the longer name is the last one of the file, and it owns `u.sol`. -/
theorem innerFirst_aliases_agree :
    ∃ located spoken,
      ofFiles nestedTree .empty innerFirst = .ok located ∧
      ofTexts (nestedTree.textsOf .empty) (nestedTree.textsOf innerFirst) = .ok spoken ∧
      located.aliases.get? "u.sol".toList = some outerName ∧
      ∀ suffix, located.aliases.get? suffix = spoken.aliases.get? suffix := by
  obtain ⟨located, spoken, hlocated, hspoken, -, hget, hiff⟩ :=
    ofFiles_aliases_agree_iff (readable_empty nestedTree) readable_innerFirst
  refine ⟨located, spoken, hlocated, hspoken, ?_, hiff.2 fun suffix owner path howner hpath => ?_⟩
  · rw [hget]
    decide +kernel
  · have hlast : ∀ name ∈ innerFirst.keys, ∀ suffix ∈ SlashPath.suffixes name,
        owner? innerFirst.keys suffix = some name →
          (innerFirst.get? name).bind (lastNameAt innerFirst) = some name := by
      decide +kernel
    obtain ⟨-, hname, hsuffix, -⟩ := owner?_eq_some_iff.1 howner
    have hback := hlast owner hname suffix hsuffix howner
    rwa [hpath, Option.bind_some] at hback

/-- With the outer root first the shorter name is the last one of the file, and the index over the
files sends `u.sol` to it. -/
theorem outerFirst_aliases_differ :
    ∃ located spoken,
      ofFiles nestedTree .empty outerFirst = .ok located ∧
      ofTexts (nestedTree.textsOf .empty) (nestedTree.textsOf outerFirst) = .ok spoken ∧
      spoken.aliases.get? "u.sol".toList = some outerName ∧
      located.aliases.get? "u.sol".toList = some innerName := by
  obtain ⟨located, hlocated, haliases⟩ :=
    ofFiles_of_readable (readable_empty nestedTree) readable_outerFirst
  refine ⟨located, _, hlocated, ofTexts_eq _ _, ?_, ?_⟩
  · rw [overTexts, get?_namedAliases, FileTree.keys_textsOf]
    decide +kernel
  · rw [haliases, get?_locatedAliases]
    decide +kernel

end UnitIndex

end SolidityBundler
