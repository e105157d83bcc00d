/-
The aliases of a library as a map.

A name ends in a suffix if the suffix is what stands behind one of its slashes.  The aliases of a
library are the suffixes that its names end in, without those that are names themselves, and an
alias stands for the first name, by the order of claims, among those that end in it.

All of this is said of the set of names and of what the library holds under each of them.  Two
libraries that hold the same, entered in any order, are claimed from in the same order, because an
order that tells any two names apart leaves only one way to list them.  So they have the same table
of aliases, down to the order of its entries.
-/
import Mathlib.Data.List.Nodup
import SolidityBundler.Proofs.Index.Alias
import SolidityBundler.Proofs.Path.Descent

namespace SolidityBundler

/-! ### What a name ends in -/

namespace SlashPath

/-- `suffix` stands behind one of the slashes of `name`. -/
def EndsIn (name suffix : Text) : Prop := ∃ front, name = front ++ '/' :: suffix

theorem suffixes_cons (c : Char) (rest : Text) :
    suffixes (c :: rest) = if c = '/' then rest :: suffixes rest else suffixes rest := by
  obtain ⟨first, others, hsegs⟩ := List.exists_cons_of_ne_nil (Text.split_ne_nil '/' rest)
  rw [suffixes, suffixes, segments, segments, Text.split]
  by_cases hc : c = '/'
  · rw [if_pos hc, if_pos hc, hsegs, properTails, List.map_cons, ← hsegs]
    exact congrArg (· :: _) (ofSegments_segments rest)
  · rw [if_neg hc, if_neg hc, hsegs, Text.consFirst]
    cases others with
    | nil => rfl
    | cons next others => rfl

theorem mem_suffixes_iff {name suffix : Text} : suffix ∈ suffixes name ↔ EndsIn name suffix := by
  unfold EndsIn
  induction name with
  | nil => simp [suffixes, segments, Text.split, properTails]
  | cons c rest ih =>
      -- The slash is the first character, or it stands further behind.
      have hsplit : (∃ front, c :: rest = front ++ '/' :: suffix) ↔
          (c = '/' ∧ rest = suffix) ∨ ∃ front, rest = front ++ '/' :: suffix := by
        constructor
        · rintro ⟨_ | ⟨d, front⟩, heq⟩
          · exact Or.inl (List.cons.inj heq)
          · exact Or.inr ⟨front, (List.cons.inj heq).2⟩
        · rintro (⟨rfl, rfl⟩ | ⟨front, rfl⟩)
          · exact ⟨[], rfl⟩
          · exact ⟨c :: front, rfl⟩
      rw [hsplit, ← ih, suffixes_cons]
      by_cases hc : c = '/'
      · rw [if_pos hc, List.mem_cons, eq_comm]
        simp [hc]
      · rw [if_neg hc]
        simp [hc]

theorem not_endsIn_of_notMem {name : Text} (h : '/' ∉ name) (suffix : Text) :
    ¬ EndsIn name suffix := by
  rintro ⟨front, rfl⟩
  exact h (by simp)

end SlashPath

/-! ### One order of claims for every order of insertion -/

private theorem nodup_claimOrder (names : List Text) : (claimOrder names).Nodup := by
  refine (pairwise_sortBy claimsBefore_trans names).imp ?_
  rintro name other hbefore rfl
  have hasymm := claimsBefore_asymm name name hbefore
  rw [hbefore] at hasymm
  exact Bool.noConfusion hasymm

private theorem claimOrder_congr {names others : List Text}
    (h : ∀ name, name ∈ names ↔ name ∈ others) : claimOrder names = claimOrder others := by
  have hperm : (claimOrder names).Perm (claimOrder others) := by
    refine (List.perm_ext_iff_of_nodup (nodup_claimOrder names) (nodup_claimOrder others)).2 ?_
    intro name
    rw [mem_claimOrder, mem_claimOrder, h]
  refine hperm.eq_of_pairwise ?_ (pairwise_sortBy claimsBefore_trans names)
    (pairwise_sortBy claimsBefore_trans others)
  intro name other _ _ hbefore hafter
  rw [claimsBefore_asymm name other hbefore] at hafter
  exact Bool.noConfusion hafter

section

variable {α : Type}

private theorem claimSuffixes_congr {reserved reserved' : List Text}
    (h : ∀ name, name ∈ reserved ↔ name ∈ reserved') (name : Text) (target : α)
    (aliases : Table Text α) :
    claimSuffixes reserved name target aliases = claimSuffixes reserved' name target aliases := by
  have hcontains : ∀ suffix, reserved.contains suffix = reserved'.contains suffix := by
    intro suffix
    rw [Bool.eq_iff_iff, List.contains_iff_mem, List.contains_iff_mem]
    exact h suffix
  simp only [claimSuffixes, hcontains]

theorem aliasTable_congr {library other : Table Text α}
    (h : ∀ name, other.get? name = library.get? name) : aliasTable other = aliasTable library := by
  have hkeys : ∀ name, name ∈ other.keys ↔ name ∈ library.keys := by
    intro name
    rw [Table.mem_keys_iff, Table.mem_keys_iff, h]
  simp only [aliasTable, h, claimOrder_congr hkeys, claimSuffixes_congr hkeys]

/-! ### The first name that ends in a suffix -/

/-- Among some names, `owner` is the first that ends in `suffix`: the deepest, and of equally deep
ones the smallest. -/
structure FirstEndingIn (names : List Text) (suffix owner : Text) : Prop where
  mem : owner ∈ names
  endsIn : SlashPath.EndsIn owner suffix
  first : ∀ other ∈ names, SlashPath.EndsIn other suffix → other = owner ∨
    SlashPath.depth other < SlashPath.depth owner ∨
      SlashPath.depth other = SlashPath.depth owner ∧ owner < other

theorem owner?_eq_some_iff_first {names : List Text} {suffix owner : Text} :
    owner? names suffix = some owner ↔ suffix ∉ names ∧ FirstEndingIn names suffix owner := by
  simp only [owner?_eq_some_iff, SlashPath.mem_suffixes_iff, claimsBefore_iff]
  constructor
  · rintro ⟨hfree, hmem, hends, hfirst⟩
    refine ⟨hfree, hmem, hends, fun other hother hends' => ?_⟩
    exact (hfirst other hother hends').imp_right (Or.imp_right fun h => ⟨h.1.symm, h.2⟩)
  · rintro ⟨hfree, hmem, hends, hfirst⟩
    refine ⟨hfree, hmem, hends, fun other hother hends' => ?_⟩
    exact (hfirst other hother hends').imp_right (Or.imp_right fun h => ⟨h.1.symm, h.2⟩)

theorem get?_aliasTable_eq_some_iff {library : Table Text α} {suffix : Text} {target : α} :
    (aliasTable library).get? suffix = some target ↔
      suffix ∉ library.keys ∧ ∃ owner, FirstEndingIn library.keys suffix owner ∧
        library.get? owner = some target := by
  simp only [get?_aliasTable, Option.bind_eq_some_iff, owner?_eq_some_iff_first, and_assoc,
    exists_and_left]

private theorem mem_keys_aliasTable {library : Table Text α} {suffix : Text} :
    suffix ∈ (aliasTable library).keys ↔
      suffix ∉ library.keys ∧ ∃ name ∈ library.keys, SlashPath.EndsIn name suffix := by
  rw [Table.mem_keys_iff]
  constructor
  · rintro ⟨target, htarget⟩
    obtain ⟨hfree, owner, howner, -⟩ := get?_aliasTable_eq_some_iff.1 htarget
    exact ⟨hfree, owner, howner.mem, howner.endsIn⟩
  · rintro ⟨hfree, name, hname, hends⟩
    obtain ⟨owner, howner⟩ := exists_owner? hfree hname (SlashPath.mem_suffixes_iff.2 hends)
    obtain ⟨target, htarget⟩ :=
      Table.mem_keys_iff.1 (owner?_eq_some_iff_first.1 howner).2.mem
    exact ⟨target, by rw [get?_aliasTable, howner, Option.bind_some, htarget]⟩

private theorem firstEndingIn_insert_iff {library : Table Text α} {name suffix owner : Text}
    (hname : '/' ∉ name) (target : α) :
    FirstEndingIn (library.insert name target).keys suffix owner ↔
      FirstEndingIn library.keys suffix owner := by
  have hends : ∀ other, SlashPath.EndsIn other suffix →
      (other ∈ (library.insert name target).keys ↔ other ∈ library.keys) := by
    intro other hother
    have hne : name ≠ other := by
      rintro rfl
      exact SlashPath.not_endsIn_of_notMem hname suffix hother
    rw [Table.mem_keys_iff, Table.mem_keys_iff, Table.get?_insert, if_neg hne]
  constructor
  · rintro ⟨hmem, hends', hfirst⟩
    exact ⟨(hends owner hends').1 hmem, hends',
      fun other hother h => hfirst other ((hends other h).2 hother) h⟩
  · rintro ⟨hmem, hends', hfirst⟩
    exact ⟨(hends owner hends').2 hmem, hends',
      fun other hother h => hfirst other ((hends other h).1 hother) h⟩

/-- A name at the top level adds no alias; a suffix that is spelled like it becomes its own. -/
theorem get?_aliasTable_insert {name : Text} (hname : '/' ∉ name) (library : Table Text α)
    (target : α) (suffix : Text) :
    (aliasTable (library.insert name target)).get? suffix
      = if suffix = name then none else (aliasTable library).get? suffix := by
  refine Option.ext fun found => ?_
  rw [get?_aliasTable_eq_some_iff]
  by_cases hsuffix : suffix = name
  · have hmem : suffix ∈ (library.insert name target).keys :=
      Table.mem_keys_iff.2 ⟨target, by rw [Table.get?_insert, if_pos hsuffix.symm]⟩
    simp [hsuffix ▸ hmem, hsuffix]
  · rw [if_neg hsuffix, get?_aliasTable_eq_some_iff]
    have hkeys : suffix ∈ (library.insert name target).keys ↔ suffix ∈ library.keys := by
      rw [Table.mem_keys_iff, Table.mem_keys_iff, Table.get?_insert, if_neg (Ne.symm hsuffix)]
    refine and_congr (not_congr hkeys) (exists_congr fun owner => ?_)
    rw [firstEndingIn_insert_iff hname]
    refine and_congr_right fun howner => ?_
    have hne : name ≠ owner := by
      rintro rfl
      exact SlashPath.not_endsIn_of_notMem hname suffix howner.endsIn
    rw [Table.get?_insert, if_neg hne]

/-- **The aliases of a library are the suffixes of its names that are no names, each for the first
name that ends in it.**  In which order the names were entered has no part in it, and a name at the
top level has no alias. -/
theorem aliasTable_maps_suffixes (library : Table Text α) :
    (∀ suffix, suffix ∈ (aliasTable library).keys ↔
      suffix ∉ library.keys ∧ ∃ name ∈ library.keys, SlashPath.EndsIn name suffix) ∧
    (∀ suffix target, (aliasTable library).get? suffix = some target ↔
      suffix ∉ library.keys ∧ ∃ owner, FirstEndingIn library.keys suffix owner ∧
        library.get? owner = some target) ∧
    (∀ other : Table Text α, (∀ name, other.get? name = library.get? name) →
      aliasTable other = aliasTable library) ∧
    ∀ name target suffix, '/' ∉ name →
      (aliasTable (library.insert name target)).get? suffix
        = if suffix = name then none else (aliasTable library).get? suffix :=
  ⟨fun _ => mem_keys_aliasTable, fun _ _ => get?_aliasTable_eq_some_iff,
    fun _ => aliasTable_congr,
    fun _ target suffix hname => get?_aliasTable_insert hname library target suffix⟩

end

/-- Two names of one depth that end in the same two suffixes. -/
def tiedNames : Table Text Char := .ofList [("b/m/U".toList, 'x'), ("a/m/U".toList, 'y')]

/-- The smaller of the two names stands behind both aliases, whichever is entered first, and the
alias that a name at the top level is spelled like goes. -/
theorem tiedNames_maps_suffixes :
    (aliasTable tiedNames).get? "m/U".toList = some 'y' ∧
    aliasTable (.ofList [("a/m/U".toList, 'y'), ("b/m/U".toList, 'x')]) = aliasTable tiedNames ∧
    (aliasTable (tiedNames.insert ['U'] 'z')).get? ['U'] = none ∧
    (aliasTable (tiedNames.insert ['U'] 'z')).get? "m/U".toList = some 'y' := by
  obtain ⟨-, -, hcongr, htop⟩ := aliasTable_maps_suffixes tiedNames
  have hdeep : (aliasTable tiedNames).get? "m/U".toList = some 'y' := by decide
  refine ⟨hdeep, hcongr _ fun name => ?_, ?_, ?_⟩
  · simp only [tiedNames, Table.ofList, List.foldl_cons, List.foldl_nil, Table.get?_insert]
    split_ifs with hfirst hsecond
    · rw [← hfirst] at hsecond
      exact absurd hsecond (by decide)
    · rfl
    · rfl
    · rfl
  · rw [htop ['U'] 'z' ['U'] (by decide), if_pos rfl]
  · rw [htop ['U'] 'z' "m/U".toList (by decide), if_neg (by decide), hdeep]

end SolidityBundler
