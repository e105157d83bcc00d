/-
Who owns a suffix.

Names claim their suffixes in turn, and a suffix that is taken stays with the one who took it.
So a suffix belongs to the first name, in the order of claims, that ends in it, unless a name
of the library is spelled the same.  This makes the table of aliases a matter of the set of
names alone: who else is in the library counts only where it comes first.

The order of claims tells any two names apart, so there is one first name among those that
end in a suffix; `owner?` finds it by search, and the table by letting the sorted names claim
one after the other.
-/
import SolidityBundler.Index.Basic
import SolidityBundler.Proofs.Sorting
import SolidityBundler.Proofs.Table

namespace SolidityBundler

/-! ### Searching an ordered list -/

section

variable {α : Type} {before : α → α → Bool}

private theorem pairwise_insertBy (htrans : ∀ x y z, before x y = true → before y z = true →
    before x z = true) {x : α} {ys : List α} (h : ys.Pairwise fun a b => before a b = true) :
    (insertBy before x ys).Pairwise fun a b => before a b = true := by
  induction ys with
  | nil => exact List.pairwise_singleton _ _
  | cons y ys ih =>
      obtain ⟨hfirst, hrest⟩ := List.pairwise_cons.1 h
      rw [insertBy]
      by_cases hxy : before x y = true
      · rw [if_pos hxy]
        refine List.Pairwise.cons ?_ h
        intro z hz
        rcases List.mem_cons.1 hz with rfl | hz
        · exact hxy
        · exact htrans x y z hxy (hfirst z hz)
      · rw [if_neg hxy]
        by_cases hyx : before y x = true
        · rw [if_pos hyx]
          refine List.Pairwise.cons ?_ (ih hrest)
          intro z hz
          rcases eq_or_mem_of_mem_insertBy hz with rfl | hz
          · exact hyx
          · exact hfirst z hz
        · rw [if_neg hyx]
          exact h

theorem pairwise_sortBy (htrans : ∀ x y z, before x y = true → before y z = true →
    before x z = true) (xs : List α) :
    (sortBy before xs).Pairwise fun a b => before a b = true := by
  induction xs with
  | nil => exact List.Pairwise.nil
  | cons x xs ih => exact pairwise_insertBy htrans ih

/-- In an ordered list the first item that satisfies `p` comes before all others that do. -/
private theorem find?_eq_some_iff_of_pairwise
    (hasymm : ∀ x y, before x y = true → before y x = false)
    {xs : List α} (h : xs.Pairwise fun a b => before a b = true) (p : α → Bool) (x : α) :
    xs.find? p = some x ↔
      x ∈ xs ∧ p x = true ∧ ∀ y ∈ xs, p y = true → y = x ∨ before x y = true := by
  induction xs with
  | nil => simp
  | cons a rest ih =>
      obtain ⟨hfirst, hrest⟩ := List.pairwise_cons.1 h
      by_cases ha : p a = true
      · rw [List.find?_cons_of_pos ha, Option.some.injEq]
        constructor
        · rintro rfl
          refine ⟨List.mem_cons_self, ha, ?_⟩
          intro y hy _
          exact (List.mem_cons.1 hy).imp id (hfirst y)
        · rintro ⟨hx, -, hleast⟩
          rcases hleast a List.mem_cons_self ha with heq | hbefore
          · exact heq
          · rcases List.mem_cons.1 hx with rfl | hx
            · rfl
            · rw [hasymm a x (hfirst x hx)] at hbefore
              simp at hbefore
      · rw [List.find?_cons_of_neg ha, ih hrest]
        constructor
        · rintro ⟨hx, hpx, hleast⟩
          refine ⟨List.mem_cons_of_mem _ hx, hpx, ?_⟩
          intro y hy hpy
          rcases List.mem_cons.1 hy with rfl | hy
          · exact absurd hpy ha
          · exact hleast y hy hpy
        · rintro ⟨hx, hpx, hleast⟩
          rcases List.mem_cons.1 hx with rfl | hx
          · exact absurd hpx ha
          · exact ⟨hx, hpx, fun y hy => hleast y (List.mem_cons_of_mem _ hy)⟩

end

/-! ### The order of claims -/

theorem claimsBefore_iff {a b : Text} : claimsBefore a b = true ↔
    SlashPath.depth b < SlashPath.depth a ∨
      SlashPath.depth a = SlashPath.depth b ∧ a < b := by
  simp [claimsBefore]

theorem claimsBefore_trans (a b c : Text) (hab : claimsBefore a b = true)
    (hbc : claimsBefore b c = true) : claimsBefore a c = true := by
  rw [claimsBefore_iff] at hab hbc ⊢
  rcases hab with hab | ⟨hab, hlt⟩ <;> rcases hbc with hbc | ⟨hbc, hlt'⟩
  · exact Or.inl (Nat.lt_trans hbc hab)
  · exact Or.inl (by omega)
  · exact Or.inl (by omega)
  · exact Or.inr ⟨hab.trans hbc, List.lt_trans hlt hlt'⟩

theorem claimsBefore_asymm (a b : Text) (h : claimsBefore a b = true) :
    claimsBefore b a = false := by
  rw [Bool.eq_false_iff]
  intro h'
  rw [claimsBefore_iff] at h h'
  rcases h with h | ⟨heq, hlt⟩ <;> rcases h' with h' | ⟨heq', hlt'⟩
  · omega
  · omega
  · omega
  · exact List.lt_asymm hlt hlt'

private theorem eq_of_not_claimsBefore (a b : Text) (hab : claimsBefore a b = false)
    (hba : claimsBefore b a = false) : a = b := by
  rw [Bool.eq_false_iff, ne_eq, claimsBefore_iff, not_or, not_and] at hab hba
  have hdepth : SlashPath.depth a = SlashPath.depth b := by omega
  exact List.le_antisymm (List.not_lt.1 (hba.2 hdepth.symm)) (List.not_lt.1 (hab.2 hdepth))

theorem mem_claimOrder {name : Text} {names : List Text} :
    name ∈ claimOrder names ↔ name ∈ names :=
  mem_sortBy eq_of_not_claimsBefore

/-- `owner` is one of the names and claims before all others. -/
def IsFirst (names : List Text) (owner : Text) : Prop :=
  owner ∈ names ∧ ∀ other ∈ names, other = owner ∨ claimsBefore owner other = true

theorem IsFirst.unique {names : List Text} {owner owner' : Text} (h : IsFirst names owner)
    (h' : IsFirst names owner') : owner = owner' := by
  rcases h.2 owner' h'.1 with heq | hbefore
  · exact heq.symm
  · rcases h'.2 owner h.1 with heq | hbefore'
    · exact heq
    · rw [claimsBefore_asymm owner owner' hbefore] at hbefore'
      simp at hbefore'

theorem IsFirst.cons {names : List Text} {first : Text} (h : IsFirst names first) (name : Text) :
    IsFirst (name :: names) (if claimsBefore first name = true then first else name) := by
  by_cases hbefore : claimsBefore first name = true
  · rw [if_pos hbefore]
    refine ⟨List.mem_cons_of_mem _ h.1, ?_⟩
    intro other hother
    rcases List.mem_cons.1 hother with rfl | hother
    · exact Or.inr hbefore
    · exact h.2 other hother
  · rw [if_neg hbefore]
    refine ⟨List.mem_cons_self, ?_⟩
    intro other hother
    rcases List.mem_cons.1 hother with rfl | hother
    · exact Or.inl rfl
    · by_cases hname : claimsBefore name first = true
      · rcases h.2 other hother with rfl | hfirst
        · exact Or.inr hname
        · exact Or.inr (claimsBefore_trans name first other hname hfirst)
      · have heq := eq_of_not_claimsBefore first name (by simpa using hbefore)
          (by simpa using hname)
        rw [← heq]
        exact h.2 other hother

theorem isFirst_firstClaimant? (name : Text) (names : List Text) :
    ∃ first, firstClaimant? (name :: names) = some first ∧ IsFirst (name :: names) first := by
  induction names generalizing name with
  | nil => exact ⟨name, rfl, by simp [IsFirst]⟩
  | cons next rest ih =>
      obtain ⟨first, hfirst, hisFirst⟩ := ih next
      refine ⟨_, ?_, hisFirst.cons name⟩
      rw [firstClaimant?, hfirst]
      simp only
      split <;> rfl

theorem firstClaimant?_eq_some_iff {names : List Text} {owner : Text} :
    firstClaimant? names = some owner ↔ IsFirst names owner := by
  cases names with
  | nil => simp [firstClaimant?, IsFirst]
  | cons name rest =>
      obtain ⟨first, hfirst, hisFirst⟩ := isFirst_firstClaimant? name rest
      rw [hfirst, Option.some.injEq]
      constructor
      · rintro rfl
        exact hisFirst
      · exact hisFirst.unique

/-- A suffix belongs to the first name that ends in it, if no name is spelled the same. -/
theorem owner?_eq_some_iff {names : List Text} {suffix owner : Text} :
    owner? names suffix = some owner ↔
      suffix ∉ names ∧ owner ∈ names ∧ suffix ∈ SlashPath.suffixes owner ∧
        ∀ other ∈ names, suffix ∈ SlashPath.suffixes other →
          other = owner ∨ claimsBefore owner other = true := by
  unfold owner?
  by_cases h : suffix ∈ names
  · simp [h]
  · rw [if_neg h, firstClaimant?_eq_some_iff, IsFirst]
    simp only [List.mem_filter, List.contains_iff_mem, and_imp]
    constructor
    · rintro ⟨⟨hmem, hsuffix⟩, hleast⟩
      exact ⟨h, hmem, hsuffix, hleast⟩
    · rintro ⟨-, hmem, hsuffix, hleast⟩
      exact ⟨⟨hmem, hsuffix⟩, hleast⟩

/-- A suffix that no name is spelled like has an owner as soon as some name ends in it. -/
theorem exists_owner? {names : List Text} {suffix name : Text} (hfree : suffix ∉ names)
    (hname : name ∈ names) (hsuffix : suffix ∈ SlashPath.suffixes name) :
    ∃ owner, owner? names suffix = some owner := by
  unfold owner?
  rw [if_neg hfree]
  cases hfilter : names.filter fun name => (SlashPath.suffixes name).contains suffix with
  | nil =>
      rw [List.filter_eq_nil_iff] at hfilter
      exact absurd (by simpa using hsuffix) (hfilter name hname)
  | cons first rest =>
      obtain ⟨owner, howner, -⟩ := isFirst_firstClaimant? first rest
      exact ⟨owner, howner⟩

/-! ### The table of aliases -/

section

variable {α : Type}

theorem Table.get?_insertNew {κ : Type} [DecidableEq κ] (t : Table κ α) (k x : κ) (a : α) :
    (t.insertNew k a).get? x = if k = x then (t.get? x).or (some a) else t.get? x := by
  unfold insertNew contains
  by_cases hk : k = x
  · subst hk
    cases h : t.get? k <;> simp [h]
  · cases h : t.get? k <;> simp [hk]

private theorem get?_claimSuffixes (reserved : List Text) (name : Text) (target : α)
    (aliases : Table Text α) (suffix : Text) :
    (claimSuffixes reserved name target aliases).get? suffix
      = if suffix ∈ SlashPath.suffixes name ∧ suffix ∉ reserved then
          (aliases.get? suffix).or (some target)
        else aliases.get? suffix := by
  unfold claimSuffixes
  induction SlashPath.suffixes name generalizing aliases with
  | nil => simp
  | cons first rest ih =>
      have hstep : (if reserved.contains first then aliases
            else aliases.insertNew first target).get? suffix
          = if first = suffix ∧ first ∉ reserved then (aliases.get? suffix).or (some target)
            else aliases.get? suffix := by
        by_cases hreserved : first ∈ reserved
        · simp [hreserved]
        · rw [if_neg (by simpa using hreserved), Table.get?_insertNew]
          simp [hreserved]
      rw [List.foldl_cons, ih, hstep]
      by_cases heq : first = suffix
      · subst heq
        by_cases hreserved : first ∈ reserved <;> simp [hreserved]
      · simp [heq, Ne.symm heq]

/-- Names that claim in a row: a suffix goes to the first of them that ends in it. -/
private theorem get?_foldl_claimSuffixes (library : Table Text α)
    {claim : Table Text α → Text → Table Text α}
    (hclaim : ∀ aliases name target, library.get? name = some target →
      claim aliases name = claimSuffixes library.keys name target aliases)
    {names : List Text} (hnames : ∀ name ∈ names, name ∈ library.keys) (aliases : Table Text α)
    (suffix : Text) :
    (names.foldl claim aliases).get? suffix
      = if suffix ∈ library.keys then aliases.get? suffix
        else (aliases.get? suffix).or
          ((names.find? fun name => (SlashPath.suffixes name).contains suffix).bind
            library.get?) := by
  induction names generalizing aliases with
  | nil => simp
  | cons name rest ih =>
      rw [List.forall_mem_cons] at hnames
      obtain ⟨target, htarget⟩ := Table.mem_keys_iff.1 hnames.1
      rw [List.foldl_cons, ih hnames.2, hclaim aliases name target htarget, get?_claimSuffixes]
      by_cases hkey : suffix ∈ library.keys
      · simp [hkey]
      · by_cases hsuffix : suffix ∈ SlashPath.suffixes name
        · rw [List.find?_cons_of_pos (by simpa using hsuffix)]
          cases h : aliases.get? suffix <;> simp [hkey, hsuffix, htarget]
        · rw [List.find?_cons_of_neg (by simpa using hsuffix)]
          simp [hkey, hsuffix]

/-- **A suffix is an alias for what the library holds under the name that owns it.** -/
theorem get?_aliasTable (library : Table Text α) (suffix : Text) :
    (aliasTable library).get? suffix = (owner? library.keys suffix).bind library.get? := by
  have hsorted := pairwise_sortBy claimsBefore_trans library.keys
  have hfirst : ∀ owner, (claimOrder library.keys).find?
      (fun name => (SlashPath.suffixes name).contains suffix) = some owner ↔
      owner ∈ library.keys ∧ suffix ∈ SlashPath.suffixes owner ∧
        ∀ other ∈ library.keys, suffix ∈ SlashPath.suffixes other →
          other = owner ∨ claimsBefore owner other = true := by
    intro owner
    rw [claimOrder, find?_eq_some_iff_of_pairwise claimsBefore_asymm hsorted, ← claimOrder]
    simp only [mem_claimOrder, List.contains_iff_mem]
  have hsame : (if suffix ∈ library.keys then none else (claimOrder library.keys).find?
      fun name => (SlashPath.suffixes name).contains suffix) = owner? library.keys suffix := by
    refine Option.ext fun owner => ?_
    rw [owner?_eq_some_iff]
    by_cases hkey : suffix ∈ library.keys
    · simp [hkey]
    · rw [if_neg hkey, hfirst]
      simp [hkey]
  rw [aliasTable, get?_foldl_claimSuffixes library (fun aliases name target h => by
    simp only [h]) (fun name => mem_claimOrder.1), ← hsame]
  by_cases hkey : suffix ∈ library.keys
  · simp [hkey]
  · simp [hkey]

end

/-- An alias leads to the name that owns it. -/
theorem UnitIndex.get?_namedAliases {α : Type} (library : Table Text α) (suffix : Text) :
    (namedAliases library).get? suffix = owner? library.keys suffix := by
  have hkeys : (library.mapValues fun name _ => name).keys = library.keys := by
    simp [Table.keys, Table.mapValues, Function.comp_def]
  rw [namedAliases, get?_aliasTable, hkeys]
  cases howner : owner? library.keys suffix with
  | none => rfl
  | some owner =>
      obtain ⟨a, hget⟩ := Table.mem_keys_iff.1 (owner?_eq_some_iff.1 howner).2.1
      rw [Option.bind_some, Table.get?_mapValues, hget]
      rfl

end SolidityBundler
