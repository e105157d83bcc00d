/-
The tiers of an index as one table.

`merged` enters the library, then what the aliases stand for, then the project, each over what is
there.  So it answers with the project unit of a name, or else with the unit that an alias of that
name leads to, or else with the library unit.  Looking a name up asks the tiers in the same order,
and the two agree as soon as no alias is dangling: the lookup stops at an alias, the table would go
on to the library.  The check at construction is there for this.

A name is known to one of the tiers exactly if the table holds it, so the list of all names, the
tiers of a name and the lookup tell of the same names.  What is shadowed is read off the tiers of
each name, in the order of names.

Over texts an alias never has the name of a library unit.  A name is then known to two tiers at
most, and if it is known to two, the project is one of them.
-/
import SolidityBundler.Proofs.Index.Lookup

namespace SolidityBundler

theorem Table.get?_insertAll_eq_or {κ α : Type} [DecidableEq κ] (t : Table κ α)
    (pairs : List (κ × α)) (k : κ) :
    (t.insertAll pairs).get? k = ((ofList pairs).get? k).or (t.get? k) := by
  rw [get?_insertAll, get?_ofList]

private theorem pairwise_sortedDistinct (xs : List Text) :
    (sortedDistinct xs).Pairwise (· < ·) := by
  have htrans : ∀ x y z : Text, decide (x < y) = true → decide (y < z) = true →
      decide (x < z) = true := by
    intro x y z hxy hyz
    exact decide_eq_true (List.lt_trans (of_decide_eq_true hxy) (of_decide_eq_true hyz))
  exact (pairwise_sortBy htrans xs).imp of_decide_eq_true

namespace UnitIndex

variable {index : UnitIndex} {name : Text}

/-! ### Construction -/

/-- Every alias leads to a unit of the library. -/
def Closed (index : UnitIndex) : Prop :=
  ∀ name target, index.aliases.get? name = some target →
    ∃ unit, index.library.get? target = some unit

theorem dangling?_eq_none_iff {library : Table Text SourceUnit} {aliases : Table Text Text} :
    dangling? library aliases = none ↔ ∀ name target, aliases.get? name = some target →
      ∃ unit, library.get? target = some unit := by
  rw [dangling?, Option.map_eq_none_iff, List.find?_eq_none]
  constructor
  · intro h name target htarget
    have hcontains := h (name, target) (Table.mem_of_find? htarget)
    exact Option.ne_none_iff_exists'.1 (by simpa [Table.contains] using hcontains)
  · intro h entry hentry
    obtain ⟨unit, hunit⟩ := h entry.1 entry.2 (Table.find?_of_mem aliases.distinct hentry)
    simp [Table.contains, hunit]

/-- An index comes about exactly if no alias is dangling. -/
theorem ofTiers_eq_ok_iff {project library : Table Text SourceUnit} {aliases : Table Text Text} :
    ofTiers project library aliases = .ok index ↔
      index = { project, library, aliases } ∧ index.Closed := by
  unfold ofTiers
  cases hdangling : dangling? library aliases with
  | some dangling =>
      refine iff_of_false (fun h => nomatch h) ?_
      intro ⟨heq, hclosed⟩
      rw [heq] at hclosed
      rw [dangling?_eq_none_iff.2 hclosed] at hdangling
      cases hdangling
  | none =>
      constructor
      · intro h
        rw [← Except.ok.inj h]
        exact ⟨rfl, dangling?_eq_none_iff.1 hdangling⟩
      · intro ⟨heq, _⟩
        rw [heq]

/-! ### One table -/

/-- The table holds a project unit, or what an alias leads to, or a library unit. -/
theorem get?_merged (index : UnitIndex) (name : Text) :
    index.merged.get? name = (index.project.get? name).or
      (((index.aliases.get? name).bind index.library.get?).or (index.library.get? name)) := by
  show (((Table.empty.insertAll index.library.entries).insertAll
    (Table.valued index.library.get? index.aliases.entries)).insertAll
      index.project.entries).get? name = _
  rw [Table.get?_insertAll_eq_or, Table.get?_insertAll_eq_or, Table.get?_insertAll_eq_or,
    Table.ofList_entries, Table.ofList_entries, Table.get?_ofList_valued, Table.get?_empty,
    Option.or_none]

/-- Looking a name up finds what the table holds. -/
theorem Closed.lookup?_eq (h : index.Closed) (name : Text) :
    index.lookup? name = index.merged.get? name := by
  rw [get?_merged, lookup?_eq_or]
  cases htarget : index.aliases.get? name with
  | some target =>
      obtain ⟨unit, hunit⟩ := h name target htarget
      simp [hunit]
  | none => simp

/-! ### The tiers of a name -/

theorem mem_tiersOf {tier : Tier} : tier ∈ index.tiersOf name ↔ index.provides name tier := by
  have horder : tier ∈ Tier.order := by
    cases tier <;> decide
  simp [tiersOf, horder]

theorem mem_names_iff : name ∈ index.names ↔ ∃ tier, index.provides name tier := by
  have hkeys : ∀ {α : Type} (t : Table Text α), name ∈ t.keys ↔ t.contains name := by
    intro α t
    rw [Table.mem_keys_iff, Table.contains, Option.isSome_iff_exists]
  rw [names, mem_sortedDistinct, List.mem_append, List.mem_append, hkeys, hkeys, hkeys]
  constructor
  · intro h
    rcases h with (hproject | haliases) | hlibrary
    · exact ⟨.project, hproject⟩
    · exact ⟨.aliased, haliases⟩
    · exact ⟨.library, hlibrary⟩
  · intro h
    obtain ⟨tier, htier⟩ := h
    cases tier with
    | project => exact Or.inl (Or.inl htier)
    | aliased => exact Or.inl (Or.inr htier)
    | library => exact Or.inr htier

theorem tiersOf_ne_nil_iff : index.tiersOf name ≠ [] ↔ name ∈ index.names := by
  rw [mem_names_iff]
  constructor
  · intro h
    obtain ⟨tier, htier⟩ := List.exists_mem_of_ne_nil _ h
    exact ⟨tier, mem_tiersOf.1 htier⟩
  · intro h
    obtain ⟨tier, htier⟩ := h
    exact List.ne_nil_of_mem (mem_tiersOf.2 htier)

/-- The tier that serves a name is the first of those that know it. -/
theorem Closed.tier_lookupWithTier? (h : index.Closed) (name : Text) :
    (index.lookupWithTier? name).map Prod.snd = (index.tiersOf name).head? := by
  rw [lookupWithTier?, tiersOf, Tier.order]
  cases hproject : index.project.get? name with
  | some unit => simp [provides, Table.contains, hproject]
  | none =>
      cases htarget : index.aliases.get? name with
      | some target =>
          obtain ⟨unit, hunit⟩ := h name target htarget
          simp [provides, Table.contains, hproject, htarget, hunit]
      | none =>
          cases hlibrary : index.library.get? name with
          | some unit => simp [provides, Table.contains, hproject, htarget, hlibrary]
          | none => simp [provides, Table.contains, hproject, htarget, hlibrary]

theorem Closed.mem_keys_merged (h : index.Closed) :
    name ∈ index.merged.keys ↔ index.tiersOf name ≠ [] := by
  have htier := h.tier_lookupWithTier? name
  have hlookup := h.lookup?_eq name
  rw [lookup?] at hlookup
  rw [Table.mem_keys_iff, ← hlookup]
  cases hfound : index.lookupWithTier? name with
  | some found =>
      rw [hfound] at htier
      refine iff_of_true ⟨found.1, rfl⟩ ?_
      intro hnil
      rw [hnil] at htier
      cases htier
  | none =>
      rw [hfound] at htier
      rw [← List.head?_eq_none_iff.1 htier.symm]
      simp

/-! ### What is shadowed -/

theorem mem_collisionsOf {c : Collision} : c ∈ index.collisionsOf name ↔
    c.name = name ∧ ∃ later, index.tiersOf name = c.winner :: later ∧ c.shadowed ∈ later := by
  unfold collisionsOf
  cases htiers : index.tiersOf name with
  | nil => simp
  | cons winner later =>
      constructor
      · intro h
        obtain ⟨shadowed, hshadowed, rfl⟩ := List.mem_map.1 h
        exact ⟨rfl, later, rfl, hshadowed⟩
      · intro ⟨hname, others, htiers', hshadowed⟩
        obtain ⟨rfl, rfl⟩ := List.cons.inj htiers'
        exact List.mem_map.2 ⟨c.shadowed, hshadowed, by rw [← hname]⟩

/-- What is listed as shadowed are the tiers behind the first one of each name. -/
theorem mem_collisions {c : Collision} : c ∈ index.collisions ↔
    ∃ later, index.tiersOf c.name = c.winner :: later ∧ c.shadowed ∈ later := by
  rw [collisions, List.mem_flatMap]
  constructor
  · intro ⟨name, _, hc⟩
    obtain ⟨rfl, hlater⟩ := mem_collisionsOf.1 hc
    exact hlater
  · intro hlater
    refine ⟨c.name, ?_, mem_collisionsOf.2 ⟨rfl, hlater⟩⟩
    obtain ⟨later, htiers, _⟩ := hlater
    rw [← tiersOf_ne_nil_iff, htiers]
    exact List.cons_ne_nil _ _

end UnitIndex

/-- The smaller name comes first, and of one name the tier that is asked first. -/
def Collision.Before (c d : Collision) : Prop :=
  c.name < d.name ∨ c.name = d.name ∧ [c.shadowed, d.shadowed].Sublist Tier.order

namespace UnitIndex

variable {index : UnitIndex} {name : Text}

private theorem pairwise_collisionsOf (index : UnitIndex) (name : Text) :
    (index.collisionsOf name).Pairwise Collision.Before := by
  unfold collisionsOf
  cases htiers : index.tiersOf name with
  | nil => exact List.Pairwise.nil
  | cons winner later =>
      have hsub : later.Sublist Tier.order := by
        have hall : (winner :: later).Sublist Tier.order := htiers ▸ List.filter_sublist
        exact (List.sublist_cons_self winner later).trans hall
      refine List.pairwise_map.2 (List.pairwise_iff_forall_sublist.2 ?_)
      intro shadowed other hpair
      exact Or.inr ⟨rfl, hpair.trans hsub⟩

theorem pairwise_collisions (index : UnitIndex) : index.collisions.Pairwise Collision.Before := by
  refine List.pairwise_flatMap.2 ⟨fun name _ => index.pairwise_collisionsOf name, ?_⟩
  refine (pairwise_sortedDistinct _).imp ?_
  intro name other hlt c hc d hd
  rw [← (mem_collisionsOf.1 hc).1, ← (mem_collisionsOf.1 hd).1] at hlt
  exact Or.inl hlt

/-! ### Indexes over texts -/

theorem closed_overTexts (project library : Table Text Text) :
    (overTexts project library).Closed :=
  (ofTiers_eq_ok_iff.1 (ofTexts_eq project library)).2

private theorem not_provides_both (project library : Table Text Text) (name : Text) :
    ¬ ((overTexts project library).provides name .aliased ∧
      (overTexts project library).provides name .library) := by
  intro ⟨halias, hlibrary⟩
  obtain ⟨owner, howner⟩ := Option.isSome_iff_exists.1 halias
  change (namedAliases library).get? name = some owner at howner
  rw [get?_namedAliases, owner?_eq_some_iff] at howner
  refine howner.1 (Table.mem_keys_iff.2 (Option.isSome_iff_exists.1 ?_))
  rw [← Table.contains, ← contains_unitsOf .library]
  exact hlibrary

/-- Behind the first tier of a name there is one more at most, and then the project is first. -/
theorem tiersOf_overTexts {project library : Table Text Text} {winner : Tier} {later : List Tier}
    (h : (overTexts project library).tiersOf name = winner :: later) :
    later = [] ∨ winner = .project ∧ ∃ shadowed, later = [shadowed] := by
  have hboth := not_provides_both project library name
  rw [tiersOf, Tier.order] at h
  by_cases haliased : (overTexts project library).provides name .aliased = true
  · have hlibrary : ¬ (overTexts project library).provides name .library = true :=
      fun hlibrary => hboth ⟨haliased, hlibrary⟩
    grind
  · grind

private theorem winner_of_mem_collisions {project library : Table Text Text} {c : Collision}
    (h : c ∈ (overTexts project library).collisions) : c.winner = .project := by
  obtain ⟨later, htiers, hshadowed⟩ := mem_collisions.1 h
  rcases tiersOf_overTexts htiers with rfl | ⟨hwinner, _⟩
  · cases hshadowed
  · exact hwinner

theorem nodup_names_collisions (project library : Table Text Text) :
    ((overTexts project library).collisions.map Collision.name).Nodup := by
  refine List.pairwise_map.2 ((pairwise_collisions _).imp_of_mem ?_)
  intro c d hc hd hbefore hname
  rcases hbefore with hlt | ⟨_, hpair⟩
  · rw [hname] at hlt
    exact List.lt_irrefl _ hlt
  · -- Both are the one tier behind the first, but that tier is listed once.
    obtain ⟨later, htiers, hc⟩ := mem_collisions.1 hc
    obtain ⟨later', htiers', hd⟩ := mem_collisions.1 hd
    rw [← hname, htiers, List.cons.injEq] at htiers'
    obtain ⟨_, rfl⟩ := htiers'
    rcases tiersOf_overTexts htiers with rfl | ⟨_, shadowed, rfl⟩
    · cases hc
    · rw [List.mem_singleton.1 hc, List.mem_singleton.1 hd] at hpair
      have hnodup : Tier.order.Nodup := by decide
      exact absurd (hpair.nodup hnodup) (by simp)

/-! ### The views of an index -/

/-- What is asked of the tiers in several ways is what the one table answers. -/
structure Refines (index : UnitIndex) : Prop where
  lookup : ∀ name, index.lookup? name = index.merged.get? name
  /-- No lookup ends at an alias without a unit. -/
  aliased : ∀ name target, index.aliases.get? name = some target → (index.lookup? name).isSome
  contains : ∀ name, index.contains name = true ↔ name ∈ index.merged.keys
  names : ∀ name, name ∈ index.names ↔ name ∈ index.merged.keys
  tiers : ∀ name, index.tiersOf name ≠ [] ↔ name ∈ index.merged.keys
  first : ∀ name, (index.lookupWithTier? name).map Prod.snd = (index.tiersOf name).head?
  collisions : ∀ c, c ∈ index.collisions ↔
    ∃ later, index.tiersOf c.name = c.winner :: later ∧ c.shadowed ∈ later
  ordered : index.collisions.Pairwise Collision.Before

theorem Closed.refines (h : index.Closed) : index.Refines where
  lookup := h.lookup?_eq
  aliased := by
    intro name target htarget
    have hprovides : index.provides name .aliased = true := by
      show (index.aliases.get? name).isSome = true
      rw [htarget]
      rfl
    have hmem : index.tiersOf name ≠ [] := List.ne_nil_of_mem (mem_tiersOf.2 hprovides)
    obtain ⟨unit, hunit⟩ := Table.mem_keys_iff.1 (h.mem_keys_merged.2 hmem)
    rw [h.lookup?_eq, hunit]
    rfl
  contains := by
    intro name
    have hsame : index.contains name = (index.lookup? name).isSome := by
      rw [contains, lookup?, Option.isSome_map]
    rw [hsame, h.lookup?_eq, Table.mem_keys_iff, Option.isSome_iff_exists]
  names := fun _ => tiersOf_ne_nil_iff.symm.trans h.mem_keys_merged.symm
  tiers := fun _ => h.mem_keys_merged.symm
  first := h.tier_lookupWithTier?
  collisions := fun _ => mem_collisions
  ordered := index.pairwise_collisions

/-- **An index answers as the one table that its tiers are merged into.**  This holds of all tiers
that make an index.  Texts always make one, and there only the project shadows, a name at most
once. -/
theorem ofTiers_refines_merged :
    (∀ project library aliases index, ofTiers project library aliases = .ok index →
      index = { project, library, aliases } ∧ index.Refines) ∧
    ∀ project library : Table Text Text, ∃ index, ofTexts project library = .ok index ∧
      index.Refines ∧ (∀ c ∈ index.collisions, c.winner = .project) ∧
      (index.collisions.map Collision.name).Nodup := by
  refine ⟨?_, ?_⟩
  · intro project library aliases index h
    obtain ⟨heq, hclosed⟩ := ofTiers_eq_ok_iff.1 h
    exact ⟨heq, hclosed.refines⟩
  · intro project library
    exact ⟨overTexts project library, ofTexts_eq project library,
      (closed_overTexts project library).refines, fun _ => winner_of_mem_collisions,
      nodup_names_collisions project library⟩

/-- A name that all three tiers know. -/
def threeTiers : UnitIndex where
  project := .ofList [(['a'], .ofText .project ['a'] [] none)]
  library := .ofList [(['a'], .ofText .library ['a'] [] none),
    (['b'], .ofText .library ['b'] [] none)]
  aliases := .ofList [(['a'], ['b'])]

/-- The project serves the name and shadows the other two; the library unit behind it is asked for
under a name of its own. -/
theorem threeTiers_refines :
    ofTiers threeTiers.project threeTiers.library threeTiers.aliases = .ok threeTiers ∧
      threeTiers.lookup? ['b'] = threeTiers.merged.get? ['b'] ∧
      (threeTiers.lookup? ['a']).isSome ∧
      { name := ['a'], winner := .project, shadowed := .aliased } ∈ threeTiers.collisions ∧
      { name := ['a'], winner := .project, shadowed := .library } ∈ threeTiers.collisions := by
  have hmade : ofTiers threeTiers.project threeTiers.library threeTiers.aliases
      = .ok threeTiers := rfl
  obtain ⟨-, hrefines⟩ := ofTiers_refines_merged.1 _ _ _ _ hmade
  have htiers : threeTiers.tiersOf ['a'] = [.project, .aliased, .library] := rfl
  refine ⟨hmade, hrefines.lookup _, hrefines.aliased ['a'] ['b'] rfl, ?_, ?_⟩
  · exact (hrefines.collisions _).2 ⟨_, htiers, by decide⟩
  · exact (hrefines.collisions _).2 ⟨_, htiers, by decide⟩

end UnitIndex

end SolidityBundler
