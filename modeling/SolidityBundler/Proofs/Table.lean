/-
What a table holds.

The view of a table is `get?`, and a table keeps each key once.  So an entry of the list
behind a table is what `get?` answers for its key, and the values of a table are the
answers of `get?`.  A table made of pairs answers with the last pair of a key, and pairs with
distinct keys are its entries.
-/
import SolidityBundler.Table

namespace SolidityBundler.Table

variable {κ α β : Type} [DecidableEq κ]

theorem find?_of_mem {entries : List (κ × α)} (hnodup : (entries.map Prod.fst).Nodup)
    {k : κ} {a : α} (h : (k, a) ∈ entries) : find? entries k = some a := by
  induction entries with
  | nil => simp at h
  | cons entry rest ih =>
      obtain ⟨k', b⟩ := entry
      rw [List.map_cons, List.nodup_cons] at hnodup
      rcases List.mem_cons.1 h with heq | hrest
      · simp only [Prod.mk.injEq] at heq
        simp [find?, heq.1, heq.2]
      · have hne : k' ≠ k := by
          rintro rfl
          exact hnodup.1 (List.mem_map.2 ⟨(k', a), hrest, rfl⟩)
        rw [find?, if_neg hne]
        exact ih hnodup.2 hrest

theorem get?_eq_some_iff {t : Table κ α} {k : κ} {a : α} :
    t.get? k = some a ↔ (k, a) ∈ t.entries :=
  ⟨mem_of_find?, find?_of_mem t.distinct⟩

theorem get?_filter (p : κ → α → Bool) (t : Table κ α) (k : κ) :
    (t.filter p).get? k = (t.get? k).filter (p k) := by
  ext a
  rw [get?_eq_some_iff, Option.filter_eq_some_iff, get?_eq_some_iff]
  exact List.mem_filter

/-- A value of a table stands under some key. -/
theorem exists_get?_of_mem_values {t : Table κ α} {a : α} (h : a ∈ t.values) :
    ∃ k, t.get? k = some a := by
  obtain ⟨⟨k, b⟩, hmem, rfl⟩ := List.mem_map.1 h
  exact ⟨k, find?_of_mem t.distinct hmem⟩

/-- The keys of a table are those it answers for. -/
theorem mem_keys_iff {t : Table κ α} {k : κ} : k ∈ t.keys ↔ ∃ a, t.get? k = some a := by
  constructor
  · intro h
    obtain ⟨⟨k', a⟩, hmem, rfl⟩ := List.mem_map.1 h
    exact ⟨a, find?_of_mem t.distinct hmem⟩
  · rintro ⟨a, ha⟩
    exact List.mem_map.2 ⟨(k, a), mem_of_find? ha, rfl⟩

theorem notMem_keys_iff {t : Table κ α} {k : κ} : k ∉ t.keys ↔ t.get? k = none := by
  rw [mem_keys_iff, ← Option.isSome_iff_exists, Bool.not_eq_true, Option.isSome_eq_false_iff,
    Option.isNone_iff_eq_none]

omit [DecidableEq κ] in
theorem entries_ne_nil_of_mem_keys {t : Table κ α} {k : κ} (h : k ∈ t.keys) : t.entries ≠ [] := by
  intro hnil
  rw [keys, hnil] at h
  cases h

/-- All that one table answers another one answers as well. -/
def Within (small full : Table κ α) : Prop :=
  ∀ k a, small.get? k = some a → full.get? k = some a

theorem Within.get?_eq_none {small full : Table κ α} (h : small.Within full) {k : κ}
    (hk : full.get? k = none) : small.get? k = none := by
  cases hsmall : small.get? k with
  | none => rfl
  | some a =>
      rw [h k a hsmall] at hk
      simp at hk

/-- Under its own keys a part of a table answers as the whole. -/
theorem Within.get?_eq {small full : Table κ α} (h : small.Within full) {k : κ}
    (hk : small.contains k = true) : small.get? k = full.get? k := by
  obtain ⟨a, ha⟩ := Option.isSome_iff_exists.1 hk
  rw [ha, h k a ha]

theorem Within.mem_keys {small full : Table κ α} (h : small.Within full) {k : κ}
    (hk : k ∈ small.keys) : k ∈ full.keys := by
  obtain ⟨a, ha⟩ := mem_keys_iff.1 hk
  exact mem_keys_iff.2 ⟨a, h k a ha⟩

theorem get?_mapValues (f : κ → α → β) (t : Table κ α) (k : κ) :
    (t.mapValues f).get? k = (t.get? k).map (f k) := by
  show find? (t.entries.map fun entry => (entry.1, f entry.1 entry.2)) k
    = (find? t.entries k).map (f k)
  induction t.entries with
  | nil => rfl
  | cons entry rest ih =>
      obtain ⟨k', a⟩ := entry
      simp only [List.map_cons, find?]
      by_cases h : k' = k
      · subst h
        simp
      · rw [if_neg h, if_neg h, ih]

/-! ### Tables made of pairs -/

/-- A table with pairs entered into it one after the other. -/
def insertAll (t : Table κ α) (pairs : List (κ × α)) : Table κ α :=
  pairs.foldl (fun t (k, a) => t.insert k a) t

theorem insertAll_cons (t : Table κ α) (k : κ) (a : α) (rest : List (κ × α)) :
    t.insertAll ((k, a) :: rest) = (t.insert k a).insertAll rest := rfl

private theorem ofList_eq_insertAll (pairs : List (κ × α)) :
    ofList pairs = empty.insertAll pairs := rfl

/-- The last of the pairs with a key gives the value. -/
theorem get?_insertAll (t : Table κ α) (pairs : List (κ × α)) (k : κ) :
    (t.insertAll pairs).get? k
      = ((pairs.reverse.find? fun pair => pair.1 = k).map Prod.snd).or (t.get? k) := by
  induction pairs generalizing t with
  | nil => rfl
  | cons pair rest ih =>
      obtain ⟨k', a⟩ := pair
      rw [insertAll_cons, ih, List.reverse_cons, List.find?_append, get?_insert]
      cases rest.reverse.find? fun pair => pair.1 = k with
      | some last => rfl
      | none => by_cases hk : k' = k <;> simp [hk]

theorem get?_ofList (pairs : List (κ × α)) (k : κ) :
    (ofList pairs).get? k = (pairs.reverse.find? fun pair => pair.1 = k).map Prod.snd := by
  rw [ofList_eq_insertAll, get?_insertAll, get?_empty, Option.or_none]

/-- What a table made of pairs answers is one of the pairs. -/
theorem mem_of_get?_ofList {pairs : List (κ × α)} {k : κ} {a : α}
    (h : (ofList pairs).get? k = some a) : (k, a) ∈ pairs := by
  rw [get?_ofList, Option.map_eq_some_iff] at h
  obtain ⟨pair, hpair, rfl⟩ := h
  have hkey : pair.1 = k := by simpa using List.find?_some hpair
  rw [← hkey]
  exact List.mem_reverse.1 (List.mem_of_find?_eq_some hpair)

private theorem put_eq_append {entries : List (κ × α)} {k : κ} (h : k ∉ entries.map Prod.fst)
    (a : α) : put entries k a = entries ++ [(k, a)] := by
  induction entries with
  | nil => rfl
  | cons entry rest ih =>
      obtain ⟨k', b⟩ := entry
      rw [List.map_cons, List.mem_cons, not_or] at h
      rw [put, if_neg (Ne.symm h.1), ih h.2]
      rfl

theorem entries_insertAll {t : Table κ α} {pairs : List (κ × α)}
    (h : ((t.entries ++ pairs).map Prod.fst).Nodup) :
    (t.insertAll pairs).entries = t.entries ++ pairs := by
  induction pairs generalizing t with
  | nil => exact (List.append_nil t.entries).symm
  | cons pair rest ih =>
      obtain ⟨k, a⟩ := pair
      have hnew : k ∉ t.entries.map Prod.fst := by
        intro hk
        rw [List.map_append, List.map_cons, List.nodup_append] at h
        exact h.2.2 k hk k List.mem_cons_self rfl
      have hentries : (t.insert k a).entries = t.entries ++ [(k, a)] := put_eq_append hnew a
      have happend : t.entries ++ (k, a) :: rest = (t.insert k a).entries ++ rest := by
        rw [hentries, List.append_assoc, List.singleton_append]
      rw [happend] at h ⊢
      exact ih h

/-- Pairs with distinct keys are the entries of the table made of them. -/
theorem entries_ofList {pairs : List (κ × α)} (h : (pairs.map Prod.fst).Nodup) :
    (ofList pairs).entries = pairs :=
  entries_insertAll (t := empty) h

theorem ofList_entries (t : Table κ α) : ofList t.entries = t := by
  have hentries := entries_ofList t.distinct
  cases hof : ofList t.entries with
  | mk entries distinct =>
      rw [hof] at hentries
      subst hentries
      rfl

/-! ### Changing values by a partial function -/

/-- The pairs with the values that `f` gives, where it gives one. -/
def valued (f : α → Option β) (entries : List (κ × α)) : List (κ × β) :=
  entries.filterMap fun (k, a) => (f a).map (k, ·)

omit [DecidableEq κ] in
private theorem keys_valued_sublist (f : α → Option β) (entries : List (κ × α)) :
    ((valued f entries).map Prod.fst).Sublist (entries.map Prod.fst) := by
  induction entries with
  | nil => exact List.Sublist.slnil
  | cons entry rest ih =>
      obtain ⟨k, a⟩ := entry
      rw [valued] at ih ⊢
      cases h : f a with
      | none => simpa [h] using ih.cons k
      | some b => simpa [h] using ih.cons_cons k

private theorem find?_valued (f : α → Option β) {entries : List (κ × α)}
    (hnodup : (entries.map Prod.fst).Nodup) (k : κ) :
    find? (valued f entries) k = (find? entries k).bind f := by
  induction entries with
  | nil => rfl
  | cons entry rest ih =>
      obtain ⟨k', a⟩ := entry
      rw [List.map_cons, List.nodup_cons] at hnodup
      have hrest := ih hnodup.2
      by_cases hk : k' = k
      · subst hk
        cases h : f a with
        | some b => simp [valued, find?, h]
        | none =>
            -- The key is dropped, and no later entry has it.
            have hnone : find? (valued f rest) k' = none := by
              refine Option.eq_none_iff_forall_ne_some.2 fun b hb => hnodup.1 ?_
              exact (keys_valued_sublist f rest).subset
                (List.mem_map.2 ⟨(k', b), mem_of_find? hb, rfl⟩)
            simpa [valued, find?, h] using hnone
      · cases h : f a with
        | none => simpa [valued, find?, h, hk] using hrest
        | some b => simpa [valued, find?, h, hk] using hrest

theorem get?_ofList_valued (f : α → Option β) (t : Table κ α) (k : κ) :
    (ofList (valued f t.entries)).get? k = (t.get? k).bind f := by
  rw [get?, entries_ofList (t.distinct.sublist (keys_valued_sublist f t.entries))]
  exact find?_valued f t.distinct k

end SolidityBundler.Table
