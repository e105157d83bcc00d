/-
Finite maps that remember the order of insertion.

A key occurs once.  Inserting under a key that is already present replaces the value and
keeps the key's place, so the order of a table is the order in which its keys first came.
The view of a table is `get?`; each operation says what it does to that view.
-/
namespace SolidityBundler

/-- Entries with distinct keys, oldest first. -/
structure Table (κ α : Type) where
  entries : List (κ × α)
  distinct : (entries.map Prod.fst).Nodup := by simp

namespace Table

variable {κ α β : Type}

instance : Inhabited (Table κ α) := ⟨{ entries := [] }⟩

def empty : Table κ α := { entries := [] }

def keys (t : Table κ α) : List κ := t.entries.map Prod.fst

def values (t : Table κ α) : List α := t.entries.map Prod.snd

def size (t : Table κ α) : Nat := t.entries.length

section Lookup

variable [DecidableEq κ]

/-- The value that a list of pairs holds first under a key. -/
def find? : List (κ × α) → κ → Option α
  | [], _ => none
  | (k', a) :: rest, k => if k' = k then some a else find? rest k

def get? (t : Table κ α) (k : κ) : Option α := find? t.entries k

def contains (t : Table κ α) (k : κ) : Bool := (t.get? k).isSome

/-- Replaces the value under a key, or appends the pair. -/
def put : List (κ × α) → κ → α → List (κ × α)
  | [], k, a => [(k, a)]
  | (k', b) :: rest, k, a => if k' = k then (k, a) :: rest else (k', b) :: put rest k a

theorem mem_map_fst_put {entries : List (κ × α)} {k x : κ} {a : α} :
    x ∈ (put entries k a).map Prod.fst ↔ x = k ∨ x ∈ entries.map Prod.fst := by
  induction entries with
  | nil => simp [put]
  | cons e rest ih =>
      obtain ⟨k', b⟩ := e
      simp only [put]
      split
      · next h => subst h; simp
      · simp only [List.map_cons, List.mem_cons, ih]
        grind

theorem nodup_put {entries : List (κ × α)} (h : (entries.map Prod.fst).Nodup) (k : κ) (a : α) :
    ((put entries k a).map Prod.fst).Nodup := by
  induction entries with
  | nil => simp [put]
  | cons e rest ih =>
      obtain ⟨k', b⟩ := e
      simp only [List.map_cons, List.nodup_cons] at h
      simp only [put]
      split
      · next heq => subst heq; simpa using h
      · next hne =>
          simp only [List.map_cons, List.nodup_cons, mem_map_fst_put]
          exact ⟨fun hmem => hmem.elim hne h.1, ih h.2⟩

/-- The table with `a` under `k`; a new key goes to the end. -/
def insert (t : Table κ α) (k : κ) (a : α) : Table κ α where
  entries := put t.entries k a
  distinct := nodup_put t.distinct k a

/-- The table with `a` under `k` only if the key was free. -/
def insertNew (t : Table κ α) (k : κ) (a : α) : Table κ α :=
  if t.contains k then t else t.insert k a

/-- The table with the pairs of another one under the keys that were free. -/
def insertAllNew (t other : Table κ α) : Table κ α :=
  other.entries.foldl (fun t (k, a) => t.insertNew k a) t

/-- The pairs entered one after the other. -/
def ofList (pairs : List (κ × α)) : Table κ α :=
  pairs.foldl (fun t (k, a) => t.insert k a) empty

theorem find?_put (entries : List (κ × α)) (k x : κ) (a : α) :
    find? (put entries k a) x = if k = x then some a else find? entries x := by
  induction entries with
  | nil => simp [put, find?]
  | cons e rest ih =>
      obtain ⟨k', b⟩ := e
      simp only [put]
      split
      · next h => subst h; by_cases hx : k' = x <;> simp [find?, hx]
      · next h =>
          by_cases hx : k' = x
          · subst hx; simp [find?, Ne.symm h]
          · simp [find?, hx, ih]

@[simp] theorem get?_insert (t : Table κ α) (k x : κ) (a : α) :
    (t.insert k a).get? x = if k = x then some a else t.get? x :=
  find?_put t.entries k x a

@[simp] theorem get?_empty (k : κ) : (empty : Table κ α).get? k = none := rfl

theorem mem_of_find? {entries : List (κ × α)} {k : κ} {a : α} (h : find? entries k = some a) :
    (k, a) ∈ entries := by
  induction entries with
  | nil => simp [find?] at h
  | cons e rest ih =>
      obtain ⟨k', b⟩ := e
      simp only [find?] at h
      split at h
      · next heq => subst heq; simp_all
      · exact List.mem_cons_of_mem _ (ih h)

theorem mem_values_of_get? {t : Table κ α} {k : κ} {a : α} (h : t.get? k = some a) :
    a ∈ t.values :=
  List.mem_map.2 ⟨(k, a), mem_of_find? h, rfl⟩

end Lookup

/-- The entries that satisfy `p`. -/
def filter (p : κ → α → Bool) (t : Table κ α) : Table κ α where
  entries := t.entries.filter fun (k, a) => p k a
  distinct := t.distinct.sublist (List.filter_sublist.map _)

/-- The same keys with new values. -/
def mapValues (f : κ → α → β) (t : Table κ α) : Table κ β where
  entries := t.entries.map fun (k, a) => (k, f k a)
  distinct := by simpa [List.map_map, Function.comp_def] using t.distinct

end Table

end SolidityBundler
