/-
Runs that can fail.

A run in several steps that succeeds has run each of its steps, and each of them has succeeded.
So a success is taken apart step by step, and a run over a list element by element.
-/
import Mathlib.Data.List.Forall2

namespace SolidityBundler

variable {ε ε' α β : Type}

/-- A run in two steps that succeeds has run both. -/
theorem exists_of_bind_eq_ok {first : Except ε α} {next : α → Except ε β} {b : β}
    (h : first >>= next = .ok b) : ∃ a, first = .ok a ∧ next a = .ok b := by
  cases first with
  | error e => cases h
  | ok a => exact ⟨a, rfl, h⟩

theorem mapError_eq_ok_iff {result : Except ε α} {f : ε → ε'} {a : α} :
    result.mapError f = .ok a ↔ result = .ok a := by
  cases result with
  | error e => exact ⟨fun h => (nomatch h), fun h => (nomatch h)⟩
  | ok b => exact ⟨fun h => congrArg _ (Except.ok.inj h), fun h => congrArg _ (Except.ok.inj h)⟩

/-! ### Lists -/

variable {f : α → Except ε β} {l : List α} {results : List β}

private theorem exists_of_mapM_cons {a : α} {rest : List α} (h : (a :: rest).mapM f = .ok results) :
    ∃ b bs, f a = .ok b ∧ rest.mapM f = .ok bs ∧ results = b :: bs := by
  rw [List.mapM_cons] at h
  obtain ⟨b, hfirst, h⟩ := exists_of_bind_eq_ok h
  obtain ⟨bs, hrest, h⟩ := exists_of_bind_eq_ok h
  exact ⟨b, bs, hfirst, hrest, (Except.ok.inj h).symm⟩

/-- A list of runs succeeds with one result for each of them. -/
theorem mapM_eq_ok_iff :
    l.mapM f = .ok results ↔ List.Forall₂ (fun a b => f a = .ok b) l results := by
  constructor
  · intro h
    induction l generalizing results with
    | nil =>
        obtain rfl := Except.ok.inj h
        exact .nil
    | cons a rest ih =>
        obtain ⟨b, bs, hfirst, hrest, rfl⟩ := exists_of_mapM_cons h
        exact .cons hfirst (ih hrest)
  · intro h
    induction h with
    | nil => rfl
    | cons hfirst _ ih =>
        rw [List.mapM_cons, hfirst, ih]
        rfl

/-- Each element has its result. -/
theorem of_mapM (h : l.mapM f = .ok results) :
    results.length = l.length ∧ ∀ a ∈ l, ∃ b ∈ results, f a = .ok b := by
  replace h := mapM_eq_ok_iff.1 h
  refine ⟨h.length_eq.symm, ?_⟩
  induction h with
  | nil => simp
  | @cons a b rest bs hfirst _ ih =>
      intro a' hmem
      rcases List.mem_cons.1 hmem with rfl | hmem
      · exact ⟨b, List.mem_cons_self, hfirst⟩
      · obtain ⟨b', hb', heq⟩ := ih a' hmem
        exact ⟨b', List.mem_cons_of_mem _ hb', heq⟩

/-- Each result is that of an element. -/
theorem exists_mem_of_mapM (h : l.mapM f = .ok results) :
    ∀ b ∈ results, ∃ a ∈ l, f a = .ok b := by
  replace h := mapM_eq_ok_iff.1 h
  induction h with
  | nil => simp
  | @cons a b rest bs hfirst _ ih =>
      intro b' hb
      rcases List.mem_cons.1 hb with rfl | hb
      · exact ⟨a, List.mem_cons_self, hfirst⟩
      · obtain ⟨a', hmem, heq⟩ := ih b' hb
        exact ⟨a', List.mem_cons_of_mem _ hmem, heq⟩

theorem exists_mapM_iff :
    (∃ results, l.mapM f = .ok results) ↔ ∀ a ∈ l, ∃ b, f a = .ok b := by
  constructor
  · intro ⟨results, h⟩ a ha
    obtain ⟨b, -, hb⟩ := (of_mapM h).2 a ha
    exact ⟨b, hb⟩
  · intro h
    induction l with
    | nil => exact ⟨[], rfl⟩
    | cons a rest ih =>
        rw [List.forall_mem_cons] at h
        obtain ⟨b, hfirst⟩ := h.1
        obtain ⟨bs, hrest⟩ := ih h.2
        exact ⟨b :: bs, mapM_eq_ok_iff.2 (.cons hfirst (mapM_eq_ok_iff.1 hrest))⟩

end SolidityBundler
