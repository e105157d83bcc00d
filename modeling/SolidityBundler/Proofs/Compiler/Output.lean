/-
What is collected from an output of the compiler.

The messages are sorted first, and then each source is looked up among the contracts.  The second
step adds artifacts and warnings and never an error, so whether an output counts as a failure is
settled by its messages.  With no error at hand a source ends as one of two things: its contract
is among the artifacts, or there is a warning that it has none.  Artifacts of different sources do
not meet as long as their names differ.
-/
import SolidityBundler.Compiler.Output
import SolidityBundler.Proofs.Except
import SolidityBundler.Proofs.Table

namespace SolidityBundler

variable {contracts value : Json} {source : Text} {output output' : CompilerOutput}

theorem membersOf_eq_ok_iff {members : List (Utf16 × Json)} :
    membersOf value = .ok members ↔ value = .object members := by
  cases value <;> simp [membersOf]

/-! ### One source -/

theorem collectSource_of_some {contract : Json}
    (h : contractOf? contracts source = .ok (some contract)) :
    collectSource contracts output source = .ok
      { output with artifacts := output.artifacts.insert (artifactName source) contract } := by
  rw [collectSource, h]
  rfl

theorem collectSource_of_none (h : contractOf? contracts source = .ok none) :
    collectSource contracts output source = .ok (if output.errors.isEmpty then
      { output with warnings := output.warnings ++ [missingContract source] } else output) := by
  rw [collectSource, h]
  by_cases hnone : output.errors.isEmpty
  · rw [if_pos hnone, if_pos hnone]
    rfl
  · rw [if_neg hnone, if_neg hnone]
    rfl

/-- What collecting some sources adds. -/
structure Collects (contracts : Json) (sources : List Text) (output output' : CompilerOutput) :
    Prop where
  shaped : ∀ source ∈ sources, ∃ found, contractOf? contracts source = .ok found
  errors : output'.errors = output.errors
  warnings : ∀ d ∈ output.warnings, d ∈ output'.warnings
  /-- A source without a contract gives a warning, unless there are errors. -/
  missing : output.errors = [] → ∀ source ∈ sources, contractOf? contracts source = .ok none →
    missingContract source ∈ output'.warnings
  /-- An artifact is kept, or it gives way to that of a source. -/
  artifacts : ∀ name, output'.artifacts.get? name = output.artifacts.get? name ∨
    ∃ source ∈ sources, artifactName source = name ∧
      ∃ contract, contractOf? contracts source = .ok (some contract) ∧
        output'.artifacts.get? name = some contract
  /-- A source with a contract has an artifact. -/
  held : ∀ source ∈ sources, ∀ contract, contractOf? contracts source = .ok (some contract) →
    ∃ other ∈ sources, artifactName other = artifactName source ∧
      ∃ contract, contractOf? contracts other = .ok (some contract) ∧
        output'.artifacts.get? (artifactName source) = some contract

theorem collects_nil : Collects contracts [] output output where
  shaped _ h := absurd h List.not_mem_nil
  errors := rfl
  warnings _ h := h
  missing _ _ h := absurd h List.not_mem_nil
  artifacts _ := Or.inl rfl
  held _ h := absurd h List.not_mem_nil

theorem collects_singleton (h : collectSource contracts output source = .ok output') :
    Collects contracts [source] output output' := by
  obtain ⟨found, hfound, -⟩ := exists_of_bind_eq_ok h
  have hself : source ∈ [source] := List.mem_singleton_self source
  have hshaped : ∀ s ∈ [source], ∃ found, contractOf? contracts s = .ok found := by
    intro s hs
    rw [List.mem_singleton.1 hs]
    exact ⟨found, hfound⟩
  cases found with
  | some contract =>
      rw [collectSource_of_some hfound, Except.ok.injEq] at h
      subst h
      refine ⟨hshaped, rfl, fun _ hd => hd, ?_, ?_, ?_⟩
      · intro _ s hs hnone
        rw [List.mem_singleton.1 hs, hfound] at hnone
        cases hnone
      · intro name
        by_cases hname : artifactName source = name
        · exact Or.inr ⟨source, hself, hname, contract, hfound, by simp [hname]⟩
        · exact Or.inl (by simp [hname])
      · intro s hs _ _
        rw [List.mem_singleton.1 hs]
        exact ⟨source, hself, rfl, contract, hfound, by simp⟩
  | none =>
      rw [collectSource_of_none hfound, Except.ok.injEq] at h
      have hheld : ∀ s ∈ [source], ∀ contract, contractOf? contracts s ≠ .ok (some contract) := by
        intro s hs contract hsome
        rw [List.mem_singleton.1 hs, hfound] at hsome
        cases hsome
      by_cases herrors : output.errors.isEmpty
      · rw [if_pos herrors] at h
        subst h
        refine ⟨hshaped, rfl, fun d hd => List.mem_append_left _ hd, ?_, fun _ => Or.inl rfl,
          fun s hs contract hsome => absurd hsome (hheld s hs contract)⟩
        intro _ s hs _
        rw [List.mem_singleton.1 hs]
        exact List.mem_append_right _ (List.mem_singleton_self _)
      · rw [if_neg herrors] at h
        subst h
        refine ⟨hshaped, rfl, fun _ hd => hd, ?_, fun _ => Or.inl rfl,
          fun s hs contract hsome => absurd hsome (hheld s hs contract)⟩
        intro hnil
        exact absurd (List.isEmpty_iff.2 hnil) herrors

/-! ### All sources -/

theorem Collects.append {first rest : List Text} {middle : CompilerOutput}
    (h : Collects contracts first output middle) (h' : Collects contracts rest middle output') :
    Collects contracts (first ++ rest) output output' where
  shaped := by
    intro source hsource
    exact (List.mem_append.1 hsource).elim (h.shaped source) (h'.shaped source)
  errors := h'.errors.trans h.errors
  warnings d hd := h'.warnings d (h.warnings d hd)
  missing := by
    intro hnil source hsource hnone
    rcases List.mem_append.1 hsource with hfirst | hrest
    · exact h'.warnings _ (h.missing hnil source hfirst hnone)
    · exact h'.missing (h.errors.trans hnil) source hrest hnone
  artifacts := by
    intro name
    rcases h'.artifacts name with hkept | ⟨source, hsource, hname⟩
    · rw [hkept]
      rcases h.artifacts name with hold | ⟨source, hsource, hname⟩
      · exact Or.inl hold
      · exact Or.inr ⟨source, List.mem_append_left _ hsource, hname⟩
    · exact Or.inr ⟨source, List.mem_append_right _ hsource, hname⟩
  held := by
    intro source hsource contract hcontract
    rcases List.mem_append.1 hsource with hfirst | hrest
    · obtain ⟨other, hother, hname, hheld⟩ := h.held source hfirst contract hcontract
      rcases h'.artifacts (artifactName source) with hkept | ⟨later, hlater, hlaterName⟩
      · rw [hkept]
        exact ⟨other, List.mem_append_left _ hother, hname, hheld⟩
      · exact ⟨later, List.mem_append_right _ hlater, hlaterName⟩
    · obtain ⟨other, hother, hname⟩ := h'.held source hrest contract hcontract
      exact ⟨other, List.mem_append_right _ hother, hname⟩

private theorem collects_of_foldlM {sources : List Text}
    (h : sources.foldlM (collectSource contracts) output = .ok output') :
    Collects contracts sources output output' := by
  induction sources generalizing output with
  | nil =>
      rw [← Except.ok.inj h]
      exact collects_nil
  | cons source rest ih =>
      rw [List.foldlM_cons] at h
      obtain ⟨middle, hfirst, hrest⟩ := exists_of_bind_eq_ok h
      exact (collects_singleton hfirst).append (ih hrest)

theorem exists_foldlM_collectSource {sources : List Text} (output : CompilerOutput)
    (h : ∀ source ∈ sources, ∃ found, contractOf? contracts source = .ok found) :
    ∃ output', sources.foldlM (collectSource contracts) output = .ok output' := by
  induction sources generalizing output with
  | nil => exact ⟨output, rfl⟩
  | cons source rest ih =>
      rw [List.forall_mem_cons] at h
      obtain ⟨found, hfound⟩ := h.1
      rw [List.foldlM_cons]
      cases found with
      | some contract =>
          rw [collectSource_of_some hfound]
          exact ih _ h.2
      | none =>
          rw [collectSource_of_none hfound]
          exact ih _ h.2

/-! ### A whole output -/

/-- The contracts of an output, by source. -/
def contractsIn (members : List (Utf16 × Json)) : Json :=
  (Json.member? members "contracts").getD (.object [])

/-- **What is collected from an output.**  Its errors are the messages of that kind, and each
source is looked up among the contracts. -/
theorem collects_of_collectOutput {sources : List Text}
    (h : collectOutput value sources = .ok output') :
    ∃ members diagnostics, membersOf value = .ok members ∧
      diagnosticsOf members = .ok diagnostics ∧
      Collects (contractsIn members) sources
        { errors := diagnostics.filter Diagnostic.isError
          warnings := diagnostics.filter Diagnostic.isWarning } output' := by
  obtain ⟨members, hmembers, hrest⟩ := exists_of_bind_eq_ok h
  obtain ⟨diagnostics, hdiagnostics, hcollected⟩ := exists_of_bind_eq_ok hrest
  exact ⟨members, diagnostics, hmembers, hdiagnostics, collects_of_foldlM hcollected⟩

theorem exists_collectOutput {sources : List Text} {members : List (Utf16 × Json)}
    {diagnostics : List Diagnostic} (hmembers : membersOf value = .ok members)
    (hdiagnostics : diagnosticsOf members = .ok diagnostics)
    (hcontracts : ∀ source ∈ sources,
      ∃ found, contractOf? (contractsIn members) source = .ok found) :
    ∃ output', collectOutput value sources = .ok output' := by
  obtain ⟨output', houtput⟩ := exists_foldlM_collectSource
    { errors := diagnostics.filter Diagnostic.isError
      warnings := diagnostics.filter Diagnostic.isWarning } hcontracts
  refine ⟨output', ?_⟩
  show membersOf value >>= _ = _
  rw [hmembers]
  show diagnosticsOf members >>= _ = _
  rw [hdiagnostics]
  exact houtput

end SolidityBundler
