/-
How a build ends.

A build goes through its stages in one order.  Each of them either ends the build, with a crash or
with an error of the build itself in the report, or leads to the next one.  So a report without
such an error comes from a build that went through all stages: its sources were read, its bundles
written and compiled, and its artifacts written.  `Flattening` and `Completion` hold what the
stages gave on the way, and all that is said of a finished build is said of them.

The errors of a report come from three places, and a report without any has none in each of them.
-/
import SolidityBundler.Build.Run
import SolidityBundler.Proofs.Compiler.Output

namespace SolidityBundler

/-! ### Reports -/

namespace Report

variable {r : Report}

theorem exitCode_eq_one_iff : r.exitCode = 1 ↔ r.errors ≠ [] := by
  rw [exitCode, hasErrors]
  by_cases h : r.errors = []
  · simp [h]
  · simp [h]

/-- A report has no errors if there are none in any of its three parts. -/
theorem errors_eq_nil_iff : r.errors = [] ↔
    (∀ d ∈ r.diagnostics, ¬ d.isError) ∧ (∀ d ∈ r.flattened.getD [], ¬ d.isError) ∧
      r.compiled.elim [] CompilerOutput.errors = [] := by
  rw [errors, List.append_eq_nil_iff, List.append_eq_nil_iff, List.filter_eq_nil_iff,
    List.filter_eq_nil_iff, and_assoc]

end Report

/-! ### Tracing back -/

namespace Build

/-- Tracing back keeps the number of errors, and what is not traced it leaves in place. -/
theorem of_attributed {bundling : Bundling} {output traced : CompilerOutput}
    (h : attributed bundling output = .ok traced) :
    (traced.errors = [] ↔ output.errors = []) ∧
      (∀ d ∈ output.warnings, d.offset = none → d ∈ traced.warnings) ∧
      traced.artifacts = output.artifacts := by
  obtain ⟨errors, herrors, h⟩ := exists_of_bind_eq_ok h
  obtain ⟨warnings, hwarnings, h⟩ := exists_of_bind_eq_ok h
  obtain rfl := Except.ok.inj h
  refine ⟨?_, ?_, rfl⟩
  · show errors = [] ↔ _
    rw [← List.length_eq_zero_iff, ← List.length_eq_zero_iff, (of_mapM herrors).1]
  · intro d hd hoffset
    obtain ⟨d', hd', heq⟩ := (of_mapM hwarnings).2 d hd
    have hself : d.attribute bundling.bundles = .ok d := by
      rw [Diagnostic.attribute, hoffset]
    obtain rfl := Except.ok.inj (hself.symm.trans heq)
    exact hd'

variable {settings : Settings} {compiler : Compiler} {tree : FileTree}

/-! ### Fatal errors -/

/-- The codes of the errors of a build itself. -/
def fatalCodes : List Text := ["LOC-0010", "LOC-0020", "LOC-0030"]

def IsFatal (d : Diagnostic) : Prop := ∃ code ∈ fatalCodes, ∃ message, d = fatal code message

theorem IsFatal.isError {d : Diagnostic} (h : IsFatal d) : d.isError := by
  obtain ⟨code, -, message, rfl⟩ := h
  rfl

/-- The build has an error of its own, and nothing else. -/
def HasFatal (report : Report) : Prop :=
  report.diagnostics ≠ [] ∧ ∀ d ∈ report.diagnostics, IsFatal d

theorem HasFatal.exists_isFatal {report : Report} (h : HasFatal report) :
    ∃ d ∈ report.diagnostics, IsFatal d := by
  obtain ⟨d, hd⟩ := List.exists_mem_of_ne_nil _ h.1
  exact ⟨d, hd, h.2 d hd⟩

theorem HasFatal.not_clean {report : Report} (h : HasFatal report) :
    ¬ ∀ d ∈ report.diagnostics, ¬ IsFatal d := by
  intro hclean
  obtain ⟨d, hd, hfatal⟩ := h.exists_isFatal
  exact hclean d hd hfatal

theorem HasFatal.exitCode {report : Report} (h : HasFatal report) : report.exitCode = 1 := by
  rw [Report.exitCode_eq_one_iff, ne_eq, Report.errors_eq_nil_iff]
  rintro ⟨hnone, -, -⟩
  obtain ⟨d, hd, hfatal⟩ := h.exists_isFatal
  exact hnone d hd hfatal.isError

private theorem hasFatal_singleton {code : Text} (hcode : code ∈ fatalCodes) (message : Text)
    {report : Report} (h : report.diagnostics = [fatal code message]) : HasFatal report := by
  rw [HasFatal, h]
  refine ⟨List.cons_ne_nil _ _, ?_⟩
  intro d hd
  exact ⟨code, hcode, message, List.mem_singleton.1 hd⟩

theorem hasFatal_unreadable (e : FileTree.LoadError) : HasFatal (unreadable e) := by
  refine hasFatal_singleton ?_ (loadProblem e).2 rfl
  cases e with
  | file e => exact List.mem_cons_self
  | text fault => exact List.mem_cons_of_mem _ List.mem_cons_self

theorem hasFatal_of_unwritable {before report : Report} {e : FileError}
    (h : unwritable before e = .ok report) (hbefore : before.diagnostics = []) :
    HasFatal report := by
  have hcode : ("LOC-0030" : Text) ∈ fatalCodes :=
    List.mem_cons_of_mem _ (List.mem_cons_of_mem _ List.mem_cons_self)
  unfold unwritable at h
  cases hcrash : e.crash? with
  | some crash =>
      rw [hcrash] at h
      cases h
  | none =>
      rw [hcrash] at h
      refine hasFatal_singleton hcode e.message ?_
      rw [← Except.ok.inj h]
      show before.diagnostics ++ _ = _
      rw [hbefore, List.nil_append]

/-! ### Bundles -/

/-- What a build has at hand once its bundles are written. -/
structure Flattening (settings : Settings) (tree : FileTree) where
  index : UnitIndex
  log : List Log.Entry
  files : List TreePath
  written : FileTree
  discovered : discover settings tree = (.ok index, log)
  wrote : tree.writeTexts settings.flattenedPath (bundleProject index).1.contents.entries
    = (.ok files, written)

namespace Flattening

def bundling (f : Flattening settings tree) : Bundling := (bundleProject f.index).1

def report (f : Flattening settings tree) : Report where
  flattened := some f.bundling.diagnostics
  flattenedFiles := f.files

theorem flatten_eq (f : Flattening settings tree) :
    (flatten settings tree).report = .ok f.report ∧
      (flatten settings tree).bundling = some f.bundling ∧
      (flatten settings tree).tree = f.written := by
  unfold flatten
  rw [f.discovered]
  dsimp only
  rw [f.wrote]
  exact ⟨rfl, rfl, rfl⟩

end Flattening

/-- The bundles are written, or the report has a fatal error. -/
theorem fatal_or_flattening {report : Report}
    (h : (flatten settings tree).report = .ok report) :
    HasFatal report ∨ ∃ f : Flattening settings tree, report = f.report := by
  cases hdiscovered : discover settings tree with
  | mk result log =>
      cases result with
      | error e =>
          simp only [flatten, hdiscovered, Except.ok.injEq] at h
          subst h
          exact Or.inl (hasFatal_unreadable e)
      | ok index =>
          cases hwrote : tree.writeTexts settings.flattenedPath
              (bundleProject index).1.contents.entries with
          | mk result written =>
              cases result with
              | error e =>
                  simp only [flatten, hdiscovered, hwrote] at h
                  exact Or.inl (hasFatal_of_unwritable h rfl)
              | ok files =>
                  simp only [flatten, hdiscovered, hwrote, Except.ok.injEq] at h
                  exact Or.inr ⟨⟨index, log, files, written, hdiscovered, hwrote⟩, h.symm⟩

/-! ### Builds -/

/-- What a build has at hand once its artifacts are written. -/
structure Completion (settings : Settings) (compiler : Compiler) (tree : FileTree) extends
    Flattening settings tree where
  output : CompilerOutput
  traced : CompilerOutput
  artifacts : List TreePath
  final : FileTree
  compiled : (compile settings true compiler toFlattening.bundling.contents).result = .ok output
  traced_eq : attributed toFlattening.bundling output = .ok traced
  wroteArtifacts : written.writeTexts settings.compiledPath (artifactFiles traced.artifacts)
    = (.ok artifacts, final)

namespace Completion

def finalReport (c : Completion settings compiler tree) : Report :=
  { c.report with compiled := some c.traced, artifactFiles := c.artifacts }

end Completion

theorem run_of_flattening (compiler : Compiler) (f : Flattening settings tree) :
    ∃ flattened : Flattened, flattened.tree = f.written ∧
      run settings compiler tree
        = compileBundles settings compiler flattened f.report f.bundling := by
  obtain ⟨hreport, hbundling, htree⟩ := f.flatten_eq
  refine ⟨{ flatten settings tree with
    log := .info "Starting build..." :: (flatten settings tree).log }, htree, ?_⟩
  unfold run
  simp only [hreport, hbundling]
  rfl

namespace Completion

theorem run_eq (c : Completion settings compiler tree) :
    (run settings compiler tree).report = .ok c.finalReport ∧
      (run settings compiler tree).tree = c.final ∧
      (run settings compiler tree).calls
        = (compile settings true compiler c.bundling.contents).calls := by
  obtain ⟨flattened, htree, hrun⟩ := run_of_flattening compiler c.toFlattening
  have houtput : compiledOutput c.bundling (compile settings true compiler c.bundling.contents)
      = .ok c.traced := by
    unfold compiledOutput
    rw [c.compiled]
    show (attributed c.bundling c.output).mapError _ = _
    rw [c.traced_eq]
    rfl
  rw [hrun]
  unfold compileBundles
  dsimp only
  rw [houtput]
  dsimp only [finish]
  rw [htree, c.wroteArtifacts]
  exact ⟨rfl, rfl, rfl⟩

end Completion

theorem report_run_of_not_flattening {report : Report}
    (hnone : ¬ Nonempty (Flattening settings tree))
    (h : (run settings compiler tree).report = .ok report) :
    (flatten settings tree).report = .ok report := by
  unfold run at h
  dsimp only at h
  split at h
  · next report' bundling hreport hbundling =>
      rcases fatal_or_flattening hreport with hfatal | ⟨f, -⟩
      · rw [if_neg (by simpa using hfatal.1)] at h
        exact h
      · exact absurd ⟨f⟩ hnone
  · exact h

/-- **A report without a fatal error comes from a build that went through all its stages.** -/
theorem fatal_or_completion {report : Report}
    (h : (run settings compiler tree).report = .ok report) :
    HasFatal report ∨ ∃ c : Completion settings compiler tree, report = c.finalReport := by
  by_cases hflattening : Nonempty (Flattening settings tree)
  · obtain ⟨f⟩ := hflattening
    obtain ⟨flattened, htree, hrun⟩ := run_of_flattening compiler f
    rw [hrun, compileBundles] at h
    dsimp only at h
    cases houtput : compiledOutput f.bundling
        (compile settings true compiler f.bundling.contents) with
    | error crash =>
        rw [houtput] at h
        cases h
    | ok traced =>
        rw [houtput] at h
        dsimp only [finish] at h
        rw [htree] at h
        obtain ⟨output, hcompiled, htraced⟩ := exists_of_bind_eq_ok houtput
        cases hwrote : f.written.writeTexts settings.compiledPath
            (artifactFiles traced.artifacts) with
        | mk result final =>
            rw [hwrote] at h
            cases result with
            | error e => exact Or.inl (hasFatal_of_unwritable h rfl)
            | ok artifacts =>
                refine Or.inr ⟨⟨f, output, traced, artifacts, final, hcompiled, ?_, hwrote⟩, ?_⟩
                · exact mapError_eq_ok_iff.1 htraced
                · exact (Except.ok.inj h).symm
  · left
    rcases fatal_or_flattening (report_run_of_not_flattening hflattening h) with hfatal | ⟨f, -⟩
    · exact hfatal
    · exact absurd ⟨f⟩ hflattening

end Build

end SolidityBundler
