/-
What a run asks of the compiler.

A run asks for one batch, once its version is there.  If it ends without an error, the version was
there and the compiler has given an output, as its answer or as what it printed while it failed;
all other ways to end put an error in place of an output.
-/
import SolidityBundler.Compiler.Invocation
import SolidityBundler.Proofs.Compiler.Output

namespace SolidityBundler

/-- A version that is asked for is there, or it can be installed. -/
def Compiler.IsReady (compiler : Compiler) (settings : Settings) (mayInstall : Bool) : Prop :=
  ∀ version, missingVersion? settings mayInstall compiler = some version →
    compiler.install version = none

/-- The answer to the batch of a run. -/
def Compiler.answerTo (compiler : Compiler) (settings : Settings) (sources : Table Text Text) :
    CompilerAnswer :=
  compiler.answer (.ofSources settings sources) settings.compilerVersion.name?

/-- The output that an answer comes with. -/
def CompilerAnswer.value? : CompilerAnswer → Option Json
  | .output value => some value
  | .failure _ printed => printedObject? printed
  | .notInstalled _ => none

/-- The batch that is asked for, if one is. -/
def CompilerCall.input? : CompilerCall → Option CompilerInput
  | .install _ => none
  | .compile input _ => some input

variable {settings : Settings} {mayInstall : Bool} {compiler : Compiler}
  {sources : Table Text Text} {output : CompilerOutput}

/-! ### Asking -/

private theorem invoke_eq (settings : Settings) (compiler : Compiler) (sources : Table Text Text) :
    (invoke settings compiler sources).result
        = ((compiler.answerTo settings sources).outcome sources.keys).mapError .output ∧
      (invoke settings compiler sources).calls
        = [.compile (.ofSources settings sources) settings.compilerVersion.name?] := by
  unfold Compiler.answerTo
  cases houtcome : (compiler.answer (.ofSources settings sources)
      settings.compilerVersion.name?).outcome sources.keys with
  | ok output =>
      rw [invoke]
      dsimp only
      rw [houtcome]
      exact ⟨rfl, rfl⟩
  | error fault =>
      rw [invoke]
      dsimp only
      rw [houtcome]
      exact ⟨rfl, rfl⟩

section Asked

variable (hsources : sources.entries ≠ []) (hversion : settings.compilerVersion ≠ .lost)
include hsources hversion

/-- With its version at hand the compiler is asked, and asked once. -/
theorem compile_of_isReady (hready : compiler.IsReady settings mayInstall) :
    (compile settings mayInstall compiler sources).result
        = ((compiler.answerTo settings sources).outcome sources.keys).mapError .output ∧
      (compile settings mayInstall compiler sources).calls.filterMap CompilerCall.input?
        = [.ofSources settings sources] := by
  obtain ⟨hresult, hcalls⟩ := invoke_eq settings compiler sources
  rw [compile, if_neg (by simpa using hsources), if_neg hversion]
  cases hmissing : missingVersion? settings mayInstall compiler with
  | none =>
      dsimp only
      rw [hresult, hcalls]
      exact ⟨rfl, rfl⟩
  | some version =>
      dsimp only [installAndInvoke]
      rw [hready version hmissing]
      dsimp only
      rw [hresult, hcalls]
      exact ⟨rfl, rfl⟩

/-- A version that cannot be installed ends a run before the compiler is asked. -/
theorem compile_of_install {version : Text} {failure : InstallFailure}
    (hmissing : missingVersion? settings mayInstall compiler = some version)
    (hinstall : compiler.install version = some failure) :
    (compile settings mayInstall compiler sources).result
        = (if failure.cause.isReported then
            .ok (.failed ("cannot install solc " ++ version ++ ": " ++ failure.message))
          else .error (.install failure.cause)) ∧
      (compile settings mayInstall compiler sources).calls.filterMap CompilerCall.input? = [] := by
  rw [compile, if_neg (by simpa using hsources), if_neg hversion, hmissing]
  dsimp only [installAndInvoke]
  rw [hinstall]
  dsimp only
  by_cases hreported : failure.cause.isReported
  · rw [if_pos hreported, if_pos hreported]
    exact ⟨rfl, rfl⟩
  · rw [if_neg hreported, if_neg hreported]
    exact ⟨rfl, rfl⟩

end Asked

/-! ### Runs without an error -/

private theorem exists_install_of_not_isReady (h : ¬ compiler.IsReady settings mayInstall) :
    ∃ version failure, missingVersion? settings mayInstall compiler = some version ∧
      compiler.install version = some failure := by
  unfold Compiler.IsReady at h
  rw [Classical.not_forall] at h
  obtain ⟨version, h⟩ := h
  rw [Classical.not_imp, ← ne_eq, Option.ne_none_iff_exists'] at h
  obtain ⟨hmissing, failure, hinstall⟩ := h
  exact ⟨version, failure, hmissing, hinstall⟩

/-- No other batch is asked for than that of the sources. -/
theorem eq_of_input?_mem_calls {call : CompilerCall} {input : CompilerInput}
    (hcall : call ∈ (compile settings mayInstall compiler sources).calls)
    (hinput : call.input? = some input) : input = .ofSources settings sources := by
  have hmem := List.mem_filterMap.2 ⟨call, hcall, hinput⟩
  by_cases hsources : sources.entries = []
  · rw [compile, if_pos (by simpa using hsources)] at hmem
    cases hmem
  · by_cases hversion : settings.compilerVersion = .lost
    · rw [compile, if_neg (by simpa using hsources), if_pos hversion] at hmem
      cases hmem
    · by_cases hready : compiler.IsReady settings mayInstall
      · rw [(compile_of_isReady hsources hversion hready).2] at hmem
        exact List.mem_singleton.1 hmem
      · obtain ⟨version, failure, hmissing, hinstall⟩ := exists_install_of_not_isReady hready
        rw [(compile_of_install hsources hversion hmissing hinstall).2] at hmem
        cases hmem

/-- **A run that ends with an output has collected what the compiler gave, or there is nothing but
an error in it.** -/
theorem collected_or_failed (hsources : sources.entries ≠ [])
    (h : (compile settings mayInstall compiler sources).result = .ok output) :
    (∃ message, output = .failed message) ∨
      (compile settings mayInstall compiler sources).calls.filterMap CompilerCall.input?
          = [.ofSources settings sources] ∧
        ∃ value, (compiler.answerTo settings sources).value? = some value ∧
          collectOutput value sources.keys = .ok output := by
  have hversion : settings.compilerVersion ≠ .lost := by
    intro hlost
    rw [compile, if_neg (by simpa using hsources), if_pos hlost] at h
    cases h
  by_cases hready : compiler.IsReady settings mayInstall
  · obtain ⟨hresult, hcalls⟩ := compile_of_isReady hsources hversion hready
    rw [hresult, mapError_eq_ok_iff] at h
    cases hanswer : compiler.answerTo settings sources with
    | output value =>
        rw [hanswer] at h
        exact Or.inr ⟨hcalls, value, rfl, h⟩
    | failure message printed =>
        rw [hanswer, CompilerAnswer.outcome] at h
        rw [CompilerAnswer.value?]
        cases hprinted : printedObject? printed with
        | some value =>
            rw [hprinted] at h
            exact Or.inr ⟨hcalls, value, rfl, h⟩
        | none =>
            rw [hprinted] at h
            exact Or.inl ⟨_, (Except.ok.inj h).symm⟩
    | notInstalled message =>
        rw [hanswer] at h
        exact Or.inl ⟨message, (Except.ok.inj h).symm⟩
  · obtain ⟨version, failure, hmissing, hinstall⟩ := exists_install_of_not_isReady hready
    rw [(compile_of_install hsources hversion hmissing hinstall).1] at h
    by_cases hreported : failure.cause.isReported
    · rw [if_pos hreported] at h
      exact Or.inl ⟨_, (Except.ok.inj h).symm⟩
    · rw [if_neg hreported] at h
      cases h

/-- The artifacts are those of sources. -/
theorem exists_source_of_artifact
    (h : (compile settings mayInstall compiler sources).result = .ok output) {name : Text}
    (hname : name ∈ output.artifacts.keys) :
    ∃ source ∈ sources.keys, artifactName source = name := by
  by_cases hsources : sources.entries = []
  · rw [compile, if_pos (by simpa using hsources)] at h
    obtain rfl := Except.ok.inj h
    cases hname
  · rcases collected_or_failed hsources h with ⟨message, rfl⟩ | ⟨-, value, -, hcollected⟩
    · cases hname
    · obtain ⟨members, diagnostics, -, -, hcollects⟩ := collects_of_collectOutput hcollected
      obtain ⟨artifact, hget⟩ := Table.mem_keys_iff.1 hname
      rcases hcollects.artifacts name with hkept | ⟨source, hsource, hof, -⟩
      · rw [hget] at hkept
        cases hkept
      · exact ⟨source, hsource, hof⟩

end SolidityBundler
