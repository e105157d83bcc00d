/-
How a failed run of the compiler is told.

A run fails before the compiler has anything to say if a version cannot be installed or if there
is no compiler, and each of these ends as an error diagnostic.  A compiler that fails may have
printed an object.  It is then read as any other output is, and nothing is added to it, so the
failure is told by what the object lists: the run ends with an error exactly if the object is of
the right shape and one of its messages is an error.  All of this holds as far as the printed text
can be read: the limit that a runtime sets to the depth of its nesting is not a part of it.

In a build the errors of the compiler are traced back one by one, which keeps their number, and
nothing that follows takes one away.
-/
import SolidityBundler.Proofs.Build.Outcome
import SolidityBundler.Proofs.Compiler.Run

namespace SolidityBundler

/-! ### Failing -/

/-- A run fails; `printed` is the object that the compiler has printed, if it has. -/
inductive Fails (settings : Settings) (mayInstall : Bool) (compiler : Compiler)
    (sources : Table Text Text) : (printed : Option Json) → Prop
  | install {version : Text} {failure : InstallFailure}
      (hmissing : missingVersion? settings mayInstall compiler = some version)
      (hinstall : compiler.install version = some failure)
      (hreported : failure.cause.isReported) : Fails settings mayInstall compiler sources none
  | notInstalled {message : Text} (hready : compiler.IsReady settings mayInstall)
      (hanswer : compiler.answerTo settings sources = .notInstalled message) :
      Fails settings mayInstall compiler sources none
  | compiler {message printed : Option Text} (hready : compiler.IsReady settings mayInstall)
      (hanswer : compiler.answerTo settings sources = .failure message printed) :
      Fails settings mayInstall compiler sources (printedObject? printed)

/-- An output has the shape that is read, for sources of some names, and one of its messages is
an error. -/
def Json.ListsError (output : Json) (sources : List Text) : Prop :=
  ∃ members diagnostics, membersOf output = .ok members ∧
    diagnosticsOf members = .ok diagnostics ∧
    (∀ source ∈ sources, ∃ found, contractOf? (contractsIn members) source = .ok found) ∧
    ∃ d ∈ diagnostics, d.isError

/-- A run that ends with an output that has an error. -/
def CompilerRun.TellsError (run : CompilerRun) : Prop :=
  ∃ output, run.result = .ok output ∧ output.errors ≠ []

theorem collectOutput_lists_error {value : Json} {sources : List Text} :
    (∃ output, collectOutput value sources = .ok output ∧ output.errors ≠ []) ↔
      value.ListsError sources := by
  constructor
  · rintro ⟨output, houtput, herrors⟩
    obtain ⟨members, diagnostics, hmembers, hdiagnostics, hcollects⟩ :=
      collects_of_collectOutput houtput
    rw [hcollects.errors] at herrors
    obtain ⟨d, hd⟩ := List.exists_mem_of_ne_nil _ herrors
    exact ⟨members, diagnostics, hmembers, hdiagnostics, hcollects.shaped, d, List.mem_filter.1 hd⟩
  · rintro ⟨members, diagnostics, hmembers, hdiagnostics, hcontracts, d, hd, herror⟩
    obtain ⟨output, houtput⟩ := exists_collectOutput hmembers hdiagnostics hcontracts
    obtain ⟨_, _, hmembers', hdiagnostics', hcollects⟩ := collects_of_collectOutput houtput
    obtain rfl := Except.ok.inj (hmembers.symm.trans hmembers')
    obtain rfl := Except.ok.inj (hdiagnostics.symm.trans hdiagnostics')
    refine ⟨output, houtput, ?_⟩
    rw [hcollects.errors]
    exact List.ne_nil_of_mem (List.mem_filter.2 ⟨hd, herror⟩)

/-! ### Runs -/

section Runs

variable {settings : Settings} {mayInstall : Bool} {compiler : Compiler}
  {sources : Table Text Text} {printed : Option Json}

variable (hsources : sources.entries ≠ []) (hversion : settings.compilerVersion ≠ .lost)
include hsources hversion

/-- What was printed decides about a failing compiler, and all other failures are told. -/
theorem Fails.tellsError_iff (h : Fails settings mayInstall compiler sources printed) :
    (compile settings mayInstall compiler sources).TellsError ↔
      ∀ value, printed = some value → value.ListsError sources.keys := by
  have htold : ∀ message, (compile settings mayInstall compiler sources).result
      = .ok (.failed message) → (compile settings mayInstall compiler sources).TellsError :=
    fun message hresult => ⟨_, hresult, List.cons_ne_nil _ _⟩
  have hnothing : ∀ value, (none : Option Json) = some value → value.ListsError sources.keys := by
    intro value hsome
    cases hsome
  cases h with
  | @install version failure hmissing hinstall hreported =>
      have hresult := (compile_of_install hsources hversion hmissing hinstall).1
      rw [if_pos hreported] at hresult
      exact iff_of_true (htold _ hresult) hnothing
  | @notInstalled message hready hanswer =>
      have hresult := (compile_of_isReady hsources hversion hready).1
      rw [hanswer] at hresult
      exact iff_of_true (htold _ hresult) hnothing
  | @compiler message printed hready hanswer =>
      have hresult := (compile_of_isReady hsources hversion hready).1
      rw [hanswer, CompilerAnswer.outcome] at hresult
      cases hobject : printedObject? printed with
      | none =>
          rw [hobject] at hresult
          exact iff_of_true (htold _ hresult) hnothing
      | some value =>
          rw [hobject] at hresult
          rw [CompilerRun.TellsError, hresult]
          simp only [mapError_eq_ok_iff, Option.some.injEq, forall_eq']
          exact collectOutput_lists_error

/-- **A failed run ends with an error, unless the compiler has printed an object that lists
none.**  No build that got as far ends as a success.  What is printed may be nested to any depth:
that a runtime may give up reading it is left out. -/
theorem compile_tells_failure (hfails : Fails settings mayInstall compiler sources printed) :
    ((compile settings mayInstall compiler sources).TellsError ↔
        ∀ value, printed = some value → value.ListsError sources.keys) ∧
      ((∀ value, printed = some value → value.ListsError sources.keys) → mayInstall = true →
        ∀ tree bundling report, (Build.flatten settings tree).bundling = some bundling →
          bundling.contents = sources → (Build.run settings compiler tree).report = .ok report →
          report.exitCode = 1) := by
  have htells := hfails.tellsError_iff hsources hversion
  refine ⟨htells, ?_⟩
  rintro hlists rfl tree bundling report hbundling rfl hreport
  obtain ⟨output, houtput, herrors⟩ := htells.2 hlists
  rcases Build.fatal_or_completion hreport with hfatal | ⟨c, rfl⟩
  · exact hfatal.exitCode
  · obtain rfl : c.bundling = bundling :=
      Option.some.inj (c.flatten_eq.2.1.symm.trans hbundling)
    obtain rfl : c.output = output := Except.ok.inj (c.compiled.symm.trans houtput)
    rw [Report.exitCode_eq_one_iff, ne_eq, Report.errors_eq_nil_iff]
    rintro ⟨-, -, hnone⟩
    exact herrors ((Build.of_attributed c.traced_eq).1.1 hnone)

end Runs

/-! ### A failure that is told, and one that is not -/

/-- A compiler that fails on every batch and prints the same value. -/
def failingCompiler (printed : Json) : Compiler where
  installed := []
  install _ := none
  answer _ _ := .failure (some "boom") (some printed.write)

private theorem failingCompiler_fails (printed : Json) (settings : Settings) (mayInstall : Bool)
    (sources : Table Text Text) : Fails settings mayInstall (failingCompiler printed) sources
      (printedObject? (some printed.write)) :=
  .compiler (fun _ _ => rfl) rfl

/-- A project of one unit. -/
def oneUnitTree : FileTree :=
  (FileTree.empty []).place (.ofText "contracts/A.sol") (.file (Utf8.encode "x"))

/-- An object with one message that does not say how severe it is. -/
def plainMessage : Json := .ofMembers [("errors", .array [.ofMembers [("message", .ofText "m")]])]

/-- A message is an error if nothing else is said, so this failure is told. -/
theorem plainMessage_told :
    ∃ bundling, (Build.flatten {} oneUnitTree).bundling = some bundling ∧
      bundling.contents.entries ≠ [] ∧ ({} : Settings).compilerVersion ≠ .lost ∧
      Fails {} true (failingCompiler plainMessage) bundling.contents
        (printedObject? (some plainMessage.write)) ∧
      (compile {} true (failingCompiler plainMessage) bundling.contents).TellsError ∧
      ∀ report, (Build.run {} (failingCompiler plainMessage) oneUnitTree).report = .ok report →
        report.exitCode = 1 := by
  obtain ⟨bundling, hbundling⟩ : ∃ bundling,
      (Build.flatten {} oneUnitTree).bundling = some bundling :=
    Option.isSome_iff_exists.1 (by decide +kernel)
  have hkeys : bundling.contents.keys = ["A.sol".toList] := by
    have hall : (Build.flatten {} oneUnitTree).bundling.map (fun b => b.contents.keys)
        = some ["A.sol".toList] := by decide +kernel
    rw [hbundling] at hall
    exact Option.some.inj hall
  have hsources : bundling.contents.entries ≠ [] := by
    refine Table.entries_ne_nil_of_mem_keys (k := "A.sol".toList) ?_
    rw [hkeys]
    exact List.mem_cons_self
  have hversion : ({} : Settings).compilerVersion ≠ .lost := by decide
  have hfails := failingCompiler_fails plainMessage {} true bundling.contents
  have hlists : ∀ value, printedObject? (some plainMessage.write) = some value →
      value.ListsError bundling.contents.keys := by
    intro value hvalue
    rw [hkeys, ← collectOutput_lists_error]
    have hall : (printedObject? (some plainMessage.write)).map (fun value =>
        (collectOutput value ["A.sol".toList]).toOption.map fun output => output.errors.length)
          = some (some 1) := by decide +kernel
    rw [hvalue] at hall
    obtain ⟨output, houtput, hlength⟩ := Option.map_eq_some_iff.1 (Option.some.inj hall)
    refine ⟨output, ?_, List.ne_nil_of_length_eq_add_one hlength⟩
    cases hcollect : collectOutput value ["A.sol".toList] with
    | error fault =>
        rw [hcollect] at houtput
        cases houtput
    | ok output' =>
        rw [hcollect] at houtput
        exact congrArg Except.ok (Option.some.inj houtput)
  obtain ⟨htells, hbuild⟩ := compile_tells_failure hsources hversion hfails
  exact ⟨bundling, hbundling, hsources, hversion, hfails, htells.2 hlists,
    fun report => hbuild hlists rfl oneUnitTree bundling report hbundling rfl⟩

/-- An object without a message hides the failure: the run ends without an error, and the build
as a success. -/
theorem emptyObject_hides_failure :
    Fails {} true (failingCompiler (.object [])) (.ofList [("A.sol".toList, "x".toList)])
        (some (.object [])) ∧
      (∃ output, (compile {} true (failingCompiler (.object []))
          (.ofList [("A.sol".toList, "x".toList)])).result = .ok output ∧ output.errors = []) ∧
      ∃ report, (Build.run {} (failingCompiler (.object [])) oneUnitTree).report = .ok report ∧
        report.exitCode = 0 := by
  refine ⟨failingCompiler_fails (.object []) {} true _, ⟨_, rfl, rfl⟩, _, rfl, ?_⟩
  decide +kernel

end SolidityBundler
