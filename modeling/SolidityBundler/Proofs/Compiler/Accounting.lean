/-
Every message and every source is accounted for.

An output of the compiler in its standard shape lists messages and holds contracts by source and
name.  Collecting it turns the messages into diagnostics one by one, and a diagnostic has the
severity that its message gives, so errors and warnings stand in the order of their messages.  The
sources are then gone through in order: one with a contract gives an artifact, and one without
gives a warning, unless there were errors.  Messages name no unit and such a warning does, which
tells the two kinds of warnings apart.

The contract is looked up under the stem of the source's path, and the artifact is named after the
source without its ending.  For a name with a stem and the ending of sources the two agree: the stem
is what stands between the last slash and the ending, so names of artifacts differ as those of
their sources do.

One thing keeps messages of that shape from being collected: a place that is said to be something
else than an object, and not just empty.
-/
import Mathlib.Data.List.Nodup
import SolidityBundler.Proofs.Build.Sources
import SolidityBundler.Proofs.Compiler.Output

namespace SolidityBundler

/-! ### The shape of an output -/

namespace Json

/-- The value under a key, if there is an object with one. -/
def field? : Json → Text → Option Json
  | .object members, key => member? members key
  | _, _ => none

def IsObject (value : Json) : Prop := ∃ members, value = .object members

/-- An object that lists these messages, each of them an object, if it lists any, and holds objects
of contracts, if it holds any. -/
structure StandardShape (output : Json) (entries : List Json) : Prop where
  isObject : output.IsObject
  listed : output.field? "errors" = some (.array entries) ∨
    output.field? "errors" = none ∧ entries = []
  messages : ∀ entry ∈ entries, entry.IsObject
  contracts : ∀ contracts, output.field? "contracts" = some contracts → contracts.IsObject ∧
    ∀ source ofSource, contracts.field? source = some ofSource → ofSource.IsObject

/-- Whether a value is this text. -/
def isText (word : Text) : Json → Bool
  | .string units => units == .ofText word
  | _ => false

/-- Whether a message is of severity `error` or of none. -/
def saysError (entry : Json) : Bool := (entry.field? "severity").all (isText "error")

def saysWarning (entry : Json) : Bool := (entry.field? "severity").any (isText "warning")

/-- The place of a message is an object, if it is said and not empty. -/
def Located (entry : Json) : Prop :=
  ∀ place, entry.field? "sourceLocation" = some place → place.isEmptyValue = true ∨ place.IsObject

/-- What an output holds for a source under a name, if it is not null. -/
def contract? (output : Json) (source name : Text) : Option Json :=
  match ((output.field? "contracts").bind (·.field? source)).bind (·.field? name) with
  | none | some .null => none
  | some contract => some contract

end Json

/-- The name of a source in a directory, with its stem and the ending of sources. -/
structure NamedAfter (source directory stem : Text) : Prop where
  written : source = directory ++ stem ++ sourceEnding
  inside : directory = [] ∨ directory.getLast? = some '/'
  named : stem ≠ []
  plain : '/' ∉ stem

/-! ### Names -/

section Names

variable {source directory stem : Text}

private theorem NamedAfter.isSourceName (h : NamedAfter source directory stem) :
    isSourceName source := by
  rw [SolidityBundler.isSourceName, List.isSuffixOf_iff_suffix, h.written]
  exact List.suffix_append _ _

private theorem NamedAfter.artifactName_eq (h : NamedAfter source directory stem) :
    artifactName source = directory ++ stem :=
  List.append_cancel_right ((artifactName_append h.isSourceName).trans h.written)

private theorem stemOf_append_sourceEnding (h : stem ≠ []) :
    TreePath.stemOf (stem ++ sourceEnding) = stem := by
  have hending : sourceEnding.reverse = ['l', 'o', 's', '.'] := by decide
  have hfront : ((stem ++ sourceEnding).reverse.dropWhile (· != '.')).drop 1 = stem.reverse := by
    rw [List.reverse_append, hending]
    rfl
  have hlast : (stem ++ sourceEnding).getLast? = some 'l' := by
    rw [List.getLast?_append]
    rfl
  have hempty : stem.reverse.isEmpty = false := by simpa using h
  have hdot : (some 'l' == some '.') = false := by decide
  rw [TreePath.stemOf, hfront, hlast, hempty, hdot, Bool.or_self, if_neg (by decide),
    List.reverse_reverse]

private theorem NamedAfter.name_ofText (h : NamedAfter source directory stem) :
    (TreePath.ofText source).name = stem ++ sourceEnding := by
  have hplain : '/' ∉ stem ++ sourceEnding := by
    rw [List.mem_append, not_or]
    exact ⟨h.plain, by decide⟩
  obtain ⟨front, last, hdirectory, hsource⟩ := Text.exists_split_append directory hplain
  -- Behind the last slash of the directory nothing stands.
  have hlast : last = [] := by
    have hgiven : (Text.split '/' directory).getLast? = some last := by
      rw [hdirectory, List.getLast?_concat]
    rcases h.inside with rfl | hslash
    · simpa [Text.split] using hgiven.symm
    · obtain ⟨before, rfl⟩ := List.getLast?_eq_some_iff.1 hslash
      rw [Text.split_append_cons] at hgiven
      simpa [Text.split] using hgiven.symm
  have hnamed : TreePath.isNamed (stem ++ sourceEnding) = true := by
    have hlong : 4 ≤ (stem ++ sourceEnding).length := by
      rw [List.length_append]
      exact Nat.le_add_left 4 _
    have hempty : (stem ++ sourceEnding).isEmpty = false := by
      rw [List.isEmpty_eq_false_iff]
      exact List.ne_nil_of_length_pos (by omega)
    have hhere : stem ++ sourceEnding ≠ SlashPath.here := by
      intro heq
      rw [heq] at hlong
      exact absurd hlong (by decide)
    rw [TreePath.isNamed, hempty, Bool.not_false, Bool.true_and, bne_iff_ne]
    exact hhere
  rw [TreePath.name, TreePath.ofText, SlashPath.segments, h.written, List.append_assoc, hsource,
    hlast, List.nil_append, List.filter_append, List.filter_cons_of_pos hnamed, List.filter_nil]
  simp

private theorem NamedAfter.contractName_eq (h : NamedAfter source directory stem) :
    contractName source = stem := by
  rw [contractName, TreePath.stem, h.name_ofText, stemOf_append_sourceEnding h.named]

end Names

/-! ### Messages -/

section Entry

variable {entry : Json} {d : Diagnostic}

private theorem severityOf_iff (severity : Option Json) :
    (severityOf severity == .error) = severity.all (Json.isText "error") ∧
      (severityOf severity == .warning) = severity.any (Json.isText "warning") := by
  cases severity with
  | none => exact ⟨rfl, rfl⟩
  | some value =>
      cases value with
      | string units =>
          by_cases herror : units = Utf16.ofText "error"
          · subst herror
            exact ⟨rfl, rfl⟩
          · by_cases hwarning : units = Utf16.ofText "warning"
            · subst hwarning
              exact ⟨rfl, rfl⟩
            · have hother : severityOf (some (.string units)) = .other "info" := by
                show (if _ then _ else if _ then _ else _) = _
                rw [if_neg herror, if_neg hwarning]
              rw [hother]
              exact ⟨(beq_eq_false_iff_ne.2 herror).symm, (beq_eq_false_iff_ne.2 hwarning).symm⟩
      | _ => exact ⟨rfl, rfl⟩

theorem severity_of_diagnosticOf (h : diagnosticOf entry = .ok d) :
    d.isError = entry.saysError ∧ d.isWarning = entry.saysWarning ∧ d.unitName = none := by
  obtain ⟨members, hmembers, hmade⟩ := exists_of_bind_eq_ok h
  obtain rfl := membersOf_eq_ok_iff.1 hmembers
  have hd : d.severity = severityOf (Json.member? members "severity") ∧ d.unitName = none := by
    dsimp only at hmade
    split at hmade
    all_goals
      obtain ⟨location, -, hmade⟩ := exists_of_bind_eq_ok hmade
      obtain rfl := Except.ok.inj hmade
      exact ⟨rfl, rfl⟩
  have hseverity := severityOf_iff (Json.member? members "severity")
  rw [Diagnostic.isError, Diagnostic.isWarning, hd.1]
  exact ⟨hseverity.1, hseverity.2, hd.2⟩

theorem exists_diagnosticOf_iff (h : entry.IsObject) :
    (∃ d, diagnosticOf entry = .ok d) ↔ entry.Located := by
  obtain ⟨members, rfl⟩ := h
  constructor
  · intro ⟨d, h⟩ place hplace
    obtain ⟨_, hmembers, h⟩ := exists_of_bind_eq_ok h
    obtain rfl := Except.ok.inj hmembers
    have hgiven : (Json.member? members "sourceLocation").getD .null = place := by
      rw [show Json.member? members "sourceLocation" = some place from hplace, Option.getD_some]
    dsimp only at h
    split at h
    · next hempty => exact Or.inl (hgiven ▸ hempty)
    · obtain ⟨location, hlocation, -⟩ := exists_of_bind_eq_ok h
      rw [membersOf_eq_ok_iff, hgiven] at hlocation
      exact Or.inr ⟨location, hlocation⟩
  · intro hlocated
    simp only [diagnosticOf, membersOf, bind, Except.bind]
    by_cases hempty : ((Json.member? members "sourceLocation").getD .null).isEmptyValue = true
    · rw [if_pos hempty]
      exact ⟨_, rfl⟩
    · rw [if_neg hempty]
      cases hplace : Json.member? members "sourceLocation" with
      | none =>
          rw [hplace] at hempty
          exact absurd rfl hempty
      | some place =>
          rw [hplace, Option.getD_some] at hempty
          obtain ⟨location, rfl⟩ := (hlocated place hplace).resolve_left hempty
          exact ⟨_, rfl⟩

end Entry

/-! ### Sources -/

section Sources

variable {output : Json} {entries : List Json} {members : List (Utf16 × Json)}

private theorem contractOf?_eq (hshape : (Json.object members).StandardShape entries)
    (source : Text) : contractOf? (contractsIn members) source
      = .ok ((Json.object members).contract? source (contractName source)) := by
  have hheld : ∀ ofSource : Option Json, (∀ value, ofSource = some value → value.IsObject) →
      (membersOf (ofSource.getD (.object [])) >>= fun ofSource =>
        match Json.member? ofSource (contractName source) with
        | none | some .null => pure none
        | some contract => pure (some contract) : Except ShapeFault (Option Json))
        = .ok (match ofSource.bind (·.field? (contractName source)) with
          | none | some .null => none
          | some contract => some contract) := by
    intro ofSource hobject
    cases ofSource with
    | none => rfl
    | some value =>
        obtain ⟨held, rfl⟩ := hobject value rfl
        show (match Json.member? held (contractName source) with
          | none | some .null => pure none
          | some contract => pure (some contract) : Except ShapeFault (Option Json))
            = .ok (match Json.member? held (contractName source) with
              | none | some .null => none
              | some contract => some contract)
        cases Json.member? held (contractName source) with
        | none => rfl
        | some contract => cases contract <;> rfl
  rw [contractsIn, contractOf?, Json.contract?]
  cases hall : Json.member? members "contracts" with
  | none =>
      have hfield : (Json.object members).field? "contracts" = none := hall
      rw [hfield]
      exact hheld none (by simp)
  | some contracts =>
      have hfield : (Json.object members).field? "contracts" = some contracts := hall
      obtain ⟨⟨ofSources, rfl⟩, hobjects⟩ := hshape.contracts contracts hfield
      rw [hfield]
      exact hheld (Json.member? ofSources source) fun value hvalue => hobjects source value hvalue

/-- What is collected from the diagnostics of an output for some sources. -/
def collectedFrom (output : Json) (sources : List Text) (diagnostics : List Diagnostic) :
    CompilerOutput :=
  let held (source : Text) : Option Json := output.contract? source (contractName source)
  let errors := diagnostics.filter Diagnostic.isError
  { artifacts := .ofList
      (sources.filterMap fun source => (held source).map (artifactName source, ·))
    errors
    warnings := diagnostics.filter Diagnostic.isWarning ++
      if errors.isEmpty then (sources.filter fun source => (held source).isNone).map missingContract
      else [] }

private theorem foldlM_collectSource_eq {contracts : Json} {sources : List Text}
    {held : Text → Option Json}
    (h : ∀ source ∈ sources, contractOf? contracts source = .ok (held source))
    (start : CompilerOutput) :
    sources.foldlM (collectSource contracts) start = .ok
      { artifacts := start.artifacts.insertAll
          (sources.filterMap fun source => (held source).map (artifactName source, ·))
        errors := start.errors
        warnings := start.warnings ++ if start.errors.isEmpty then
          (sources.filter fun source => (held source).isNone).map missingContract else [] } := by
  induction sources generalizing start with
  | nil =>
      rw [List.filter_nil, List.map_nil, ite_self, List.append_nil]
      rfl
  | cons source rest ih =>
      rw [List.forall_mem_cons] at h
      rw [List.foldlM_cons]
      cases hheld : held source with
      | some contract =>
          rw [hheld] at h
          rw [collectSource_of_some h.1, List.filter_cons_of_neg (by simp [hheld])]
          refine (ih h.2 _).trans ?_
          simp [hheld, Table.insertAll_cons]
      | none =>
          rw [hheld] at h
          rw [collectSource_of_none h.1, List.filter_cons_of_pos (by simp [hheld])]
          refine (ih h.2 _).trans ?_
          by_cases herrors : start.errors.isEmpty
          · rw [if_pos herrors]
            simp [hheld, herrors]
          · rw [if_neg herrors]
            simp [hheld, herrors]

/-- **Collecting an output of the standard shape can fail only where a message becomes a
diagnostic.** -/
theorem collectOutput_eq (hshape : output.StandardShape entries) (sources : List Text) :
    collectOutput output sources
      = (entries.mapM diagnosticOf).map (collectedFrom output sources) := by
  obtain ⟨members, rfl⟩ := hshape.isObject
  have hlisted : diagnosticsOf members = entries.mapM diagnosticOf := by
    rw [diagnosticsOf]
    rcases hshape.listed with hsome | ⟨hnone, rfl⟩
    · rw [show Json.member? members "errors" = some (.array entries) from hsome]
      rfl
    · rw [show Json.member? members "errors" = none from hnone]
      rfl
  show (diagnosticsOf members >>= fun diagnostics =>
    sources.foldlM (collectSource (contractsIn members)) _) = _
  rw [hlisted]
  cases entries.mapM diagnosticOf with
  | error fault => rfl
  | ok diagnostics =>
      exact foldlM_collectSource_eq (fun source _ => contractOf?_eq hshape source) _

end Sources

/-! ### How sources end -/

/-- The warnings that name a source. -/
def CompilerOutput.warningsOf (result : CompilerOutput) (source : Text) : List Diagnostic :=
  result.warnings.filter fun d => d.unitName == some source

/-- How a source ends. -/
inductive Outcome
  /-- Its contract is an artifact. -/
  | kept
  /-- It has none, and a warning says so. -/
  | missing
  /-- It has none, and errors say enough. -/
  | passedOver

/-- What each way to end is, for the source with this stem in this directory. -/
def EndsAs (output : Json) (result : CompilerOutput) (source directory stem : Text) :
    Outcome → Prop
  | .kept => ∃ contract, output.contract? source stem = some contract ∧
      result.artifacts.get? (directory ++ stem) = some contract ∧ result.warningsOf source = []
  | .missing => output.contract? source stem = none ∧ result.errors = [] ∧
      result.artifacts.get? (directory ++ stem) = none ∧
      result.warningsOf source = [missingContract source]
  | .passedOver => output.contract? source stem = none ∧ result.errors ≠ [] ∧
      result.artifacts.get? (directory ++ stem) = none ∧ result.warningsOf source = []

theorem EndsAs.unique {output : Json} {result : CompilerOutput} {source directory stem : Text}
    {outcome other : Outcome} (h : EndsAs output result source directory stem outcome)
    (h' : EndsAs output result source directory stem other) : outcome = other := by
  cases outcome with
  | kept =>
      obtain ⟨contract, hcontract, -⟩ := h
      cases other with
      | kept => rfl
      | missing | passedOver =>
          rw [EndsAs, hcontract] at h'
          cases h'.1
  | missing =>
      cases other with
      | missing => rfl
      | passedOver => exact absurd h.2.1 h'.2.1
      | kept =>
          obtain ⟨contract, hcontract, -⟩ := h'
          rw [EndsAs, hcontract] at h
          cases h.1
  | passedOver =>
      cases other with
      | passedOver => rfl
      | missing => exact absurd h'.2.1 h.2.1
      | kept =>
          obtain ⟨contract, hcontract, -⟩ := h'
          rw [EndsAs, hcontract] at h
          cases h.1

/-- Everything in an output is accounted for once. -/
structure Accounts (output : Json) (entries : List Json) (sources : List Text)
    (result : CompilerOutput) : Prop where
  errors : List.Forall₂ (fun entry d => diagnosticOf entry = .ok d)
    (entries.filter Json.saysError) result.errors
  /-- The warnings that name no unit are those of the messages. -/
  warnings : List.Forall₂ (fun entry d => diagnosticOf entry = .ok d)
    (entries.filter Json.saysWarning) (result.warnings.filter fun d => d.unitName.isNone)
  /-- Other warnings are about sources. -/
  told : ∀ d ∈ result.warnings, ∀ name, d.unitName = some name → name ∈ sources
  outcome : ∀ source ∈ sources, ∀ directory stem, NamedAfter source directory stem →
    ∃! outcome, EndsAs output result source directory stem outcome
  /-- Other artifacts there are none. -/
  artifacts : ∀ name ∈ result.artifacts.keys, name ++ sourceEnding ∈ sources
  /-- Each artifact is that of one source. -/
  apart : ∀ source ∈ sources, ∀ other ∈ sources, artifactName source = artifactName other →
    source = other

section Collected

variable {output : Json} {sources : List Text} {diagnostics : List Diagnostic} {source : Text}

theorem get?_artifacts_collectedFrom (hnodup : sources.Nodup)
    (hnames : ∀ source ∈ sources, isSourceName source) {name : Text} {contract : Json} :
    (collectedFrom output sources diagnostics).artifacts.get? name = some contract ↔
      ∃ source ∈ sources, artifactName source = name ∧
        output.contract? source (contractName source) = some contract := by
  have hmem : ∀ pair : Text × Json, pair ∈ sources.filterMap (fun source =>
        (output.contract? source (contractName source)).map (artifactName source, ·)) ↔
      ∃ source ∈ sources, artifactName source = pair.1 ∧
        output.contract? source (contractName source) = some pair.2 := by
    intro pair
    simp only [List.mem_filterMap, Option.map_eq_some_iff, Prod.ext_iff]
    constructor
    · rintro ⟨source, hsource, contract, hcontract, hname, rfl⟩
      exact ⟨source, hsource, hname, hcontract⟩
    · rintro ⟨source, hsource, hname, hcontract⟩
      exact ⟨source, hsource, pair.2, hcontract, hname, rfl⟩
  -- Sources with different names have artifacts with different names.
  have hdistinct : ((sources.filterMap fun source =>
      (output.contract? source (contractName source)).map (artifactName source, ·)).map
        Prod.fst).Nodup := by
    refine List.pairwise_map.2 (List.pairwise_filterMap.2 (hnodup.imp_of_mem ?_))
    intro source other hsource hother hne pair hpair pair' hpair' heq
    obtain ⟨_, -, rfl⟩ := Option.map_eq_some_iff.1 hpair
    obtain ⟨_, -, rfl⟩ := Option.map_eq_some_iff.1 hpair'
    exact hne (artifactName_inj (hnames source hsource) (hnames other hother) heq)
  constructor
  · intro h
    exact (hmem (name, contract)).1 (Table.mem_of_get?_ofList h)
  · intro h
    rw [collectedFrom, Table.get?, Table.entries_ofList hdistinct]
    exact Table.find?_of_mem hdistinct ((hmem (name, contract)).2 h)

theorem warningsOf_collectedFrom (hnodup : sources.Nodup)
    (hunnamed : ∀ d ∈ diagnostics, d.unitName = none) (hsource : source ∈ sources) :
    (collectedFrom output sources diagnostics).warningsOf source
      = if (diagnostics.filter Diagnostic.isError).isEmpty = true ∧
          (output.contract? source (contractName source)).isNone = true
        then [missingContract source] else [] := by
  have hmessages : (diagnostics.filter Diagnostic.isWarning).filter
      (fun d => d.unitName == some source) = [] := by
    refine List.filter_eq_nil_iff.2 fun d hd => ?_
    rw [hunnamed d (List.mem_filter.1 hd).1]
    exact Bool.false_ne_true
  have hname : ((fun d : Diagnostic => d.unitName == some source) ∘ missingContract)
      = (· == source) := rfl
  rw [CompilerOutput.warningsOf, collectedFrom, List.filter_append, hmessages, List.nil_append]
  by_cases herrors : (diagnostics.filter Diagnostic.isError).isEmpty = true
  · rw [if_pos herrors, List.filter_map, hname, List.filter_beq]
    by_cases hnone : (output.contract? source (contractName source)).isNone = true
    · have hone : (sources.filter fun source =>
          (output.contract? source (contractName source)).isNone).count source = 1 :=
        List.count_eq_one_of_mem (hnodup.filter _) (List.mem_filter.2 ⟨hsource, hnone⟩)
      rw [if_pos ⟨herrors, hnone⟩, hone]
      rfl
    · have hzero : (sources.filter fun source =>
          (output.contract? source (contractName source)).isNone).count source = 0 :=
        List.count_eq_zero.2 fun h => hnone (List.mem_filter.1 h).2
      rw [if_neg fun h => hnone h.2, hzero]
      rfl
  · rw [if_neg herrors, if_neg fun h => herrors h.1]
    rfl

variable {entries : List Json}

private theorem forall₂_filter {p : Json → Bool} {q : Diagnostic → Bool}
    (h : List.Forall₂ (fun entry d => diagnosticOf entry = .ok d) entries diagnostics)
    (hpq : ∀ entry d, diagnosticOf entry = .ok d → p entry = q d) :
    List.Forall₂ (fun entry d => diagnosticOf entry = .ok d) (entries.filter p)
      (diagnostics.filter q) :=
  List.rel_filter (fun entry d hd => Bool.eq_iff_iff.1 (hpq entry d hd)) h

theorem endsAs_collectedFrom {directory stem : Text} (hnodup : sources.Nodup)
    (hnames : ∀ source ∈ sources, isSourceName source)
    (hunnamed : ∀ d ∈ diagnostics, d.unitName = none) (hsource : source ∈ sources)
    (hname : NamedAfter source directory stem) :
    ∃! outcome, EndsAs output (collectedFrom output sources diagnostics) source directory stem
      outcome := by
  have hartifact : (collectedFrom output sources diagnostics).artifacts.get? (directory ++ stem)
      = output.contract? source stem := by
    refine Option.ext fun contract => ?_
    rw [get?_artifacts_collectedFrom hnodup hnames, ← hname.artifactName_eq]
    constructor
    · rintro ⟨other, hother, heq, hcontract⟩
      obtain rfl := artifactName_inj (hnames other hother) (hnames source hsource) heq
      rwa [hname.contractName_eq] at hcontract
    · intro hcontract
      rw [← hname.contractName_eq] at hcontract
      exact ⟨source, hsource, rfl, hcontract⟩
  have hwarnings : (collectedFrom output sources diagnostics).warningsOf source
      = if (diagnostics.filter Diagnostic.isError).isEmpty = true ∧
          (output.contract? source stem).isNone = true
        then [missingContract source] else [] := by
    rw [warningsOf_collectedFrom hnodup hunnamed hsource, hname.contractName_eq]
  refine existsUnique_of_exists_of_unique ?_ fun _ _ => EndsAs.unique
  cases hcontract : output.contract? source stem with
  | some contract =>
      rw [hcontract] at hartifact hwarnings
      exact ⟨.kept, contract, hcontract, hartifact, by simpa using hwarnings⟩
  | none =>
      rw [hcontract] at hartifact hwarnings
      by_cases herrors : diagnostics.filter Diagnostic.isError = []
      · exact ⟨.missing, hcontract, herrors, hartifact, by simpa [herrors] using hwarnings⟩
      · refine ⟨.passedOver, hcontract, herrors, hartifact, ?_⟩
        rw [hwarnings, if_neg fun h => herrors (List.isEmpty_iff.1 h.1)]

/-- Behind the warnings of the messages stand those about sources. -/
theorem exists_warnings_collectedFrom (output : Json) (sources : List Text)
    (diagnostics : List Diagnostic) :
    ∃ missing, (collectedFrom output sources diagnostics).warnings
        = diagnostics.filter Diagnostic.isWarning ++ missing ∧
      ∀ d ∈ missing, ∃ source ∈ sources, d.unitName = some source := by
  refine ⟨_, rfl, ?_⟩
  intro d hd
  split at hd
  · obtain ⟨source, hsource, rfl⟩ := List.mem_map.1 hd
    exact ⟨source, (List.mem_filter.1 hsource).1, rfl⟩
  · cases hd

/-- **What is collected accounts for the output.** -/
theorem accounts_collectedFrom (hnodup : sources.Nodup)
    (hnames : ∀ source ∈ sources, isSourceName source)
    (h : List.Forall₂ (fun entry d => diagnosticOf entry = .ok d) entries diagnostics) :
    Accounts output entries sources (collectedFrom output sources diagnostics) := by
  have hunnamed : ∀ d ∈ diagnostics, d.unitName = none := by
    intro d hd
    obtain ⟨entry, -, hentry⟩ := exists_mem_of_mapM (mapM_eq_ok_iff.2 h) d hd
    exact (severity_of_diagnosticOf hentry).2.2
  obtain ⟨missing, hwarnings, hmissing⟩ := exists_warnings_collectedFrom output sources diagnostics
  constructor
  case errors => exact forall₂_filter h fun entry d hd => (severity_of_diagnosticOf hd).1.symm
  case warnings =>
    have hmessages : (diagnostics.filter Diagnostic.isWarning).filter
        (fun d => d.unitName.isNone) = diagnostics.filter Diagnostic.isWarning := by
      refine List.filter_eq_self.2 fun d hd => ?_
      rw [hunnamed d (List.mem_filter.1 hd).1]
      rfl
    have hsources : missing.filter (fun d => d.unitName.isNone) = [] := by
      refine List.filter_eq_nil_iff.2 fun d hd => ?_
      obtain ⟨source, -, hname⟩ := hmissing d hd
      simp [hname]
    rw [hwarnings, List.filter_append, hmessages, hsources, List.append_nil]
    exact forall₂_filter h fun entry d hd => (severity_of_diagnosticOf hd).2.1.symm
  case told =>
    intro d hd name hname
    rw [hwarnings] at hd
    rcases List.mem_append.1 hd with hd | hd
    · rw [hunnamed d (List.mem_filter.1 hd).1] at hname
      cases hname
    · obtain ⟨source, hsource, hgiven⟩ := hmissing d hd
      rw [hgiven] at hname
      cases hname
      exact hsource
  case outcome =>
    intro source hsource directory stem hname
    exact endsAs_collectedFrom hnodup hnames hunnamed hsource hname
  case artifacts =>
    intro name hname
    obtain ⟨contract, hcontract⟩ := Table.mem_keys_iff.1 hname
    obtain ⟨source, hsource, rfl, -⟩ :=
      (get?_artifacts_collectedFrom hnodup hnames).1 hcontract
    rw [artifactName_append (hnames source hsource)]
    exact hsource
  case apart =>
    intro source hsource other hother heq
    exact artifactName_inj (hnames source hsource) (hnames other hother) heq

end Collected

/-! ### Whole outputs -/

/-- **An output of the standard shape is collected exactly if its messages say no place that is
not empty and no object, and then everything in it is accounted for once.** -/
theorem collectOutput_accounts {output : Json} {entries : List Json} {sources : Table Text Text}
    (hshape : output.StandardShape entries)
    (hnames : ∀ source ∈ sources.keys, ∃ directory stem, NamedAfter source directory stem) :
    ((∃ result, collectOutput output sources.keys = .ok result) ↔
      ∀ entry ∈ entries, entry.Located) ∧
    ∀ result, collectOutput output sources.keys = .ok result →
      Accounts output entries sources.keys result := by
  have hendings : ∀ source ∈ sources.keys, isSourceName source := by
    intro source hsource
    obtain ⟨directory, stem, hname⟩ := hnames source hsource
    exact hname.isSourceName
  rw [collectOutput_eq hshape]
  constructor
  · have hentries : (∀ entry ∈ entries, entry.Located) ↔
        ∃ diagnostics, entries.mapM diagnosticOf = .ok diagnostics := by
      rw [exists_mapM_iff]
      exact forall₂_congr fun entry hentry =>
        (exists_diagnosticOf_iff (hshape.messages entry hentry)).symm
    rw [hentries]
    cases entries.mapM diagnosticOf with
    | error fault =>
        refine iff_of_false ?_ ?_
        · intro hcollected
          obtain ⟨_, h⟩ := hcollected
          cases h
        · intro hmessages
          obtain ⟨_, h⟩ := hmessages
          cases h
    | ok diagnostics => exact iff_of_true ⟨_, rfl⟩ ⟨_, rfl⟩
  · intro result h
    cases hmessages : entries.mapM diagnosticOf with
    | error fault =>
        rw [hmessages] at h
        cases h
    | ok diagnostics =>
        rw [hmessages] at h
        obtain rfl := Except.ok.inj h
        exact accounts_collectedFrom sources.distinct hendings (mapM_eq_ok_iff.1 hmessages)

/-- A message that warns. -/
def warningMessage : Json :=
  .ofMembers [("severity", .ofText "warning"), ("message", .ofText "w")]

/-- An output with a warning and the contract of one source. -/
def partialOutput : Json :=
  .ofMembers [("errors", .array [warningMessage]),
    ("contracts", .ofMembers [("t/Token.sol", .ofMembers [("Token", .bool true)])])]

/-- Two sources, of which the output holds one. -/
def partialSources : Table Text Text := .ofList [("t/Token.sol".toList, []), ("A.sol".toList, [])]

private theorem partialOutput_standardShape : partialOutput.StandardShape [warningMessage] := by
  constructor
  case isObject => exact ⟨_, rfl⟩
  case listed => exact Or.inl rfl
  case messages =>
    intro entry hentry
    rw [List.mem_singleton.1 hentry]
    exact ⟨_, rfl⟩
  case contracts =>
    intro contracts hcontracts
    obtain rfl := Option.some.inj hcontracts
    refine ⟨⟨_, rfl⟩, fun source ofSource hsource => ?_⟩
    obtain ⟨member, hfound, rfl⟩ := Option.map_eq_some_iff.1 hsource
    rw [List.mem_singleton.1 (List.mem_of_find?_eq_some hfound)]
    exact ⟨_, rfl⟩

/-- The one is an artifact, and a warning is about the other. -/
theorem partialOutput_accounted :
    partialOutput.StandardShape [warningMessage] ∧
    (∀ source ∈ partialSources.keys, ∃ directory stem, NamedAfter source directory stem) ∧
    ∃ result, collectOutput partialOutput partialSources.keys = .ok result ∧
      EndsAs partialOutput result "t/Token.sol" "t/" "Token" .kept ∧
      EndsAs partialOutput result "A.sol" [] "A" .missing := by
  have htoken : NamedAfter "t/Token.sol" "t/" "Token" :=
    ⟨rfl, Or.inr rfl, by decide, by decide⟩
  have ha : NamedAfter "A.sol" [] "A" := ⟨rfl, Or.inl rfl, by decide, by decide⟩
  have hkeys : partialSources.keys = ["t/Token.sol".toList, "A.sol".toList] := rfl
  have hnames : ∀ source ∈ partialSources.keys,
      ∃ directory stem, NamedAfter source directory stem := by
    rw [hkeys, List.forall_mem_cons, List.forall_mem_singleton]
    exact ⟨⟨_, _, htoken⟩, ⟨_, _, ha⟩⟩
  obtain ⟨hcollected, haccounts⟩ := collectOutput_accounts partialOutput_standardShape hnames
  obtain ⟨result, hresult⟩ : ∃ result, collectOutput partialOutput partialSources.keys
      = .ok result := by
    refine hcollected.2 fun entry hentry place hplace => ?_
    rw [List.mem_singleton.1 hentry] at hplace
    cases hplace
  have hall := haccounts result hresult
  refine ⟨partialOutput_standardShape, hnames, result, hresult, ?_, ?_⟩
  · obtain ⟨outcome, hends, -⟩ := hall.outcome _ (by rw [hkeys]; simp) _ _ htoken
    cases outcome with
    | kept => exact hends
    | missing | passedOver => cases hends.1
  · obtain ⟨outcome, hends, -⟩ := hall.outcome _ (by rw [hkeys]; simp) _ _ ha
    cases outcome with
    | missing => exact hends
    | kept =>
        obtain ⟨contract, hcontract, -⟩ := hends
        cases hcontract
    | passedOver => exact absurd (List.forall₂_nil_left_iff.1 hall.errors) hends.2.1

/-- A message whose place is a text. -/
def misplaced : Json := .ofMembers [("sourceLocation", .ofText "A.sol")]

/-- An output that lists it has the standard shape and is not collected. -/
theorem misplaced_not_collected :
    (Json.ofMembers [("errors", .array [misplaced])]).StandardShape [misplaced] ∧
      NamedAfter "A.sol" [] "A" ∧
      collectOutput (.ofMembers [("errors", .array [misplaced])]) ["A.sol".toList]
        = .error .unsupportedAccess := by
  refine ⟨?_, ⟨rfl, Or.inl rfl, by decide, by decide⟩, rfl⟩
  constructor
  case isObject => exact ⟨_, rfl⟩
  case listed => exact Or.inl rfl
  case messages =>
    intro entry hentry
    rw [List.mem_singleton.1 hentry]
    exact ⟨_, rfl⟩
  case contracts =>
    intro contracts hcontracts
    cases hcontracts

end SolidityBundler
