/-
Units that an entry does not reach do not matter.

A walk asks the index only about the statements of units that the entry reaches.  If a smaller
index gives these statements the same targets, a bundler over it does step by step what a
bundler over the full index does: exchanging the index under a bundler, which is what `on`
does, commutes with every operation on reached units.

A smaller index over texts gives them the same targets as soon as it keeps what the entry
reaches.  The target of a statement of a reached unit is reached itself, so it is kept, and
`lookup?_of_within` says that a kept unit keeps the name that led to it.  An index from which units
are taken out keeps its other aliases as they are, and `lookup?_without` says the same of it.
-/
import SolidityBundler.Proofs.Index.Merged
import SolidityBundler.Proofs.InlineOrder
import SolidityBundler.Proofs.Resolution

namespace SolidityBundler

/-- The bundler with another index underneath. -/
def Bundler.on (b : Bundler) (index : UnitIndex) : Bundler := { b with index }

/-- The two indexes agree about the statements of every unit that the entry reaches. -/
def UnitIndex.AgreeFrom (small full : UnitIndex) (entry : SourceUnit) : Prop :=
  ∀ unit, full.Reaches entry unit → ∀ edge ∈ unit.imports,
    Agree small full unit.name edge.specifier

variable {small full : UnitIndex} {entry unit : SourceUnit} {edge : ImportEdge} {b : Bundler}

/-! ### Operations on a reached unit -/

namespace Bundler

theorem Sound.resolve_on (hb : b.Sound full)
    (hagree : UnitIndex.Agree small full unit.name edge.specifier) :
    (b.on small).resolve unit edge
      = ((b.resolve unit edge).1, (b.resolve unit edge).2.on small) := by
  obtain ⟨hname, htarget⟩ := hagree
  obtain rfl := hb.index_eq
  cases hmemo : b.resolutions.get? (unit.key, edge.specifier) with
  | some name =>
      have hremembered := hb.remembered _ _ _ hmemo
      have hlookup : name.bind small.lookup? = name.bind b.index.lookup? := by
        rw [hremembered]
        exact (congrArg (·.bind small.lookup?) hname).symm.trans htarget
      have hmemo' : (b.on small).resolutions.get? (unit.key, edge.specifier) = some name := hmemo
      unfold Bundler.resolve
      rw [hmemo, hmemo']
      exact congrArg (·, b.on small) hlookup
  | none =>
      rw [resolve_of_new hmemo, resolve_of_new (b := b.on small) hmemo]
      cases hfound : b.index.target? unit.name edge.specifier with
      | some target =>
          rw [resolveNew_of_some hfound, resolveNew_of_some (b := b.on small)
            (htarget.trans hfound)]
          show (_, ((b.on small).remember _ _ (small.targetName? _ _)).tell _) = _
          rw [hname]
          rfl
      | none =>
          rw [resolveNew_of_none hfound, resolveNew_of_none (b := b.on small)
            (htarget.trans hfound)]
          show (_, ((b.on small).remember _ _ (small.targetName? _ _)).report _) = _
          rw [hname]
          rfl

private theorem reportCycle_on (b : Bundler) (members : List SourceUnit) (edge : ImportEdge)
    (index : UnitIndex) :
    (b.on index).reportCycle members edge = (b.reportCycle members edge).on index := by
  have hreported : (b.on index).reportedCycles = b.reportedCycles := rfl
  unfold reportCycle
  simp only
  rw [hreported]
  split <;> rfl

theorem Sound.resolved_on (hb : b.Sound full) {edges : List ImportEdge}
    (hagree : ∀ edge ∈ edges, UnitIndex.Agree small full unit.name edge.specifier) :
    (b.on small).resolved unit edges
      = ((b.resolved unit edges).1, (b.resolved unit edges).2.on small) := by
  induction edges generalizing b with
  | nil => rfl
  | cons edge edges ih =>
      rw [List.forall_mem_cons] at hagree
      rw [Bundler.resolved, Bundler.resolved, hb.resolve_on hagree.1]
      simp only [ih (hb.resolve unit edge) hagree.2]

theorem Sound.inlinedText_on (hb : b.Sound full)
    (hagree : ∀ edge ∈ unit.imports, UnitIndex.Agree small full unit.name edge.specifier) :
    (b.on small).inlinedText unit = ((b.inlinedText unit).1, (b.inlinedText unit).2.on small) := by
  have htexts : (b.on small).inlinedTexts = b.inlinedTexts := rfl
  unfold Bundler.inlinedText
  rw [htexts]
  cases b.inlinedTexts.get? unit.key with
  | some text => rfl
  | none =>
      simp only [hb.resolved_on hagree]
      rfl

theorem Sound.sections_on (hkeyed : full.WellKeyed) (hb : b.Sound full)
    {units : List SourceUnit} (hunits : ∀ unit ∈ units, unit ∈ full.units)
    (hagree : ∀ unit ∈ units, ∀ edge ∈ unit.imports,
      UnitIndex.Agree small full unit.name edge.specifier) :
    (b.on small).sections units = ((b.sections units).1, (b.sections units).2.on small) := by
  induction units generalizing b with
  | nil => rfl
  | cons unit units ih =>
      rw [List.forall_mem_cons] at hunits hagree
      rw [Bundler.sections, Bundler.sections, hb.inlinedText_on hagree.1]
      simp only [ih (hb.inlinedText hkeyed hunits.1) hunits.2 hagree.2]

end Bundler

/-! ### The walk -/

namespace Walk

theorem follow_on (b : Bundler) (w : Walk) (edge : ImportEdge) (target : SourceUnit)
    (index : UnitIndex) :
    follow (b.on index) w edge target
      = ((follow b w edge target).1.on index, (follow b w edge target).2) := by
  unfold follow
  split
  · rfl
  · rw [Bundler.reportCycle_on]
  · rfl

theorem step?_on (hagree : small.AgreeFrom full entry) (hb : b.Sound full) {w : Walk}
    (hw : Consistent full entry w) :
    step? (b.on small) w = (step? b w).map fun next => (next.1.on small, next.2) := by
  match hstack : w.stack with
  | [] => rw [step?_eq_none_iff.2 hstack, step?_eq_none_iff.2 hstack, Option.map_none]
  | { unit, pending := [] } :: below =>
      unfold step?
      rw [hstack]
      rfl
  | { unit, pending := edge :: pending } :: below =>
      have hreached : full.Reaches entry unit := by
        refine hw.reached unit (Or.inl ?_)
        rw [stacked_of_stack hstack]
        exact List.mem_cons_self
      have hedge : edge ∈ unit.imports :=
        hw.pending { unit, pending := edge :: pending } (by rw [hstack]; exact List.mem_cons_self)
          edge List.mem_cons_self
      rw [step?_of_edge hstack, step?_of_edge hstack,
        hb.resolve_on (hagree unit hreached edge hedge)]
      cases (b.resolve unit edge).1 with
      | none => rfl
      | some target => exact congrArg some (follow_on _ _ edge target small)

theorem run_on (hkeyed : full.WellKeyed) (hentry : entry ∈ full.units)
    (hagree : small.AgreeFrom full entry) {w : Walk} (hw : Consistent full entry w)
    (hb : b.Sound full) : run (b.on small) w = ((run b w).1.on small, (run b w).2) := by
  induction b, w using run.induct with
  | case1 b w hnone =>
      have hnone' : step? (b.on small) w = none := by
        rw [step?_on hagree hb hw, hnone, Option.map_none]
      rw [run, hnone', run, hnone]
  | case2 b w b' w' hsome ih =>
      have hsome' : step? (b.on small) w = some (b'.on small, w') := by
        rw [step?_on hagree hb hw, hsome, Option.map_some]
      have hmove := move_of_step? hb hsome
      rw [run, hsome', run, hsome]
      exact ih (hw.move hmove) (hw.sound_move hkeyed hentry hb hmove).1

end Walk

/-! ### A whole call -/

namespace Bundler

theorem Sound.inlineOrder_on (hkeyed : full.WellKeyed) (hentry : entry ∈ full.units)
    (hagree : small.AgreeFrom full entry) (hb : b.Sound full) :
    (b.on small).inlineOrder entry = ((b.inlineOrder entry).1, (b.inlineOrder entry).2.on small) := by
  rw [Bundler.inlineOrder, Bundler.inlineOrder,
    Walk.run_on hkeyed hentry hagree (Walk.consistent_start full entry) hb]

theorem Sound.bundle_on (hkeyed : full.WellKeyed) (hentry : entry ∈ full.units)
    (hagree : small.AgreeFrom full entry) (hb : b.Sound full) :
    (b.on small).bundle entry = ((b.bundle entry).1, (b.bundle entry).2.on small) := by
  obtain ⟨w, horder, hw⟩ := hb.finished hkeyed hentry
  have hreached : ∀ unit ∈ (b.inlineOrder entry).1, full.Reaches entry unit := by
    intro unit hunit
    rw [hb.inlineOrder_eq hkeyed hentry, ← horder] at hunit
    exact (hw.mem_order_iff hkeyed hentry unit).1 hunit
  have hsections := hw.sound.sections_on hkeyed
    (fun unit hunit => (hreached unit hunit).mem_units hentry)
    (fun unit hunit => hagree unit (hreached unit hunit))
  simp only [Bundler.bundle, hb.inlineOrder_on hkeyed hentry hagree, hsections]
  rfl

/-- **A call for the entry gives the same over both indexes**, the problems included. -/
theorem bundleAll_on (hkeyed : full.WellKeyed) {name : Text}
    (hlookup : full.lookup? name = some entry) (hlookup' : small.lookup? name = some entry)
    (hagree : small.AgreeFrom full entry) :
    (ofIndex small).bundleAll [name]
      = (((ofIndex full).bundleAll [name]).1, ((ofIndex full).bundleAll [name]).2.on small) := by
  have hentry := UnitIndex.mem_units_of_lookup? hlookup
  have hsorted : sortedDistinct [name] = [name] := rfl
  have htold := (sound_ofIndex full).tell (.unitStage "Flattening" name)
  have hbundle := htold.bundle_on hkeyed hentry hagree
  have hsmall : (ofIndex small).bundleEach .empty [name]
      = (((ofIndex full).bundleEach .empty [name]).1,
          ((ofIndex full).bundleEach .empty [name]).2.on small) := by
    have hsame : (ofIndex small).tell (.unitStage "Flattening" name)
        = ((ofIndex full).tell (.unitStage "Flattening" name)).on small := rfl
    have hindex : (ofIndex small).index = small := rfl
    have hindex' : (ofIndex full).index = full := rfl
    simp only [bundleEach, hindex, hindex', hlookup, hlookup', hsame, hbundle]
  unfold bundleAll
  rw [hsorted, hsmall]
  rcases (ofIndex full).bundleEach .empty [name] with ⟨result, b⟩
  cases result <;> rfl

end Bundler

/-! ### Units taken out -/

namespace UnitIndex

variable {dropped : List Text} {name : Text}

/-- A unit that stays is found under every name that led to it. -/
theorem lookup?_without (hfiled : full.Filed) (hlookup : full.lookup? name = some unit)
    (hstays : unit.name ∉ dropped) : (full.without dropped).lookup? name = some unit := by
  rw [lookup?_eq_or] at hlookup
  rw [lookup?_eq_or, without, Table.get?_filter, Table.get?_filter, Table.get?_filter]
  cases hproject : full.project.get? name with
  | some found =>
      rw [hproject, Option.some_or] at hlookup
      obtain rfl : found = unit := Option.some.inj hlookup
      have hname : found.name = name := congrArg UnitKey.name (hfiled.project name found hproject)
      simp [← hname, hstays]
  | none =>
      rw [hproject, Option.none_or] at hlookup
      have hname : unit.name = (full.aliases.get? name).getD name :=
        congrArg UnitKey.name (hfiled.library _ unit hlookup)
      -- The alias stays because its target does.
      have halias : (full.aliases.get? name).filter
          (fun target => full.library.contains target && !dropped.contains target)
            = full.aliases.get? name := by
        cases halias : full.aliases.get? name with
        | none => rfl
        | some target =>
            rw [halias, Option.getD_some] at hname hlookup
            obtain rfl := hname
            simp [Table.contains, hlookup, hstays]
      rw [halias, Option.filter_none, Option.none_or, hlookup]
      simp [← hname, hstays]

theorem lookup?_without_eq_none (hclosed : full.Closed) (hlookup : full.lookup? name = none) :
    (full.without dropped).lookup? name = none := by
  rw [lookup?_eq_or, Option.or_eq_none_iff] at hlookup
  obtain ⟨hproject, hlibrary⟩ := hlookup
  have halias : full.aliases.get? name = none := by
    cases halias : full.aliases.get? name with
    | none => rfl
    | some target =>
        obtain ⟨found, hget⟩ := hclosed name target halias
        rw [halias, Option.getD_some, hget] at hlibrary
        cases hlibrary
  rw [halias, Option.getD_none] at hlibrary
  rw [lookup?_eq_or, without, Table.get?_filter, Table.get?_filter, Table.get?_filter, hproject,
    halias, Option.filter_none, Option.filter_none, Option.getD_none, hlibrary]
  rfl

/-- Taking out units that the entry does not reach leaves its statements their targets. -/
theorem agreeFrom_without (hfiled : full.Filed) (hclosed : full.Closed)
    (hstays : ∀ unit, full.Reaches entry unit → unit.name ∉ dropped) :
    (full.without dropped).AgreeFrom full entry := by
  intro unit hreach edge hedge
  refine agree_of_kept (fun name => lookup?_without_eq_none hclosed) ?_
  intro name target htarget hlookup
  exact lookup?_without hfiled hlookup (hstays target (hreach.tail ⟨edge, hedge, htarget⟩))

end UnitIndex

/-- **Units that an entry does not reach can be taken out of an index**: its bundle and its problems
stay as they are. -/
theorem Bundler.bundleAll_without {dropped : List Text} {name : Text} (hfiled : full.Filed)
    (hclosed : full.Closed) (hlookup : full.lookup? name = some entry)
    (hstays : ∀ unit, full.Reaches entry unit → unit.name ∉ dropped) :
    (ofIndex (full.without dropped)).bundleAll [name]
      = (((ofIndex full).bundleAll [name]).1,
          ((ofIndex full).bundleAll [name]).2.on (full.without dropped)) :=
  bundleAll_on hfiled.wellKeyed hlookup
    (UnitIndex.lookup?_without hfiled hlookup (hstays entry .refl))
    (UnitIndex.agreeFrom_without hfiled hclosed hstays)

/-! ### Fewer texts -/

namespace UnitIndex

variable {project library project' library' : Table Text Text}

theorem wellKeyed_overTexts (project library : Table Text Text) :
    (overTexts project library).WellKeyed :=
  wellKeyed_unitsOf project library _

/-- An index that keeps what the entry reaches agrees with the full one about it. -/
theorem agreeFrom_overTexts (hproject : project'.Within project)
    (hlibrary : library'.Within library)
    (hkept : ∀ unit, (overTexts project library).Reaches entry unit →
      Keeps project' library' unit) :
    (overTexts project' library').AgreeFrom (overTexts project library) entry := by
  intro unit hreach edge hedge
  refine agree_of_kept (fun name => lookup?_eq_none_of_within hproject hlibrary) ?_
  intro name target htarget hlookup
  have hreached : (overTexts project library).Reaches entry target :=
    hreach.tail ⟨edge, hedge, htarget⟩
  exact lookup?_of_within hproject hlibrary hlookup (hkept target hreached)

end UnitIndex

namespace Bundler

/-- **Texts that an entry does not reach make no difference to it.**  Over any smaller tables
that keep what the entry reaches, a new bundler gives the same bundles and lists the same
problems, although the aliases are those of the smaller library. -/
theorem bundleAll_ignores_unreached (project library : Table Text Text) :
    ∃ full, UnitIndex.ofTexts project library = .ok full ∧
      ∀ (project' library' : Table Text Text) (name text : Text),
        project'.Within project → library'.Within library → project.get? name = some text →
        (∀ unit, full.Reaches (.ofText .project name text none) unit →
          UnitIndex.Keeps project' library' unit) →
        ∃ small entry bundling, UnitIndex.ofTexts project' library' = .ok small ∧
          full.lookup? name = some entry ∧ small.lookup? name = some entry ∧
          small.inlineOrder entry = full.inlineOrder entry ∧
          ((ofIndex full).bundleAll [name]).1 = .ok bundling ∧
          ((ofIndex small).bundleAll [name]).1 = .ok bundling ∧
          bundling.bundles.get? name = some (full.bundleOf entry) := by
  refine ⟨_, UnitIndex.ofTexts_eq project library, ?_⟩
  intro project' library' name text hproject hlibrary hname hkept
  have hkeyed := UnitIndex.wellKeyed_overTexts project library
  have hlookup : (UnitIndex.overTexts project library).lookup? name
      = some (.ofText .project name text none) := by
    rw [UnitIndex.lookup?_overTexts, UnitIndex.get?_unitsOf, hname]
    rfl
  have hlookup' := UnitIndex.lookup?_of_within hproject hlibrary hlookup
    (hkept _ Relation.ReflTransGen.refl)
  have hagree := UnitIndex.agreeFrom_overTexts hproject hlibrary hkept
  have hentry := UnitIndex.mem_units_of_lookup? hlookup
  have hsound := sound_ofIndex (UnitIndex.overTexts project library)
  have hknown : ∀ other ∈ [name],
      ((UnitIndex.overTexts project library).lookup? other).isSome := by
    intro other hother
    rw [List.mem_singleton.1 hother, hlookup]
    rfl
  obtain ⟨bundling, hok, -, -, -⟩ := hsound.bundleAll_ok hkeyed hknown
  refine ⟨_, _, bundling, UnitIndex.ofTexts_eq project' library', hlookup, hlookup', ?_, hok, ?_,
    ?_⟩
  · have horder := hsound.inlineOrder_on hkeyed hentry hagree
    exact congrArg (fun result => result.1) horder
  · rw [bundleAll_on hkeyed hlookup hlookup' hagree]
    exact hok
  · rw [hsound.get?_bundles hkeyed hok, if_pos List.mem_cons_self, hlookup]
    rfl

/-- A project whose unit `a` reaches a library unit by its suffix `u`, and a unit `z` besides. -/
def suffixProject : Table Text Text := .ofList [(['a'], importOf ['u']), (['z'], importOf ['a'])]

/-- A library with two units that end in `u`; the deeper one misses what it imports. -/
def suffixLibrary : Table Text Text :=
  .ofList [(['x', '/', 'u'], []), (['p', '/', 'q', '/', 'u'], importOf ['.', '/', 'w'])]

/-- Without `z` and without the unit that the suffix does not lead to, the bundle of `a` and the
problem in it stay. -/
theorem suffixProject_ignores_others :
    ∃ full small project' library' bundling,
      UnitIndex.ofTexts suffixProject suffixLibrary = .ok full ∧
      Table.Within project' suffixProject ∧ Table.Within library' suffixLibrary ∧
      suffixProject.get? ['a'] = some (importOf ['u']) ∧
      (∀ unit, full.Reaches (.ofText .project ['a'] (importOf ['u']) none) unit →
        UnitIndex.Keeps project' library' unit) ∧
      project'.get? ['z'] = none ∧ library'.get? ['x', '/', 'u'] = none ∧
      UnitIndex.ofTexts project' library' = .ok small ∧
      ((ofIndex full).bundleAll [['a']]).1 = .ok bundling ∧
      ((ofIndex small).bundleAll [['a']]).1 = .ok bundling := by
  obtain ⟨full, hfull, hsame⟩ := bundleAll_ignores_unreached suffixProject suffixLibrary
  have hfullEq : full = UnitIndex.overTexts suffixProject suffixLibrary :=
    Except.ok.inj (hfull.symm.trans (UnitIndex.ofTexts_eq _ _))
  have hwithin : ∀ (key text : Text) (table : Table Text Text), table.get? key = some text →
      Table.Within (.ofList [(key, text)]) table := by
    intro key text table hget other found hfound
    have hmem := Table.mem_of_get?_ofList hfound
    rw [List.mem_singleton, Prod.mk.injEq] at hmem
    rw [hmem.1, hmem.2]
    exact hget
  have hproject := hwithin ['a'] (importOf ['u']) suffixProject (by decide)
  have hlibrary := hwithin ['p', '/', 'q', '/', 'u'] (importOf ['.', '/', 'w']) suffixLibrary
    (by decide)
  have hkept : ∀ unit, full.Reaches (.ofText .project ['a'] (importOf ['u']) none) unit →
      UnitIndex.Keeps (.ofList [(['a'], importOf ['u'])])
        (.ofList [(['p', '/', 'q', '/', 'u'], importOf ['.', '/', 'w'])]) unit := by
    intro unit hreach
    subst hfullEq
    have hkeyed := UnitIndex.wellKeyed_overTexts suffixProject suffixLibrary
    have hentry : SourceUnit.ofText .project ['a'] (importOf ['u']) none
        ∈ (UnitIndex.overTexts suffixProject suffixLibrary).units := by decide
    obtain ⟨w, horder, hw⟩ := (sound_ofIndex _).finished hkeyed hentry
    have hunit := (hw.mem_order_iff hkeyed hentry unit).2 hreach
    have hlist : (UnitIndex.overTexts suffixProject suffixLibrary).inlineOrder
        (.ofText .project ['a'] (importOf ['u']) none)
        = [.ofText .library ['p', '/', 'q', '/', 'u'] (importOf ['.', '/', 'w']) none,
            .ofText .project ['a'] (importOf ['u']) none] := by decide +kernel
    rw [horder, hlist, List.mem_cons, List.mem_singleton] at hunit
    rcases hunit with rfl | rfl
    · change Table.contains (.ofList [(['p', '/', 'q', '/', 'u'], importOf ['.', '/', 'w'])])
        ['p', '/', 'q', '/', 'u'] = true
      decide
    · change Table.contains (.ofList [(['a'], importOf ['u'])]) ['a'] = true
      decide
  obtain ⟨small, entry, bundling, hsmall, -, -, -, hok, hok', -⟩ :=
    hsame _ _ _ _ hproject hlibrary (by decide) hkept
  exact ⟨full, small, _, _, bundling, hfull, hproject, hlibrary, by decide, hkept, by decide,
    by decide, hsmall, hok, hok'⟩

end Bundler

end SolidityBundler
