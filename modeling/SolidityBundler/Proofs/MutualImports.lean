/-
Which pairs of units that import each other are reported as a pair.

The walk reports a cycle where a statement leads back to the stack, and what it reports is the part
of the path from there on.  So a pair is reported as a pair if one of the two stands right above the
other, that is, if some walk goes directly from the one into the other.  A walk that comes from the
one to the other by a detour reports a longer cycle instead, which names both, and on the way back
the statement between the two leads to a finished unit.

In the walk from one of the two units itself it can be seen from the graph which of the two happens.
While the unit is on the stack, everything that has a mark was reached from the statements that it
has followed, on a way around the unit, and when it is back on top everything that can be reached so
has one.  So the walk goes directly into the other unit exactly if no statement in front of the one
that refers to it leads to it around the unit.
-/
import SolidityBundler.Proofs.Independence
import SolidityBundler.Proofs.Source.Extents
import SolidityBundler.Proofs.Walk.Passes

namespace SolidityBundler

namespace UnitIndex

/-- `v` is `t` itself, or `t` leads to it without coming through `u`. -/
abbrev ReachesAround (index : UnitIndex) (u : SourceUnit) : SourceUnit → SourceUnit → Prop :=
  Relation.ReflTransGen fun x y => index.Imports x y ∧ y ≠ u

/-- One of these statements of `u` leads to `v` around `u`. -/
def LeadAround (index : UnitIndex) (u : SourceUnit) (edges : List ImportEdge) (v : SourceUnit) :
    Prop :=
  ∃ edge ∈ edges, ∃ t, index.target? u.name edge.specifier = some t ∧ t ≠ u ∧
    index.ReachesAround u t v

/-- A statement of `u` refers to `v`, and no statement in front of it leads to `v` around `u`. -/
def ImportsStraight (index : UnitIndex) (u v : SourceUnit) : Prop :=
  ∃ front edge back, u.imports = front ++ edge :: back ∧
    index.target? u.name edge.specifier = some v ∧ ¬ index.LeadAround u front v

variable {index : UnitIndex} {u v w : SourceUnit} {edges edges' : List ImportEdge}

theorem LeadAround.mono (h : index.LeadAround u edges v) (hsub : edges ⊆ edges') :
    index.LeadAround u edges' v := by
  obtain ⟨edge, hedge, hleads⟩ := h
  exact ⟨edge, hsub hedge, hleads⟩

private theorem LeadAround.tail (h : index.LeadAround u edges v) (himports : index.Imports v w)
    (hne : w ≠ u) : index.LeadAround u edges w := by
  obtain ⟨edge, hedge, t, htarget, ht, hreaches⟩ := h
  exact ⟨edge, hedge, t, htarget, ht, hreaches.tail ⟨himports, hne⟩⟩

end UnitIndex

theorem SourceUnit.nodup_imports (unit : SourceUnit) : unit.imports.Nodup := by
  have hinOrder := inOrder_importsOf unit.name unit.text
  rw [← unit.imports_eq] at hinOrder
  refine hinOrder.apart.imp_of_mem ?_
  rintro edge later hedge - hle rfl
  have hbounds := hinOrder.bounds edge hedge
  omega

namespace Walk

variable {index : UnitIndex} {u v : SourceUnit} {b : Bundler} {c : Bundler × Walk} {w w' : Walk}
  {front rest : List ImportEdge}

/-! ### The walk from a unit while the unit is on the stack -/

/-- The unit `u` has followed the statements `front`, and everything else that the walk has come to
was reached from them, on a way around `u`. -/
structure Around (index : UnitIndex) (u : SourceUnit) (front : List ImportEdge) (w : Walk) :
    Prop where
  stack : ∃ above rest, u.imports = front ++ rest ∧
    w.stack = above ++ [{ unit := u, pending := rest }] ∧
    ∀ frame ∈ above, index.LeadAround u front frame.unit
  listed : ∀ unit ∈ w.order, index.LeadAround u front unit

private theorem around_start (index : UnitIndex) (u : SourceUnit) :
    Around index u [] (start u) where
  stack := ⟨[], u.imports, rfl, rfl, by simp⟩
  listed := by simp [start]

theorem Around.finish (h : Around index u front w) {unit : SourceUnit} {below : List Frame}
    (hstack : w.stack = { unit, pending := [] } :: below) (hbelow : below ≠ []) :
    Around index u front (w.finish unit below) := by
  obtain ⟨above, rest, hsplit, hstack', habove⟩ := h.stack
  cases above with
  | nil =>
      rw [hstack, List.nil_append, List.cons.injEq] at hstack'
      exact absurd hstack'.2 hbelow
  | cons top above =>
      rw [hstack, List.cons_append, List.cons.injEq] at hstack'
      obtain ⟨rfl, rfl⟩ := hstack'
      rw [List.forall_mem_cons] at habove
      refine ⟨⟨above, rest, hsplit, rfl, habove.2⟩, fun other hother => ?_⟩
      rcases List.mem_append.1 hother with hlisted | hnew
      · exact h.listed other hlisted
      · rw [List.mem_singleton.1 hnew]
        exact habove.1

/-- A statement that is followed leads around `u` to what it refers to, whether `u` follows it or a
unit above. -/
theorem Around.advance (h : Around index u front w) {unit : SourceUnit} {edge : ImportEdge}
    {pending : List ImportEdge} {below : List Frame}
    (hstack : w.stack = { unit, pending := edge :: pending } :: below)
    (hedge : edge ∈ unit.imports) :
    ∃ front', Around index u front' (w.advance unit pending below) ∧
      ∀ t, index.target? unit.name edge.specifier = some t → t ≠ u →
        index.LeadAround u front' t := by
  obtain ⟨above, rest, hsplit, hstack', habove⟩ := h.stack
  cases above with
  | nil =>
      rw [hstack, List.nil_append, List.cons.injEq, Frame.mk.injEq] at hstack'
      obtain ⟨⟨rfl, rfl⟩, rfl⟩ := hstack'
      have hsub : front ⊆ front ++ [edge] := List.subset_append_left _ _
      refine ⟨front ++ [edge], ⟨⟨[], pending, by simp [hsplit], rfl, by simp⟩, ?_⟩, ?_⟩
      · exact fun other hother => (h.listed other hother).mono hsub
      · intro t htarget hne
        exact ⟨edge, by simp, t, htarget, hne, .refl⟩
  | cons top above =>
      rw [hstack, List.cons_append, List.cons.injEq] at hstack'
      obtain ⟨rfl, rfl⟩ := hstack'
      refine ⟨front, ⟨⟨{ unit, pending } :: above, rest, hsplit, rfl, ?_⟩, h.listed⟩, ?_⟩
      · rw [List.forall_mem_cons] at habove ⊢
        exact habove
      · intro t htarget hne
        exact (habove _ List.mem_cons_self).tail ⟨edge, hedge, htarget⟩ hne

theorem Around.enter (h : Around index u front w) {target : SourceUnit}
    (htarget : index.LeadAround u front target) : Around index u front (w.enter target) := by
  obtain ⟨above, rest, hsplit, hstack, habove⟩ := h.stack
  refine ⟨⟨{ unit := target, pending := target.imports } :: above, rest, hsplit, ?_, ?_⟩, h.listed⟩
  · show _ :: w.stack = _
    rw [hstack]
    rfl
  · rw [List.forall_mem_cons]
    exact ⟨htarget, habove⟩

private theorem Around.mem_stacked (h : Around index u front w) : u ∈ w.stacked := by
  obtain ⟨above, rest, -, hstack, -⟩ := h.stack
  rw [stacked, hstack]
  simp

/-- The step keeps this, unless it takes `u` itself off the stack. -/
theorem Around.move (h : Around index u front w) (hw : Consistent index u w)
    (hmove : Move index b w c) (hstack : c.2.stack ≠ []) :
    ∃ front', Around index u front' c.2 := by
  cases hmove with
  | finish hstack' => exact ⟨front, h.finish hstack' hstack⟩
  | @miss unit edge pending below hstack' | @skip unit _ edge pending below hstack'
  | @close unit _ edge pending below hstack' =>
      have hedge : edge ∈ unit.imports := hw.pending { unit, pending := edge :: pending }
        (by rw [hstack']; exact List.mem_cons_self) edge List.mem_cons_self
      obtain ⟨front', haround, -⟩ := h.advance hstack' hedge
      exact ⟨front', haround⟩
  | @enter unit target edge pending below hstack' htarget hmark =>
      obtain ⟨front', haround, hleads⟩ := h.advance hstack' (hw.imports hstack' htarget).1
      have hne : target ≠ u := by
        rintro rfl
        rw [(hw.visiting target.key).2 (List.mem_map_of_mem h.mem_stacked)] at hmark
        simp at hmark
      exact ⟨front', haround.enter (hleads target htarget hne)⟩

private theorem exists_around (hpasses : Passes index (start u) w) (hstack : w.stack ≠ []) :
    ∃ front, Around index u front w := by
  induction hpasses with
  | refl => exact ⟨[], around_start index u⟩
  | @tail w w' hbefore hstep ih =>
      have hbusy : w.stack ≠ [] := by
        intro hempty
        obtain ⟨b, hstep⟩ := hstep
        rw [step?_eq_none_iff.2 hempty] at hstep
        simp at hstep
      obtain ⟨front, haround⟩ := ih hbusy
      obtain ⟨b, hmove⟩ := hstep.exists_move
      exact haround.move ((consistent_start index u).passes hbefore) hmove hstack

/-! ### The unit back on top -/

/-- With `u` alone on the stack, `front` is what it has followed. -/
theorem exists_around_of_stack (hpasses : Passes index (start u) w)
    (hstack : w.stack = [{ unit := u, pending := rest }]) :
    ∃ front, u.imports = front ++ rest ∧ Around index u front w := by
  obtain ⟨front, haround⟩ := exists_around hpasses (by rw [hstack]; simp)
  obtain ⟨above, rest', hsplit, hstack', -⟩ := haround.stack
  rw [hstack] at hstack'
  cases above with
  | nil =>
      rw [List.nil_append, List.cons.injEq, Frame.mk.injEq] at hstack'
      rw [← hstack'.1.2] at hsplit
      exact ⟨front, hsplit, haround⟩
  | cons top above => simp at hstack'

theorem exists_passes_front (index : UnitIndex) (h : u.imports = front ++ rest) :
    ∃ w, Passes index (start u) w ∧ w.stack = [{ unit := u, pending := rest }] := by
  induction front using List.reverseRecOn generalizing rest with
  | nil => exact ⟨start u, .refl, by rw [start, h, List.nil_append]⟩
  | append_singleton front edge ih =>
      rw [List.append_assoc] at h
      obtain ⟨w, hpasses, hstack⟩ := ih h
      obtain ⟨w', hstep⟩ := exists_precedes index (w := w) (by rw [hstack]; simp)
      obtain ⟨b, hmove⟩ := hstep.exists_move
      obtain ⟨above, habove⟩ := hmove.stack_of_edge hstack
      obtain ⟨w'', hlater, hstack'⟩ := exists_passes_below index w' habove
      exact ⟨w'', (hpasses.tail hstep).trans hlater, hstack'⟩

theorem Consistent.eq_or_mem_order (hkeyed : index.WellKeyed) (hu : u ∈ index.units)
    (hw : Consistent index u w) (hstack : w.stack = [{ unit := u, pending := rest }])
    (hv : v ∈ index.units) (hmark : (w.marks.get? v.key).isSome) : v = u ∨ v ∈ w.order := by
  obtain ⟨mark, hmark⟩ := Option.isSome_iff_exists.1 hmark
  cases mark with
  | visiting =>
      have hmem := hw.mem_stacked hkeyed hu hv hmark
      rw [stacked_of_stack hstack, List.map_nil, List.mem_singleton] at hmem
      exact Or.inl hmem
  | done => exact Or.inr (hw.mem_order hkeyed hu hv hmark)

private theorem Consistent.below_eq_nil (hw : Consistent index u w) {below : List Frame}
    (hstack : w.stack = { unit := u, pending := rest } :: below) : below = [] := by
  have hstacked := stacked_of_stack hstack
  cases below with
  | nil => rfl
  | cons next below =>
      rcases hw.entryLast with hlast | ⟨hempty, -⟩
      · rw [hstacked, List.map_cons, List.getLast?_cons_cons, ← List.map_cons] at hlast
        exact absurd (List.mem_map_of_mem (List.mem_of_getLast? hlast)) (hw.top_notMem hstacked).1
      · rw [hstacked] at hempty
        simp at hempty

/-- In all states that a walk passes, what is listed has been settled with some bundler. -/
theorem exists_settled (hkeyed : index.WellKeyed) {entry : SourceUnit}
    (hentry : entry ∈ index.units) (hpasses : Passes index (start entry) w) :
    ∃ b : Bundler, b.Sound index ∧ Settled index b w := by
  induction hpasses with
  | refl => exact ⟨_, Bundler.sound_ofIndex index, settled_start index _ entry⟩
  | @tail w w' hbefore hstep ih =>
      obtain ⟨b, hb, hsettled⟩ := ih
      obtain ⟨b₁, hstep₁⟩ := hstep
      obtain ⟨b', hstep'⟩ := exists_step?_of_step? (Bundler.sound_ofIndex index).toTruthful
        hb.toTruthful hstep₁
      have hw := (consistent_start index entry).passes hbefore
      have hmove := move_of_step? hb hstep'
      exact ⟨b', (hw.sound_move hkeyed hentry hb hmove).1,
        hsettled.move hkeyed hentry hw hb hmove⟩

/-- With `u` alone on the stack, what it reaches by the statements that it has followed, around
itself, is listed. -/
theorem mem_order_of_leadAround (hkeyed : index.WellKeyed) (hu : u ∈ index.units)
    (hpasses : Passes index (start u) w) (hstack : w.stack = [{ unit := u, pending := rest }])
    (hsplit : u.imports = front ++ rest) (h : index.LeadAround u front v) : v ∈ w.order := by
  obtain ⟨b, -, hsettled⟩ := exists_settled hkeyed hu hpasses
  have hw := (consistent_start index u).passes hpasses
  have hlisted : ∀ unit ∈ index.units, unit ≠ u → (w.marks.get? unit.key).isSome →
      unit ∈ w.order := by
    intro unit hunit hne hmark
    exact (hw.eq_or_mem_order hkeyed hu hstack hunit hmark).resolve_left hne
  obtain ⟨edge, hedge, t, htarget, hne, hreaches⟩ := h
  induction hreaches with
  | refl =>
      have hfollowed := hsettled.followed
      rw [hstack] at hfollowed
      have hpending : edge ∉ rest := by
        have hnodup := u.nodup_imports
        rw [hsplit] at hnodup
        intro hrest
        exact (List.nodup_append.1 hnodup).2.2 edge hedge edge hrest rfl
      have hmem : edge ∈ u.imports := by
        rw [hsplit]
        exact List.mem_append_left _ hedge
      rcases (hfollowed.1 edge hmem).resolve_left hpending t htarget with horder | habove | hclose
      · exact horder
      · exact absurd habove List.not_mem_nil
      · exact hlisted t (UnitIndex.mem_units_of_target? htarget) hne hclose.1
  | tail _ hstep ih =>
      rcases hsettled.listed _ ih _ hstep.1 with hbefore | hclose
      · exact hbefore.subset List.mem_cons_self
      · exact hlisted _ hstep.1.mem_units hstep.2 hclose.1

/-- **The walk from `u` goes directly into `v` exactly if no statement in front of the one that
refers to `v` leads there around `u`.** -/
theorem enters_own_iff (hkeyed : index.WellKeyed) (hu : u ∈ index.units) (hv : v ∈ index.units)
    (hne : u ≠ v) : Enters index u u v ↔ index.ImportsStraight u v := by
  constructor
  · intro ⟨w, edge, pending, below, hpasses, hstack, htarget, hmark⟩
    have hw := (consistent_start index u).passes hpasses
    obtain rfl : below = [] := hw.below_eq_nil hstack
    obtain ⟨front, hsplit, -⟩ := exists_around_of_stack hpasses hstack
    refine ⟨front, edge, pending, hsplit, htarget, fun hleads => ?_⟩
    have hlisted := mem_order_of_leadAround hkeyed hu hpasses hstack hsplit hleads
    rw [(hw.done v.key).2 (List.mem_map_of_mem hlisted)] at hmark
    simp at hmark
  · intro ⟨front, edge, back, hsplit, htarget, hleads⟩
    obtain ⟨w, hpasses, hstack⟩ := exists_passes_front index hsplit
    obtain ⟨front', hsplit', haround⟩ := exists_around_of_stack hpasses hstack
    obtain rfl : front' = front := List.append_cancel_right (hsplit'.symm.trans hsplit)
    refine ⟨w, edge, back, [], hpasses, hstack, htarget, ?_⟩
    by_contra hmark
    rw [← ne_eq, Option.ne_none_iff_isSome] at hmark
    have hw := (consistent_start index u).passes hpasses
    rcases hw.eq_or_mem_order hkeyed hu hstack hv hmark with heq | hlisted
    · exact hne heq.symm
    · exact hleads (haround.listed v hlisted)

end Walk

/-! ### Bundling a whole project -/

namespace Bundler

variable {index : UnitIndex} {u v : SourceUnit} {bundling : Bundling}

/-- A pair is on record if the walk of an entry goes directly from one unit of it into the other. -/
theorem pair_mem_memberSets_iff (hkeyed : index.WellKeyed)
    (hok : ((ofIndex index).bundleAll index.project.keys).1 = .ok bundling)
    (hu : u ∈ index.units) (hv : v ∈ index.units) (hne : u ≠ v) (huv : index.Imports u v)
    (hvu : index.Imports v u) :
    {u.key, v.key} ∈ Finding.memberSets bundling.findings ↔
      ∃ entry ∈ index.project.values, Walk.Enters index entry u v ∨ Walk.Enters index entry v u := by
  have hrecord := (records_new hkeyed index.project.keys).2
  have hknown : ∀ name ∈ sortedDistinct index.project.keys, (index.lookup? name).isSome :=
    fun name hname => UnitIndex.isSome_lookup?_of_mem_project (mem_sortedDistinct.1 hname)
  rw [knownFront_eq_self hknown] at hrecord
  rw [(bundleEach_of_bundleAll hok).2, ← closed_mem_record, hrecord]
  constructor
  · intro ⟨name, hname, entry, hlookup, hmeets⟩
    obtain ⟨entry', hget⟩ := Table.mem_keys_iff.1 (mem_sortedDistinct.1 hname)
    obtain rfl : entry' = entry :=
      Option.some.inj ((UnitIndex.lookup?_of_get?_project hget).symm.trans hlookup)
    exact ⟨entry', Table.mem_values_of_get? hget, Walk.exists_enters_of_meets hkeyed
      (UnitIndex.mem_units_of_lookup? hlookup) hu hv hne hmeets⟩
  · intro ⟨entry, hentry, henters⟩
    obtain ⟨hname, hlookup⟩ := hkeyed.lookup?_name hentry
    refine ⟨entry.name, mem_sortedDistinct.2 hname, entry, hlookup, ?_⟩
    rcases henters with henters | henters
    · exact henters.meets hvu
    · rw [Finset.pair_comm]
      exact henters.meets huv

/-- Both units of a pair cannot stand before what they import, so a report names both. -/
theorem exists_report_of_mutual (hkeyed : index.WellKeyed)
    (hok : ((ofIndex index).bundleAll index.project.keys).1 = .ok bundling)
    (hu : u ∈ index.project.values) (huv : index.Imports u v) (hvu : index.Imports v u) :
    ∃ members edge, .cycle members edge ∈ bundling.findings ∧ u ∈ members ∧ v ∈ members := by
  obtain ⟨bundling', hok', hbundles⟩ := bundleAll_inlines_imports_first hkeyed .new
    fun _ hname => UnitIndex.isSome_lookup?_of_mem_project hname
  obtain rfl : bundling = bundling' := Except.ok.inj (hok.symm.trans hok')
  obtain ⟨hname, hlookup⟩ := hkeyed.lookup?_name hu
  obtain ⟨entry, hentry, -, -, hnodup, hordered, -⟩ := hbundles u.name hname
  obtain rfl : u = entry := Option.some.inj (hlookup.symm.trans hentry)
  have hiff := UnitIndex.mem_inlineOrder_iff hkeyed (UnitIndex.mem_units_of_lookup? hlookup)
  have huMem := (hiff u).2 .refl
  have hvMem := (hiff v).2 (.single huv)
  rcases hordered u huMem v huv with hbefore | ⟨-, members, edge, hcycle, hboth⟩
  · rcases hordered v hvMem u hvu with hafter | ⟨-, members, edge, hcycle, hboth⟩
    · exact absurd (idxOf_lt_of_sublist hnodup hafter)
        (Nat.lt_asymm (idxOf_lt_of_sublist hnodup hbefore))
    · exact ⟨members, edge, hcycle, hboth.2, hboth.1⟩
  · exact ⟨members, edge, hcycle, hboth⟩

/-- **Two project units that import each other are named by a report, and they are reported as a
pair, once, exactly if the walk of some project unit goes directly from the one into the other.**
The walk from one of the two does so exactly if it imports the other straight. -/
theorem bundleAll_reports_pairs (hkeyed : index.WellKeyed) :
    ∃ bundling, ((ofIndex index).bundleAll index.project.keys).1 = .ok bundling ∧
      ∀ u ∈ index.project.values, ∀ v ∈ index.project.values, u ≠ v →
        index.Imports u v → index.Imports v u →
        (∃ members edge, .cycle members edge ∈ bundling.findings ∧ u ∈ members ∧ v ∈ members) ∧
        (Finding.memberSets bundling.findings).count {u.key, v.key} ≤ 1 ∧
        ((Finding.memberSets bundling.findings).count {u.key, v.key} = 1 ↔
          ∃ entry ∈ index.project.values,
            Walk.Enters index entry u v ∨ Walk.Enters index entry v u) ∧
        (Walk.Enters index u u v ↔ index.ImportsStraight u v) := by
  obtain ⟨bundling, hok, -⟩ := (sound_ofIndex index).bundleAll_ok hkeyed
    fun _ hname => UnitIndex.isSome_lookup?_of_mem_project hname
  refine ⟨bundling, hok, fun u hu v hv hne huv hvu => ?_⟩
  have huMem := UnitIndex.mem_units_of_lookup? (hkeyed.lookup?_name hu).2
  have hvMem := UnitIndex.mem_units_of_lookup? (hkeyed.lookup?_name hv).2
  have honce : (Finding.memberSets bundling.findings).Nodup := by
    rw [(bundleEach_of_bundleAll hok).2]
    exact (records_new hkeyed index.project.keys).1.cyclesOnce
  refine ⟨exists_report_of_mutual hkeyed hok hu huv hvu, List.nodup_iff_count_le_one.1 honce _, ?_,
    Walk.enters_own_iff hkeyed huMem hvMem hne⟩
  rw [← pair_mem_memberSets_iff hkeyed hok huMem hvMem hne huv hvu]
  constructor
  · intro hcount
    exact List.count_pos_iff.1 (by omega)
  · exact List.count_eq_one_of_mem honce

/-- Two units with one import each import each other straight, so they are reported as a pair. -/
theorem mutualPair_reported_once :
    mutualPair.WellKeyed ∧
      ∃ bundling, ((ofIndex mutualPair).bundleAll mutualPair.project.keys).1 = .ok bundling ∧
        (Finding.memberSets bundling.findings).count
          {(oneImport ['a'] ['b']).key, (oneImport ['b'] ['a']).key} = 1 := by
  obtain ⟨bundling, hok, hpairs⟩ := bundleAll_reports_pairs mutualPair_wellKeyed
  obtain ⟨-, -, honce, hown⟩ := hpairs (oneImport ['a'] ['b']) (by decide)
    (oneImport ['b'] ['a']) (by decide) (by decide) mutualPair_imports.1 mutualPair_imports.2
  have hstraight : mutualPair.ImportsStraight (oneImport ['a'] ['b']) (oneImport ['b'] ['a']) := by
    refine ⟨[], _, [], rfl, by decide, ?_⟩
    intro ⟨edge, hedge, _⟩
    exact absurd hedge List.not_mem_nil
  exact ⟨mutualPair_wellKeyed, bundling, hok,
    honce.2 ⟨oneImport ['a'] ['b'], by decide, Or.inl (hown.2 hstraight)⟩⟩

/-! ### A pair behind detours -/

/-- A project unit with two imports. -/
def twoImports (name first second : Text) : SourceUnit :=
  .ofText .project name (importOf first ++ importOf second) none

/-- The units `a` and `b` import each other, but each imports first a unit that leads to the other
one. -/
def detouredPair : UnitIndex where
  project := UnitIndex.unitsOf .project (.ofList [
    (['a'], (twoImports ['a'] ['c'] ['b']).text), (['b'], (twoImports ['b'] ['d'] ['a']).text),
    (['c'], importOf ['b']), (['d'], importOf ['a'])])
  library := .empty
  aliases := .empty

/-- No walk goes directly from one unit of the pair into the other, and the pair is not reported. -/
theorem detouredPair_not_reported :
    detouredPair.WellKeyed ∧ twoImports ['a'] ['c'] ['b'] ∈ detouredPair.project.values ∧
      twoImports ['b'] ['d'] ['a'] ∈ detouredPair.project.values ∧
      detouredPair.Imports (twoImports ['a'] ['c'] ['b']) (twoImports ['b'] ['d'] ['a']) ∧
      detouredPair.Imports (twoImports ['b'] ['d'] ['a']) (twoImports ['a'] ['c'] ['b']) ∧
      ∃ bundling, ((ofIndex detouredPair).bundleAll detouredPair.project.keys).1 = .ok bundling ∧
        (Finding.memberSets bundling.findings).count
          {(twoImports ['a'] ['c'] ['b']).key, (twoImports ['b'] ['d'] ['a']).key} = 0 := by
  have hkeyed : detouredPair.WellKeyed := UnitIndex.wellKeyed_unitsOf _ .empty .empty
  obtain ⟨bundling, hok, -⟩ := (sound_ofIndex detouredPair).bundleAll_ok hkeyed
    fun _ hname => UnitIndex.isSome_lookup?_of_mem_project hname
  refine ⟨hkeyed, by decide, by decide, ?_, ?_, bundling, hok, ?_⟩
  · unfold UnitIndex.Imports
    decide
  · unfold UnitIndex.Imports
    decide
  · rw [(bundleEach_of_bundleAll hok).2]
    decide +kernel

end Bundler

end SolidityBundler
