/-
Bundling after any history.

A bundler may have been asked anything before.  What it remembers is true, so the bundle it
gives for an entry is `UnitIndex.bundleOf`, the one a new bundler gives, and only the list
of problems shows what came earlier.

`Covers` says what a run over some entries does to a bundler: it stays sound, every new
report is about units that one of the entries reaches, and every import that is not inlined
before its importer is on record.  A run that ends at an unknown entry covers the entries
before it.
-/
import Mathlib.Data.List.TakeWhile
import SolidityBundler.Proofs.Sorting
import SolidityBundler.Proofs.Walk.Run

namespace SolidityBundler

namespace UnitIndex

/-- The units that `entry` needs, in the order in which a new bundler inlines them. -/
def inlineOrder (index : UnitIndex) (entry : SourceUnit) : List SourceUnit :=
  ((Bundler.ofIndex index).inlineOrder entry).1

/-- The units that `entry` needs, each with its text, one after the other. -/
def bundleOf (index : UnitIndex) (entry : SourceUnit) : Bundle :=
  .ofSections entry.name ((index.inlineOrder entry).map index.sectionOf)

end UnitIndex

namespace Bundler

variable {index : UnitIndex} {entry : SourceUnit} {b b' b'' : Bundler}

theorem tell_grows (b : Bundler) (message : Log.Entry) : b.Grows (b.tell message) :=
  ⟨rfl, List.prefix_refl _⟩

/-! ### One entry -/

/-- Every bundler over the index inlines in the same order. -/
theorem Sound.inlineOrder_eq (hkeyed : index.WellKeyed) (hentry : entry ∈ index.units)
    (hb : b.Sound index) : (b.inlineOrder entry).1 = index.inlineOrder entry :=
  congrArg Walk.order (Walk.run_walk_eq hkeyed hentry (Walk.consistent_start index entry) hb
    (sound_ofIndex index))

/-- What the walk from `entry` leaves behind, in terms of the order it gives. -/
theorem Sound.finished (hkeyed : index.WellKeyed) (hentry : entry ∈ index.units)
    (hb : b.Sound index) : ∃ w, w.order = index.inlineOrder entry ∧
      Walk.Finished index entry b (b.inlineOrder entry).2 w :=
  ⟨_, hb.inlineOrder_eq hkeyed hentry, Walk.finished_run hkeyed hentry hb⟩

theorem mem_units_of_mem_inlineOrder (hkeyed : index.WellKeyed) (hentry : entry ∈ index.units)
    {unit : SourceUnit} (hunit : unit ∈ index.inlineOrder entry) : unit ∈ index.units := by
  obtain ⟨w, horder, hw⟩ := (sound_ofIndex index).finished hkeyed hentry
  rw [← horder, hw.mem_order_iff hkeyed hentry] at hunit
  exact hunit.mem_units hentry

/-- **Every bundler over the index gives an entry the same bundle.** -/
theorem Sound.bundle_eq (hkeyed : index.WellKeyed) (hentry : entry ∈ index.units)
    (hb : b.Sound index) : (b.bundle entry).1 = index.bundleOf entry := by
  obtain ⟨w, -, hw⟩ := hb.finished hkeyed hentry
  show Bundle.ofSections entry.name
    ((b.inlineOrder entry).2.sections (b.inlineOrder entry).1).1 = _
  rw [hb.inlineOrder_eq hkeyed hentry, hw.sound.sections_eq hkeyed
    (fun unit => mem_units_of_mem_inlineOrder hkeyed hentry)]
  rfl

/-! ### Several entries -/

/-- What a run over the entries of the given names does to a bundler. -/
structure Covers (index : UnitIndex) (names : List Text) (b b' : Bundler) : Prop where
  sound : b'.Sound index
  grows : b.Grows b'
  reports : ∀ cycle ∈ b'.cycles, cycle ∈ b.cycles ∨
    ∃ name ∈ names, ∃ entry, index.lookup? name = some entry ∧
      ∀ m ∈ cycle.1, index.Reaches entry m
  ordered : ∀ name ∈ names, ∀ entry, index.lookup? name = some entry →
    ∀ u ∈ index.inlineOrder entry, ∀ v, index.Imports u v →
      [v, u].Sublist (index.inlineOrder entry) ∨ b'.Reported u v

theorem Covers.nil (hb : b.Sound index) : Covers index [] b b :=
  ⟨hb, .refl b, fun _ hcycle => Or.inl hcycle, fun _ hname => by simp at hname⟩

theorem Covers.append {names names' : List Text} (h : Covers index names b b')
    (h' : Covers index names' b' b'') : Covers index (names ++ names') b b'' := by
  refine ⟨h'.sound, h.grows.trans h'.grows, ?_, ?_⟩
  · intro cycle hcycle
    rcases h'.reports cycle hcycle with hold | ⟨name, hname, hreach⟩
    · rcases h.reports cycle hold with hold | ⟨name, hname, hreach⟩
      · exact Or.inl hold
      · exact Or.inr ⟨name, List.mem_append_left _ hname, hreach⟩
    · exact Or.inr ⟨name, List.mem_append_right _ hname, hreach⟩
  · intro name hname entry hlookup u hu v himports
    rcases List.mem_append.1 hname with hname | hname
    · exact (h.ordered name hname entry hlookup u hu v himports).imp id h'.grows.reported
    · exact h'.ordered name hname entry hlookup u hu v himports

theorem Sound.covers_bundle (hkeyed : index.WellKeyed) (hb : b.Sound index) {name : Text}
    (hlookup : index.lookup? name = some entry) : Covers index [name] b (b.bundle entry).2 := by
  have hentry := UnitIndex.mem_units_of_lookup? hlookup
  obtain ⟨w, horder, hw⟩ := hb.finished hkeyed hentry
  have hunits : ∀ unit ∈ (b.inlineOrder entry).1, unit ∈ index.units := by
    rw [hb.inlineOrder_eq hkeyed hentry]
    exact fun unit => mem_units_of_mem_inlineOrder hkeyed hentry
  have hcycles : (b.bundle entry).2.cycles = (b.inlineOrder entry).2.cycles :=
    sections_cycles (b.inlineOrder entry).2 (b.inlineOrder entry).1
  refine ⟨(hw.sound.sections hkeyed hunits).tell _,
    (hw.grows.trans (sections_grows _ _)).trans (tell_grows _ _), ?_, ?_⟩
  · intro cycle hcycle
    rw [hcycles] at hcycle
    rcases hw.reports cycle hcycle with hold | hreach
    · exact Or.inl hold
    · exact Or.inr ⟨name, List.mem_cons_self, entry, hlookup, hreach⟩
  · intro name' hname' entry' hlookup' u hu v himports
    rw [List.mem_singleton] at hname'
    rw [hname', hlookup, Option.some.injEq] at hlookup'
    subst hlookup'
    rw [← horder] at hu ⊢
    rcases hw.settled.listed u hu v himports with hsub | ⟨-, cycle, hcycle, hboth⟩
    · exact Or.inl hsub
    · exact Or.inr ⟨cycle, by rw [hcycles]; exact hcycle, hboth⟩

/-- The names in front of the first one that is unknown. -/
def knownFront (index : UnitIndex) (names : List Text) : List Text :=
  names.takeWhile fun name => (index.lookup? name).isSome

private theorem bundleEach_cons_of_some (hb : b.Sound index) {bundles : Table Text Bundle}
    {name : Text} {names : List Text} (hlookup : index.lookup? name = some entry) :
    b.bundleEach bundles (name :: names)
      = ((b.tell (.unitStage "Flattening" name)).bundle entry).2.bundleEach
          (bundles.insert name ((b.tell (.unitStage "Flattening" name)).bundle entry).1) names := by
  rw [bundleEach, hb.index_eq, hlookup]

/-- What holds of doing nothing, and still holds when one entry is bundled first, holds of a run
over the entries in front of the first unknown one. -/
theorem Sound.bundleEach_induction (hkeyed : index.WellKeyed)
    {R : List Text → Bundler → Bundler → Prop}
    (hnil : ∀ b, b.Sound index → R [] b b)
    (hcons : ∀ b b' name entry names, b.Sound index → index.lookup? name = some entry →
      R names ((b.tell (.unitStage "Flattening" name)).bundle entry).2 b' →
      R (name :: names) b b')
    (hb : b.Sound index) (bundles : Table Text Bundle) (names : List Text) :
    R (knownFront index names) b (b.bundleEach bundles names).2 := by
  induction names generalizing b bundles with
  | nil => exact hnil b hb
  | cons name names ih =>
      cases hlookup : index.lookup? name with
      | none =>
          rw [knownFront, List.takeWhile_cons_of_neg (by simp [hlookup]), bundleEach, hb.index_eq,
            hlookup]
          exact hnil b hb
      | some entry =>
          rw [knownFront, List.takeWhile_cons_of_pos (by simp [hlookup]),
            bundleEach_cons_of_some hb hlookup]
          exact hcons b _ name entry _ hb hlookup
            (ih ((hb.tell _).covers_bundle hkeyed hlookup).sound _)

theorem Sound.covers_bundleEach (hkeyed : index.WellKeyed) (hb : b.Sound index)
    (bundles : Table Text Bundle) (names : List Text) :
    Covers index (knownFront index names) b (b.bundleEach bundles names).2 := by
  refine hb.bundleEach_induction hkeyed (fun b hb => .nil hb) ?_ bundles names
  intro b b' name entry names hb hlookup hrest
  have hfirst := (hb.tell (.unitStage "Flattening" name)).covers_bundle hkeyed hlookup
  have hcovers : Covers index [name] b
      ((b.tell (.unitStage "Flattening" name)).bundle entry).2 :=
    ⟨hfirst.sound, (tell_grows b _).trans hfirst.grows, hfirst.reports, hfirst.ordered⟩
  exact hcovers.append hrest

theorem Sound.bundleEach_ok (hkeyed : index.WellKeyed) (hb : b.Sound index)
    (bundles : Table Text Bundle) {names : List Text}
    (hknown : ∀ name ∈ names, (index.lookup? name).isSome) :
    ∃ all, (b.bundleEach bundles names).1 = .ok all ∧
      ∀ name, all.get? name =
        if name ∈ names then (index.lookup? name).map index.bundleOf else bundles.get? name := by
  induction names generalizing b bundles with
  | nil => exact ⟨bundles, rfl, fun name => by simp⟩
  | cons name names ih =>
      rw [List.forall_mem_cons] at hknown
      obtain ⟨entry, hlookup⟩ := Option.isSome_iff_exists.1 hknown.1
      have htold := hb.tell (.unitStage "Flattening" name)
      have hbundle := htold.bundle_eq hkeyed (UnitIndex.mem_units_of_lookup? hlookup)
      rw [bundleEach_cons_of_some hb hlookup]
      obtain ⟨all, hall, hget⟩ := ih (htold.covers_bundle hkeyed hlookup).sound
        (bundles.insert name ((b.tell (.unitStage "Flattening" name)).bundle entry).1) hknown.2
      refine ⟨all, hall, ?_⟩
      intro other
      rw [hget other, Table.get?_insert, hbundle]
      by_cases hmem : other ∈ names
      · simp [hmem]
      · by_cases heq : name = other
        · subst heq
          simp [hmem, hlookup]
        · simp [hmem, heq, Ne.symm heq]

/-! ### A whole call -/

theorem bundleAll_snd_eq (b : Bundler) (entries : List Text) :
    (b.bundleAll entries).2 = (b.bundleEach .empty (sortedDistinct entries)).2 ∨
      ∃ message, (b.bundleAll entries).2
        = (b.bundleEach .empty (sortedDistinct entries)).2.tell message := by
  unfold bundleAll
  split
  · next heq => exact Or.inl (by rw [heq])
  · next heq => exact Or.inr ⟨_, by rw [heq]⟩

/-- A call covers its entries in their order, up to the first unknown one. -/
theorem Sound.covers_bundleAll (hkeyed : index.WellKeyed) (hb : b.Sound index)
    (entries : List Text) :
    Covers index (knownFront index (sortedDistinct entries)) b (b.bundleAll entries).2 := by
  have hcovers := hb.covers_bundleEach hkeyed .empty (sortedDistinct entries)
  rcases b.bundleAll_snd_eq entries with heq | ⟨message, heq⟩
  · rw [heq]
    exact hcovers
  · rw [heq]
    exact ⟨hcovers.sound.tell message, hcovers.grows.trans (tell_grows _ message),
      hcovers.reports, hcovers.ordered⟩

/-- **A call on known entries succeeds.**  It gives each entry its bundle and lists every
problem that the bundler knows of. -/
theorem Sound.bundleAll_ok (hkeyed : index.WellKeyed) (hb : b.Sound index) {entries : List Text}
    (hknown : ∀ name ∈ entries, (index.lookup? name).isSome) :
    ∃ bundling, (b.bundleAll entries).1 = .ok bundling ∧
      bundling.findings = (b.bundleAll entries).2.findings ∧
      (∀ name ∈ entries, ∃ entry ∈ index.units, index.lookup? name = some entry ∧
        bundling.bundles.get? name = some (index.bundleOf entry)) ∧
      Covers index entries b (b.bundleAll entries).2 := by
  have hsorted : ∀ name ∈ sortedDistinct entries, (index.lookup? name).isSome :=
    fun name hname => hknown name (mem_sortedDistinct.1 hname)
  have hcovers := hb.covers_bundleAll hkeyed entries
  rw [knownFront, List.takeWhile_eq_self_iff.2 hsorted] at hcovers
  obtain ⟨all, hall, hget⟩ := hb.bundleEach_ok hkeyed .empty hsorted
  have hcall : b.bundleAll entries = (.ok { bundles := all
                                            findings := (b.bundleAll entries).2.findings },
      (b.bundleAll entries).2) := by
    unfold bundleAll
    split
    · next heq =>
        rw [heq] at hall
        simp at hall
    · next heq =>
        rw [heq] at hall
        rw [Except.ok.inj hall]
        rfl
  refine ⟨_, congrArg Prod.fst hcall, rfl, ?_, hcovers.sound, hcovers.grows, ?_, ?_⟩
  · intro name hname
    obtain ⟨entry, hlookup⟩ := Option.isSome_iff_exists.1 (hknown name hname)
    refine ⟨entry, UnitIndex.mem_units_of_lookup? hlookup, hlookup, ?_⟩
    rw [hget name, if_pos (mem_sortedDistinct.2 hname), hlookup]
    rfl
  · intro cycle hcycle
    rcases hcovers.reports cycle hcycle with hold | ⟨name, hname, hreach⟩
    · exact Or.inl hold
    · exact Or.inr ⟨name, mem_sortedDistinct.1 hname, hreach⟩
  · intro name hname
    exact hcovers.ordered name (mem_sortedDistinct.2 hname)

/-- A call that succeeds gives the bundles of its entries and lists every problem known. -/
theorem bundleEach_of_bundleAll {entries : List Text} {bundling : Bundling}
    (h : (b.bundleAll entries).1 = .ok bundling) :
    (b.bundleEach .empty (sortedDistinct entries)).1 = .ok bundling.bundles ∧
      bundling.findings = (b.bundleAll entries).2.findings := by
  unfold bundleAll at h ⊢
  split at h
  · simp at h
  · next heq =>
      rw [heq, ← Except.ok.inj h]
      exact ⟨rfl, rfl⟩

/-- A run ends at the first unknown entry, so one that succeeds met none. -/
theorem Sound.known_of_bundleEach (hkeyed : index.WellKeyed) (hb : b.Sound index)
    {bundles all : Table Text Bundle} {names : List Text}
    (h : (b.bundleEach bundles names).1 = .ok all) :
    ∀ name ∈ names, (index.lookup? name).isSome := by
  induction names generalizing b bundles with
  | nil => simp
  | cons name names ih =>
      cases hlookup : index.lookup? name with
      | none =>
          rw [bundleEach, hb.index_eq, hlookup] at h
          simp at h
      | some entry =>
          rw [bundleEach_cons_of_some hb hlookup] at h
          have hrest := ih ((hb.tell _).covers_bundle hkeyed hlookup).sound h
          rw [List.forall_mem_cons]
          exact ⟨by rw [hlookup]; rfl, hrest⟩

/-- All entries of a call that succeeds are known. -/
theorem Sound.known_of_bundleAll (hkeyed : index.WellKeyed) (hb : b.Sound index)
    {entries : List Text} {bundling : Bundling} (h : (b.bundleAll entries).1 = .ok bundling) :
    ∀ name ∈ entries, (index.lookup? name).isSome := by
  intro name hname
  exact hb.known_of_bundleEach hkeyed (bundleEach_of_bundleAll h).1 name
    (mem_sortedDistinct.2 hname)

/-- The bundles of a call are those of its entries, and no others. -/
theorem Sound.get?_bundles (hkeyed : index.WellKeyed) (hb : b.Sound index) {entries : List Text}
    {bundling : Bundling} (h : (b.bundleAll entries).1 = .ok bundling) (name : Text) :
    bundling.bundles.get? name
      = if name ∈ entries then (index.lookup? name).map index.bundleOf else none := by
  have heach := (bundleEach_of_bundleAll h).1
  obtain ⟨all, hall, hget⟩ := hb.bundleEach_ok hkeyed .empty
    (hb.known_of_bundleEach hkeyed heach)
  rw [heach] at hall
  rw [Except.ok.inj hall, hget name, Table.get?_empty]
  by_cases hname : name ∈ entries
  · rw [if_pos hname, if_pos (mem_sortedDistinct.2 hname)]
  · rw [if_neg hname, if_neg fun hsorted => hname (mem_sortedDistinct.1 hsorted)]

/-! ### Any history -/

/-- The bundlers over an index after any calls: entries bundled, with or without success,
statements resolved, texts made. -/
inductive Reached (index : UnitIndex) : Bundler → Prop
  | new : Reached index (ofIndex index)
  | bundleAll {b : Bundler} (h : Reached index b) (entries : List Text) :
      Reached index (b.bundleAll entries).2
  | resolve {b : Bundler} (h : Reached index b) {importer : SourceUnit}
      (himporter : importer ∈ index.units) (edge : ImportEdge) :
      Reached index (b.resolve importer edge).2
  | inlinedText {b : Bundler} (h : Reached index b) {unit : SourceUnit}
      (hunit : unit ∈ index.units) : Reached index (b.inlinedText unit).2

/-- **No history makes a bundler remember anything false.** -/
theorem Reached.sound (hkeyed : index.WellKeyed) (h : Reached index b) : b.Sound index := by
  induction h with
  | new => exact sound_ofIndex index
  | bundleAll _ entries ih => exact (ih.covers_bundleAll hkeyed entries).sound
  | @resolve b _ importer _ edge ih => exact ih.resolve importer edge
  | inlinedText _ hunit ih => exact ih.inlinedText hkeyed hunit

end Bundler

end SolidityBundler
