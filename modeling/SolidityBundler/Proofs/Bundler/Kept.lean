/-
What calls keep of any bundler.

All that a call does to a bundler is put together from four things: it resolves a statement, reports
a cycle, keeps the text of a unit, or tells the log something.  What these four keep is kept by the
walk, by the texts, by every call and by any history of calls, over any index.  In particular the
names that a bundler remembers are those that resolution gives, even where two units of the index
cannot be told apart and a remembered text may be the wrong one.
-/
import SolidityBundler.Proofs.Bundler.Calls

namespace SolidityBundler.Bundler

/-- Each of the four keeps `P`. -/
structure Kept (P : Bundler → Prop) : Prop where
  resolve : ∀ b importer edge, P b → P (b.resolve importer edge).2
  reportCycle : ∀ b members edge, P b → P (b.reportCycle members edge)
  keepText : ∀ b key text, P b → P { b with inlinedTexts := b.inlinedTexts.insert key text }
  tell : ∀ b entry, P b → P (b.tell entry)

variable {P : Bundler → Prop} {b b' : Bundler} {w w' : Walk}

/-! ### The texts -/

theorem Kept.resolved (hP : Kept P) (unit : SourceUnit) (edges : List ImportEdge) (h : P b) :
    P (b.resolved unit edges).2 := by
  induction edges generalizing b with
  | nil => exact h
  | cons edge edges ih => exact ih (hP.resolve b unit edge h)

theorem Kept.inlinedText (hP : Kept P) (unit : SourceUnit) (h : P b) :
    P (b.inlinedText unit).2 := by
  unfold Bundler.inlinedText
  split
  · exact h
  · exact hP.keepText _ _ _ (hP.resolved unit unit.imports h)

theorem Kept.sections (hP : Kept P) (units : List SourceUnit) (h : P b) :
    P (b.sections units).2 := by
  induction units generalizing b with
  | nil => exact h
  | cons unit units ih => exact ih (hP.inlinedText unit h)

/-! ### The walk -/

theorem Kept.follow (hP : Kept P) (w : Walk) (edge : ImportEdge) (target : SourceUnit) (h : P b) :
    P (Walk.follow b w edge target).1 := by
  unfold Walk.follow
  split
  · exact h
  · exact hP.reportCycle b _ edge h
  · exact h

theorem Kept.step? (hP : Kept P) (h : P b) (hstep : Walk.step? b w = some (b', w')) : P b' := by
  match hstack : w.stack with
  | [] =>
      rw [Walk.step?_eq_none_iff.2 hstack] at hstep
      simp at hstep
  | { unit, pending := [] } :: below =>
      unfold Walk.step? at hstep
      rw [hstack] at hstep
      rw [← (Prod.mk.inj (Option.some.inj hstep)).1]
      exact h
  | { unit, pending := edge :: pending } :: below =>
      have hresolve := hP.resolve b unit edge h
      rw [Walk.step?_of_edge hstack] at hstep
      cases htarget : (b.resolve unit edge).1 with
      | none =>
          rw [htarget] at hstep
          rw [← (Prod.mk.inj (Option.some.inj hstep)).1]
          exact hresolve
      | some target =>
          rw [htarget] at hstep
          have hfirst : _ = b' := congrArg Prod.fst (Option.some.inj hstep)
          rw [← hfirst]
          exact hP.follow _ edge target hresolve

theorem Kept.run (hP : Kept P) (w : Walk) (h : P b) : P (Walk.run b w).1 :=
  (Walk.run_induction (P := fun b _ => P b) (fun _ _ _ _ h hstep => hP.step? h hstep) h).1

/-! ### Calls -/

theorem Kept.bundle (hP : Kept P) (entry : SourceUnit) (h : P b) : P (b.bundle entry).2 :=
  hP.tell _ _ (hP.sections _ (hP.run (.start entry) h))

theorem Kept.bundleEach (hP : Kept P) (bundles : Table Text Bundle) (names : List Text)
    (h : P b) : P (b.bundleEach bundles names).2 := by
  induction names generalizing b bundles with
  | nil => exact h
  | cons name names ih =>
      rw [Bundler.bundleEach]
      cases b.index.lookup? name with
      | none => exact h
      | some entry => exact ih _ (hP.bundle entry (hP.tell b (.unitStage "Flattening" name) h))

theorem Kept.bundleAll (hP : Kept P) (entries : List Text) (h : P b) :
    P (b.bundleAll entries).2 := by
  have heach := hP.bundleEach .empty (sortedDistinct entries) h
  rcases b.bundleAll_snd_eq entries with heq | ⟨message, heq⟩
  · rw [heq]
    exact heach
  · rw [heq]
    exact hP.tell _ message heach

theorem Kept.after (hP : Kept P) (call : Call) (h : P b) : P (call.after b) := by
  cases call with
  | bundleAll entries => exact hP.bundleAll entries h
  | resolve importer edge => exact hP.resolve b importer edge h
  | inlinedText unit => exact hP.inlinedText unit h

/-- **What the four keep is kept by any history of calls.** -/
theorem Kept.afterAll (hP : Kept P) (calls : List Call) (h : P b) : P (b.afterAll calls) := by
  induction calls generalizing b with
  | nil => exact h
  | cons call calls ih => exact ih (hP.after call h)

/-! ### Remembered names -/

theorem truthful_ofIndex (index : UnitIndex) : Truthful index (ofIndex index) :=
  (sound_ofIndex index).toTruthful

theorem kept_truthful (index : UnitIndex) : Kept (Truthful index) where
  resolve := fun _ importer edge hb => hb.resolve importer edge
  reportCycle := fun _ members edge hb => hb.reportCycle members edge
  keepText := fun _ _ _ hb => ⟨hb.index_eq, hb.remembered⟩
  tell := fun _ entry hb => hb.tell entry

/-- A bundler of any history resolves a statement to what the index gives. -/
theorem resolve_afterAll (index : UnitIndex) (calls : List Call) (importer : SourceUnit)
    (edge : ImportEdge) : (((ofIndex index).afterAll calls).resolve importer edge).1
      = index.target? importer.name edge.specifier :=
  ((kept_truthful index).afterAll calls (truthful_ofIndex index)).resolve_eq importer edge

end SolidityBundler.Bundler
