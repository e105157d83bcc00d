/-
The rounds of a walk.

A round is one step, and a walk is over when no step is left.  `After` counts the rounds from the
start.  What is shown of the states between two rounds holds over any index, even where units share
origin and name, and with a bundler of any history: resolving alone decides where a walk goes.

Three things are shown.  The stack is a path of imports that passes no unit twice, and it is what
the marks say it is.  So a statement that leads back to a unit marked as visiting finds this unit
on the path.  And each round takes one thing off what is left to do: a statement of a unit that was
entered, or the unit itself.  All that is entered is listed in the end, so the number of rounds is
that of the statements of the listed units, and one more for each unit.
-/
import SolidityBundler.Proofs.Bundler.Kept

namespace SolidityBundler.Walk

/-- After `count` rounds of the walk from `entry`, begun with the bundler `b`, the bundler is `b'`
and the walk has come to `w`. -/
inductive After (b : Bundler) (entry : SourceUnit) : (count : Nat) → Bundler → Walk → Prop
  | start : After b entry 0 b (.start entry)
  | round {count : Nat} {b₁ b₂ : Bundler} {w₁ w₂ : Walk} (h : After b entry count b₁ w₁)
      (hstep : step? b₁ w₁ = some (b₂, w₂)) : After b entry (count + 1) b₂ w₂

variable {index : UnitIndex} {entry : SourceUnit} {b b' : Bundler} {w : Walk} {c : Bundler × Walk}
  {count : Nat}

/-! ### The state between two rounds -/

/-- Rounds keep what the bundler remembers true, and stack, marks and order in step. -/
theorem After.consistent (hb : b.Truthful index) (h : After b entry count b' w) :
    b'.Truthful index ∧ Consistent index entry w := by
  induction h with
  | start => exact ⟨hb, consistent_start index entry⟩
  | round _ hstep ih =>
      exact ⟨(Bundler.kept_truthful index).step? ih.1 hstep,
        ih.2.move (move_of_truthful ih.1 hstep)⟩

theorem Consistent.not_done (h : Consistent index entry w) {unit : SourceUnit}
    (hunit : unit ∈ w.stacked) : w.marks.get? unit.key ≠ some .done := by
  rw [(h.visiting unit.key).2 (List.mem_map_of_mem hunit)]
  simp

/-- The search for a visited unit along the path finds it, and the cycle is what follows. -/
theorem Consistent.exists_findIdx? (h : Consistent index entry w) {key : UnitKey}
    (hmark : w.marks.get? key = some .visiting) :
    ∃ i, w.path.findIdx? (fun unit => unit.key == key) = some i ∧
      w.pathFrom key = w.path.drop i := by
  obtain ⟨unit, hunit, hkey⟩ := List.mem_map.1 ((h.visiting key).1 hmark)
  have hpath : unit ∈ w.path := List.mem_reverse.2 hunit
  have hfound : ∃ unit ∈ w.path, (unit.key == key) = true := ⟨unit, hpath, by simp [hkey]⟩
  refine ⟨w.path.findIdx fun unit => unit.key == key, ?_, ?_⟩
  · rw [List.findIdx?_eq_some_iff_findIdx_eq]
    exact ⟨List.findIdx_lt_length_of_exists hfound, rfl⟩
  · rw [pathFrom, List.dropWhile_eq_drop_findIdx_not]
    simp only [bne, Bool.not_not]

/-! ### Counting the rounds -/

/-- The statements of all the units, and one more for each of them. -/
def unitsWeight (units : List SourceUnit) : Nat :=
  (units.flatMap SourceUnit.imports).length + units.length

/-- The units that were entered so far: those that are finished, and those on the stack. -/
def entered (w : Walk) : List SourceUnit := w.order ++ w.stacked

private theorem entered_finish {unit : SourceUnit} {below : List Frame}
    (hstack : w.stack = { unit, pending := [] } :: below) :
    (w.finish unit below).entered = w.entered := by
  rw [entered, entered, stacked_of_stack hstack, finish, stacked, List.append_assoc,
    List.singleton_append]

private theorem entered_advance {unit : SourceUnit} {edge : ImportEdge} {pending : List ImportEdge}
    {below : List Frame} (hstack : w.stack = { unit, pending := edge :: pending } :: below) :
    (w.advance unit pending below).entered = w.entered := by
  rw [entered, stacked_advance hstack]
  rfl

private theorem unitsWeight_entered_enter (w : Walk) (target : SourceUnit) :
    unitsWeight (w.enter target).entered = unitWeight target + unitsWeight w.entered := by
  show unitsWeight (w.order ++ target :: w.stacked) = _
  simp only [unitsWeight, unitWeight, entered, List.flatMap_append, List.flatMap_cons,
    List.length_append, List.length_cons]
  omega

/-- A round takes a statement or a unit off what is left to do on the stack, and where it enters a
unit, it adds all that there is to do for that one. -/
theorem Move.stackWeight_add (h : Move index b w c) :
    stackWeight c.2.stack + 1 + unitsWeight w.entered
      = stackWeight w.stack + unitsWeight c.2.entered := by
  cases h with
  | finish hstack =>
      rw [entered_finish hstack, hstack]
      simp only [Walk.finish, stackWeight, List.length_nil]
      omega
  | miss hstack | skip hstack | close hstack =>
      rw [entered_advance hstack, hstack]
      simp only [advance, stackWeight, List.length_cons]
      omega
  | enter hstack =>
      rw [unitsWeight_entered_enter, entered_advance hstack, hstack]
      simp only [Walk.enter, advance, stackWeight, unitWeight, List.length_cons]
      omega

/-- The rounds so far and what is left to do on the stack make up the units that were entered. -/
theorem After.count_add_stackWeight (hb : b.Truthful index) (h : After b entry count b' w) :
    count + stackWeight w.stack = unitsWeight w.entered := by
  induction h with
  | start => simp [Walk.start, entered, stacked, stackWeight, unitsWeight]
  | round h hstep ih =>
      have hround := (move_of_truthful (h.consistent hb).1 hstep).stackWeight_add
      simp only at hround
      omega

theorem After.count_add_weight_le (hb : b.Truthful index) (h : After b entry count b' w) :
    count + weight index w ≤ weight index (Walk.start entry) := by
  induction h with
  | start => rw [Nat.zero_add]
  | round h hstep ih =>
      have hlt := weight_lt_of_step hstep
      rw [step?_index hstep, (h.consistent hb).1.index_eq] at hlt
      omega

theorem exists_after_run (b : Bundler) (entry : SourceUnit) :
    (∃ count, After b entry count (run b (start entry)).1 (run b (start entry)).2) ∧
      (run b (start entry)).2.stack = [] := by
  refine run_induction (P := fun b' w => ∃ count, After b entry count b' w) ?_ ⟨0, .start⟩
  rintro b₁ w₁ b₂ w₂ ⟨count, h⟩ hstep
  exact ⟨count + 1, h.round hstep⟩

/-- **Between any two rounds the stack is a path of imports, which passes no unit twice and holds
exactly the units being visited, none of them finished, and every walk comes to an end.**  A unit
being visited is found when the path is searched for it.  No more rounds are taken than the walk
weighs at its start, and it is over after one round for each statement of the listed units and one
more for each of these. -/
theorem rounds_keep_path_and_end (index : UnitIndex) (calls : List Call) (entry : SourceUnit)
    (hb : (Bundler.ofIndex index).afterAll calls = b) :
    (∀ count b' w, After b entry count b' w →
      (w.stacked.map SourceUnit.key).Nodup ∧
      (∀ key, key ∈ w.stacked.map SourceUnit.key ↔ w.marks.get? key = some .visiting) ∧
      (∀ unit ∈ w.stacked, w.marks.get? unit.key ≠ some .done) ∧
      (w.stacked.IsChain fun upper lower =>
        ∃ edge ∈ lower.imports, (b'.resolve lower edge).1 = some upper) ∧
      (∀ key, w.marks.get? key = some .visiting →
        ∃ i, w.path.findIdx? (fun unit => unit.key == key) = some i ∧
          w.pathFrom key = w.path.drop i) ∧
      count + weight index w ≤ weight index (start entry)) ∧
    After b entry (unitsWeight (run b (start entry)).2.order)
      (run b (start entry)).1 (run b (start entry)).2 ∧
    (run b (start entry)).2.stack = [] := by
  have htruthful : b.Truthful index := by
    rw [← hb]
    exact (Bundler.kept_truthful index).afterAll calls (Bundler.truthful_ofIndex index)
  refine ⟨?_, ?_⟩
  · intro count b' w h
    obtain ⟨hb', hw⟩ := h.consistent htruthful
    refine ⟨hw.stackDistinct, fun key => (hw.visiting key).symm, fun unit => hw.not_done, ?_,
      fun key => hw.exists_findIdx?, h.count_add_weight_le htruthful⟩
    refine hw.chain.imp ?_
    rintro upper lower ⟨edge, hedge, htarget⟩
    exact ⟨edge, hedge, by rw [hb'.resolve_eq, htarget]⟩
  · obtain ⟨⟨count, h⟩, hempty⟩ := exists_after_run b entry
    have hcount := h.count_add_stackWeight htruthful
    rw [entered, stacked, hempty, List.map_nil, List.append_nil, stackWeight, Nat.add_zero]
      at hcount
    rw [← hcount]
    exact ⟨h, hempty⟩

/-- Two units that import each other, and one that imports the first of them. -/
def tailedPair : UnitIndex where
  project := UnitIndex.unitsOf .project (.ofList [(['a'], Bundler.importOf ['b']),
    (['b'], Bundler.importOf ['a']), (['c'], Bundler.importOf ['a'])])
  library := .empty
  aliases := .empty

/-- From the third unit the cycle is met after two rounds and begins at the second place of the
path, and after six rounds the walk is over. -/
theorem tailedPair_finds_cycle :
    ∃ b w w', After (.ofIndex tailedPair) (Bundler.oneImport ['c'] ['a']) 2 b w ∧
      w.marks.get? (Bundler.oneImport ['a'] ['b']).key = some .visiting ∧
      w.path.findIdx? (fun unit => unit.key == (Bundler.oneImport ['a'] ['b']).key) = some 1 ∧
      w.pathFrom (Bundler.oneImport ['a'] ['b']).key
        = [Bundler.oneImport ['a'] ['b'], Bundler.oneImport ['b'] ['a']] ∧
      (∃ b', After (.ofIndex tailedPair) (Bundler.oneImport ['c'] ['a']) 6 b' w') ∧
      w'.stack = [] := by
  obtain ⟨hrounds, hover, hempty⟩ :=
    rounds_keep_path_and_end tailedPair [] (Bundler.oneImport ['c'] ['a']) rfl
  have hsix : unitsWeight (run (.ofIndex tailedPair)
      (start (Bundler.oneImport ['c'] ['a']))).2.order = 6 := by decide +kernel
  rw [Bundler.afterAll, List.foldl_nil, hsix] at hover
  have hstart : After (.ofIndex tailedPair) (Bundler.oneImport ['c'] ['a']) 0 _ _ := .start
  have hone := hstart.round rfl
  have htwo := hone.round rfl
  obtain ⟨-, -, -, -, hsearch, -⟩ := hrounds 2 _ _ htwo
  obtain ⟨i, hfound, hcycle⟩ := hsearch (Bundler.oneImport ['a'] ['b']).key rfl
  have hplace : i = 1 := Option.some.inj (hfound.symm.trans rfl)
  subst hplace
  exact ⟨_, _, _, htwo, rfl, hfound, hcycle, ⟨_, hover⟩, hempty⟩

end SolidityBundler.Walk
