/-
The walk through an import graph.

From an entry, units are visited depth first with an explicit stack of unfinished units,
each with the statements it has still to follow.  A unit is marked when it is put on the
stack and marked again when it is finished; finished units are listed in that order, so a
unit comes behind everything it imports.  A statement that leads to a unit still on the
stack closes a cycle, and the walk goes on without following it.

The walk ends on every graph.  Its measure counts the statements waiting on the stack and
those of the units not yet marked, with one more for each unit; `weight_lt_of_step` says that
every step lowers it.
-/
import SolidityBundler.Bundle.Bundler

namespace SolidityBundler

inductive Mark
  /-- On the stack. -/
  | visiting
  /-- Finished. -/
  | done
  deriving DecidableEq, Repr

/-- A unit on the stack, with the statements it has still to follow. -/
structure Frame where
  unit : SourceUnit
  pending : List ImportEdge

structure Walk where
  /-- The unfinished units, the latest first. -/
  stack : List Frame
  marks : Table UnitKey Mark
  /-- The finished units, the earliest first. -/
  order : List SourceUnit

namespace Walk

def start (entry : SourceUnit) : Walk where
  stack := [{ unit := entry, pending := entry.imports }]
  marks := Table.empty.insert entry.key .visiting
  order := []

/-- The units from the entry to the top of the stack. -/
def path (w : Walk) : List SourceUnit := (w.stack.map Frame.unit).reverse

/-- The part of the path that begins with the unit identified by `key`. -/
def pathFrom (w : Walk) (key : UnitKey) : List SourceUnit :=
  w.path.dropWhile fun unit => unit.key != key

def finish (w : Walk) (unit : SourceUnit) (below : List Frame) : Walk where
  stack := below
  marks := w.marks.insert unit.key .done
  order := w.order ++ [unit]

def enter (w : Walk) (unit : SourceUnit) : Walk where
  stack := { unit, pending := unit.imports } :: w.stack
  marks := w.marks.insert unit.key .visiting
  order := w.order

/-- What a walk does with the unit that the statement `edge` refers to; the statement itself is
no longer on the stack. -/
def follow (b : Bundler) (w : Walk) (edge : ImportEdge) (target : SourceUnit) : Bundler × Walk :=
  match w.marks.get? target.key with
  | some .done => (b, w)
  | some .visiting => (b.reportCycle (w.pathFrom target.key) edge, w)
  | none => (b, w.enter target)

/-- One step of a walk, if it is not over. -/
def step? (b : Bundler) (w : Walk) : Option (Bundler × Walk) :=
  match w.stack with
  | [] => none
  | { unit, pending := [] } :: below => some (b, w.finish unit below)
  | { unit, pending := edge :: pending } :: below =>
      let w := { w with stack := { unit, pending } :: below }
      match b.resolve unit edge with
      | (none, b) => some (b, w)
      | (some target, b) => some (follow b w edge target)

/-! ### Every walk ends -/

/-- The statements of a unit, and one more for the unit itself. -/
def unitWeight (unit : SourceUnit) : Nat := unit.imports.length + 1

def unmarkedWeight (marks : Table UnitKey Mark) : List SourceUnit → Nat
  | [] => 0
  | unit :: units =>
      (if marks.contains unit.key then 0 else unitWeight unit) + unmarkedWeight marks units

def stackWeight : List Frame → Nat
  | [] => 0
  | frame :: stack => frame.pending.length + 1 + stackWeight stack

/-- What is left to do at most. -/
def weight (index : UnitIndex) (w : Walk) : Nat :=
  unmarkedWeight w.marks index.units + stackWeight w.stack

theorem contains_insert {marks : Table UnitKey Mark} {key : UnitKey} {mark : Mark}
    {other : UnitKey} (h : marks.contains other = true) :
    (marks.insert key mark).contains other = true := by
  simp only [Table.contains, Table.get?_insert] at h ⊢
  split <;> simp_all

theorem unmarkedWeight_insert_le (marks : Table UnitKey Mark) (key : UnitKey) (mark : Mark)
    (units : List SourceUnit) :
    unmarkedWeight (marks.insert key mark) units ≤ unmarkedWeight marks units := by
  induction units with
  | nil => exact Nat.le_refl _
  | cons unit units ih =>
      simp only [unmarkedWeight] at ih ⊢
      by_cases h : marks.contains unit.key
      · simp only [h, contains_insert h, if_true]
        omega
      · simp only [h]
        split <;> simp <;> omega

/-- A mark on a unit that had none takes the weight of that unit away. -/
theorem unmarkedWeight_insert_add_le {marks : Table UnitKey Mark} {target : SourceUnit}
    {units : List SourceUnit} (mark : Mark) (hmem : target ∈ units)
    (hnew : marks.get? target.key = none) :
    unmarkedWeight (marks.insert target.key mark) units + unitWeight target
      ≤ unmarkedWeight marks units := by
  induction units with
  | nil => simp at hmem
  | cons unit units ih =>
      have hrest := unmarkedWeight_insert_le marks target.key mark units
      simp only [unmarkedWeight] at ih hrest ⊢
      rcases List.mem_cons.1 hmem with rfl | hmem
      · simp only [Table.contains, Table.get?_insert, hnew] at hrest ⊢
        simp
        omega
      · have := ih hmem
        by_cases h : marks.contains unit.key
        · simp only [h, contains_insert h, if_true]
          omega
        · simp only [h]
          split <;> simp <;> omega

theorem weight_lt_of_follow {index : UnitIndex} {b : Bundler} {w : Walk} {edge : ImportEdge}
    {target : SourceUnit} (hmem : target ∈ index.units) :
    weight index (follow b w edge target).2 ≤ weight index w := by
  unfold follow
  split
  · exact Nat.le_refl _
  · exact Nat.le_refl _
  · next hnew =>
      have := unmarkedWeight_insert_add_le .visiting hmem hnew
      simp only [weight, enter, stackWeight, unitWeight] at this ⊢
      omega

theorem follow_index (b : Bundler) (w : Walk) (edge : ImportEdge) (target : SourceUnit) :
    (follow b w edge target).1.index = b.index := by
  unfold follow
  split
  · rfl
  · exact b.reportCycle_index _ _
  · rfl

theorem step?_index {b b' : Bundler} {w w' : Walk} (h : step? b w = some (b', w')) :
    b'.index = b.index := by
  unfold step? at h
  split at h
  · simp at h
  · simp only [Option.some.injEq, Prod.mk.injEq] at h
    rw [← h.1]
  · next unit edge pending below _ =>
      have hindex := b.resolve_index unit edge
      split at h
      · next hresolve =>
          simp only [Option.some.injEq, Prod.mk.injEq] at h
          rw [← h.1, ← hindex, hresolve]
      · next hresolve =>
          have := congrArg (fun r => r.1.index) (Option.some.inj h)
          rw [← this, follow_index, ← hindex, hresolve]

theorem weight_lt_of_step {b b' : Bundler} {w w' : Walk} (h : step? b w = some (b', w')) :
    weight b'.index w' < weight b.index w := by
  rw [step?_index h]
  unfold step? at h
  split at h
  · simp at h
  · next unit below hstack =>
      simp only [Option.some.injEq, Prod.mk.injEq] at h
      rw [← h.2]
      have := unmarkedWeight_insert_le w.marks unit.key .done b.index.units
      simp only [weight, finish, hstack, stackWeight]
      simp only [List.length_nil]
      omega
  · next unit edge pending below hstack =>
      have hlt : weight b.index { w with stack := { unit, pending } :: below }
          < weight b.index w := by
        simp [weight, hstack, stackWeight]
      split at h
      · simp only [Option.some.injEq, Prod.mk.injEq] at h
        rw [← h.2]
        exact hlt
      · next target b₁ hresolve =>
          have hmem : target ∈ b.index.units :=
            Bundler.mem_units_of_resolve
              (show (b.resolve unit edge).1 = some target by rw [hresolve])
          have hw : _ = w' := congrArg (fun r => r.2) (Option.some.inj h)
          rw [← hw]
          exact Nat.lt_of_le_of_lt (weight_lt_of_follow hmem) hlt

/-- Takes steps until the walk is over. -/
def run (b : Bundler) (w : Walk) : Bundler × Walk :=
  match _h : step? b w with
  | none => (b, w)
  | some (b', w') => run b' w'
termination_by weight b.index w
decreasing_by exact weight_lt_of_step _h

end Walk

end SolidityBundler
