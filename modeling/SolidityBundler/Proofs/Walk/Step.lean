/-
What one step of a walk does.

A step looks at the unit on top of the stack.  If nothing is pending, the unit is finished.
Otherwise the next statement is taken off, and it refers to nothing, to a finished unit, to
a unit that is still on the stack, or to a new one.  `Move` lists these five cases, with
what is known in each and what becomes of the walk and of the bundler.  Every invariant of
the walk is proved by going through them.

A run takes steps until none is left, so what every step keeps holds at its end, and there
the stack is empty.
-/
import SolidityBundler.Proofs.Bundler.Sound

namespace SolidityBundler.Walk

/-- The walk whose top unit has `pending` left to follow. -/
def advance (w : Walk) (unit : SourceUnit) (pending : List ImportEdge) (below : List Frame) :
    Walk :=
  { w with stack := { unit, pending } :: below }

/-- The units on the stack, the latest first. -/
def stacked (w : Walk) : List SourceUnit := w.stack.map Frame.unit

/-- What a step can do. -/
inductive Move (index : UnitIndex) (b : Bundler) (w : Walk) : Bundler × Walk → Prop
  /-- The top unit has followed all its statements. -/
  | finish {unit : SourceUnit} {below : List Frame}
      (hstack : w.stack = { unit, pending := [] } :: below) :
      Move index b w (b, w.finish unit below)
  /-- The statement refers to nothing. -/
  | miss {unit : SourceUnit} {edge : ImportEdge} {pending : List ImportEdge} {below : List Frame}
      (hstack : w.stack = { unit, pending := edge :: pending } :: below)
      (htarget : index.target? unit.name edge.specifier = none) :
      Move index b w ((b.resolve unit edge).2, w.advance unit pending below)
  /-- It refers to a finished unit. -/
  | skip {unit target : SourceUnit} {edge : ImportEdge} {pending : List ImportEdge}
      {below : List Frame} (hstack : w.stack = { unit, pending := edge :: pending } :: below)
      (htarget : index.target? unit.name edge.specifier = some target)
      (hmark : w.marks.get? target.key = some .done) :
      Move index b w ((b.resolve unit edge).2, w.advance unit pending below)
  /-- It refers to a unit on the stack. -/
  | close {unit target : SourceUnit} {edge : ImportEdge} {pending : List ImportEdge}
      {below : List Frame} (hstack : w.stack = { unit, pending := edge :: pending } :: below)
      (htarget : index.target? unit.name edge.specifier = some target)
      (hmark : w.marks.get? target.key = some .visiting) :
      Move index b w
        ((b.resolve unit edge).2.reportCycle (w.pathFrom target.key) edge,
          w.advance unit pending below)
  /-- It refers to a unit not seen so far. -/
  | enter {unit target : SourceUnit} {edge : ImportEdge} {pending : List ImportEdge}
      {below : List Frame} (hstack : w.stack = { unit, pending := edge :: pending } :: below)
      (htarget : index.target? unit.name edge.specifier = some target)
      (hmark : w.marks.get? target.key = none) :
      Move index b w ((b.resolve unit edge).2, (w.advance unit pending below).enter target)

variable {index : UnitIndex} {b : Bundler} {w : Walk}

theorem stacked_of_stack {unit : SourceUnit} {pending : List ImportEdge} {below : List Frame}
    (hstack : w.stack = { unit, pending } :: below) :
    w.stacked = unit :: below.map Frame.unit := by
  rw [stacked, hstack]
  rfl

theorem stacked_advance {unit : SourceUnit} {edge : ImportEdge} {pending : List ImportEdge}
    {below : List Frame} (hstack : w.stack = { unit, pending := edge :: pending } :: below) :
    (w.advance unit pending below).stacked = w.stacked := by
  rw [stacked_of_stack hstack]
  rfl

private theorem pathFrom_advance {unit : SourceUnit} {edge : ImportEdge} {pending : List ImportEdge}
    {below : List Frame} (hstack : w.stack = { unit, pending := edge :: pending } :: below)
    (key : UnitKey) : (w.advance unit pending below).pathFrom key = w.pathFrom key := by
  show (w.advance unit pending below).stacked.reverse.dropWhile _ = w.stacked.reverse.dropWhile _
  rw [stacked_advance hstack]

theorem step?_eq_none_iff : step? b w = none ↔ w.stack = [] := by
  unfold step?
  split
  · next hstack => simp [hstack]
  · next hstack => simp [hstack]
  · next hstack =>
      split
      · simp [hstack]
      · simp [hstack]

/-- With statements pending, a step resolves the first of them and follows it. -/
theorem step?_of_edge {unit : SourceUnit} {edge : ImportEdge} {pending : List ImportEdge}
    {below : List Frame} (hstack : w.stack = { unit, pending := edge :: pending } :: below) :
    step? b w = match (b.resolve unit edge).1 with
      | none => some ((b.resolve unit edge).2, w.advance unit pending below)
      | some target =>
          some (follow (b.resolve unit edge).2 (w.advance unit pending below) edge target) := by
  unfold step?
  simp only [hstack]
  rcases b.resolve unit edge with ⟨answer, b'⟩
  cases answer with
  | none => rfl
  | some target => rfl

theorem move_of_truthful (hb : b.Truthful index) {c : Bundler × Walk} (h : step? b w = some c) :
    Move index b w c := by
  match hstack : w.stack with
  | [] =>
      rw [step?_eq_none_iff.2 hstack] at h
      simp at h
  | { unit, pending := [] } :: below =>
      unfold step? at h
      rw [hstack] at h
      rw [← Option.some.inj h]
      exact .finish hstack
  | { unit, pending := edge :: pending } :: below =>
      rw [step?_of_edge hstack, hb.resolve_eq unit edge] at h
      cases htarget : index.target? unit.name edge.specifier with
      | none =>
          rw [htarget] at h
          rw [← Option.some.inj h]
          exact .miss hstack htarget
      | some target =>
          rw [htarget] at h
          rw [← Option.some.inj h]
          unfold follow
          split
          · next hmark => exact .skip hstack htarget hmark
          · next hmark =>
              rw [pathFrom_advance hstack]
              exact .close hstack htarget hmark
          · next hmark => exact .enter hstack htarget hmark

theorem move_of_step? (hb : b.Sound index) {c : Bundler × Walk} (h : step? b w = some c) :
    Move index b w c :=
  move_of_truthful hb.toTruthful h

/-! ### From a step to a run -/

/-- What every step keeps holds at the end of a run, where no unit is left on the stack. -/
theorem run_induction {P : Bundler → Walk → Prop}
    (hstep : ∀ b w b' w', P b w → step? b w = some (b', w') → P b' w') (h : P b w) :
    P (run b w).1 (run b w).2 ∧ (run b w).2.stack = [] := by
  induction b, w using run.induct with
  | case1 b w hnone =>
      rw [run, hnone]
      exact ⟨h, step?_eq_none_iff.1 hnone⟩
  | case2 b w b' w' hsome ih =>
      rw [run, hsome]
      exact ih (hstep b w b' w' h hsome)

end SolidityBundler.Walk
