/-
This file proves that more cells and more room for loops do not change a run that had enough.
-/

import Brainfuck.Evaluation
import Brainfuck.Proofs.Run.Transfer

namespace Brainfuck

/-- More cells or a deeper stack could have prevented these faults. -/
inductive Fault.Cramped : Fault → Prop where
  | tooDeep (limit : Nat) : Cramped (.tooDeep limit)
  | offTape (last : Nat) : Cramped (.offTape (.right last))

namespace Tape

/-- Blank cells are added at the right end. -/
def widen (tape : Tape) (extra : Nat) : Tape where
  cells := tape.cells ++ Array.replicate extra 0
  cursor := tape.cursor
  inside := by
    have inside := tape.inside
    rw [Array.size_append]
    omega

@[simp] theorem read_widen (tape : Tape) (extra : Nat) : (tape.widen extra).read = tape.read := by
  simp [read, widen, Array.getElem_append_left tape.inside]

theorem widen_write (tape : Tape) (value : UInt8) (extra : Nat) :
    (tape.widen extra).write value = (tape.write value).widen extra := by
  simp [write, widen, Array.set_append_left tape.inside]

theorem widen_blank {size larger : Nat} (positive : 0 < size) (roomy : 0 < larger)
    (more : size ≤ larger) :
    (blank size positive).widen (larger - size) = blank larger roomy := by
  simp [blank, widen, Nat.add_sub_cancel' more]

theorem widen_advance? {tape next : Tape} (moved : tape.advance? = some next) (extra : Nat) :
    (tape.widen extra).advance? = some (next.widen extra) := by
  obtain ⟨cells, cursor⟩ := advance?_eq_some.mp moved
  refine advance?_eq_some.mpr ⟨?_, cursor⟩
  simp only [widen, cells]

theorem widen_retreat? {tape next : Tape} (moved : tape.retreat? = some next) (extra : Nat) :
    (tape.widen extra).retreat? = some (next.widen extra) := by
  obtain ⟨cells, cursor⟩ := retreat?_eq_some.mp moved
  refine retreat?_eq_some.mpr ⟨?_, cursor⟩
  simp only [widen, cells]

end Tape

namespace LoopStack

/-- The stack has room for more frames. -/
def raise (stack : LoopStack) (extra : Nat) : LoopStack :=
  ⟨stack.capacity + extra, stack.frames, Nat.le_trans stack.within (Nat.le_add_right _ _)⟩

theorem raise_empty {capacity larger : Nat} (more : capacity ≤ larger) :
    (empty capacity).raise (larger - capacity) = empty larger := by
  simp [empty, raise, Nat.add_sub_cancel' more]

theorem full_raise {stack : LoopStack} (room : stack.full = false) (extra : Nat) :
    (stack.raise extra).full = false := by
  have below : ¬ stack.capacity ≤ stack.depth := of_decide_eq_false room
  refine decide_eq_false fun above => below ?_
  exact Nat.le_trans (Nat.le_add_right _ extra) above

end LoopStack

def Store.widen (store : Store) (extra : Nat) : Store := { store with tape := store.tape.widen extra }

/-- A basic command does the same on a longer tape, unless it moves past the old end. -/
theorem Basic.apply_widen (action : Basic) (store : Store)
    (fits : ∀ last, action.apply store ≠ .error (.right last)) (extra : Nat) :
    action.apply (store.widen extra) = (action.apply store).map (·.widen extra) := by
  cases action with
  | right =>
      simp only [Basic.apply] at fits ⊢
      cases moved : store.tape.advance? with
      | none => simp [moved] at fits
      | some tape =>
          simp only [Store.widen, Tape.widen_advance? moved]
          rfl
  | left =>
      simp only [Basic.apply]
      cases moved : store.tape.retreat? with
      | none =>
          have first : store.tape.cursor = 0 := Tape.retreat?_eq_none.mp moved
          have edge : (store.widen extra).tape.retreat? = none := Tape.retreat?_eq_none.mpr first
          simp only [edge]
          rfl
      | some tape =>
          simp only [Store.widen, Tape.widen_retreat? moved]
          rfl
  | increment | decrement | output | input =>
      simp [Basic.apply, Store.widen, Except.map, Tape.increment, Tape.decrement, Tape.widen_write]

namespace Machine

/-- The machine has more cells and more room for loops. -/
def roomier (machine : Machine) (cells frames : Nat) : Machine :=
  { machine with tape := machine.tape.widen cells, loops := machine.loops.raise frames }

variable {machine next : Machine}

/-- A command that does not fail for want of room does the same with more of it. -/
theorem Executing.roomier {command : Command} {result : StepResult}
    (executing : machine.Executing command (result, next))
    (fits : ∀ offset cause, result = .failed (.fault offset cause) → ¬ cause.Cramped)
    (cells frames : Nat) :
    (machine.roomier cells frames).Executing command (result, next.roomier cells frames) := by
  have read : (machine.roomier cells frames).tape.read = machine.tape.read := Tape.read_widen _ _
  cases executing with
  | @basic action store same applied =>
      have widened := action.apply_widen machine.store (by simp [applied]) cells
      rw [applied] at widened
      have acted : (machine.roomier cells frames).Executing command
          (.moved, (machine.roomier cells frames).absorb (store.widen cells)) := .basic same widened
      exact acted
  | @offTape action edge same failed =>
      cases edge with
      | right last => exact absurd (.offTape last) (fits _ _ rfl)
      | left =>
          have widened := action.apply_widen machine.store (by simp [failed]) cells
          rw [failed] at widened
          exact .offTape same widened
  | tooDeep same full => exact absurd (.tooDeep _) (fits _ _ rfl)
  | @entered loops same nonzero kept pushed =>
      have acted : (machine.roomier cells frames).Executing command
          (.moved, { machine.roomier cells frames with loops := loops.raise frames }) :=
        .entered same (read ▸ nonzero) (congrArg (· + frames) kept) pushed
      exact acted
  -- A full stack refuses a loop whatever the cell is, so a skipped loop found room in both stacks.
  | skipped same room zero found =>
      exact .skipped same (LoopStack.full_raise room frames) (read.trans zero) found
  | unmatchedOpen same room zero missing =>
      exact .unmatchedOpen same (LoopStack.full_raise room frames) (read.trans zero) missing
  | unmatchedClose same empty => exact .unmatchedClose same empty
  | left same top zero => exact .left same top (read.trans zero)
  | repeated same top nonzero => exact .repeated same top (read ▸ nonzero)

/-- A step that does not fail for want of room is the same with more of it. -/
theorem step_roomier {result : StepResult} (stepped : machine.step = (result, next))
    (fits : ∀ offset cause, result = .failed (.fault offset cause) → ¬ cause.Cramped)
    (cells frames : Nat) :
    (machine.roomier cells frames).step = (result, next.roomier cells frames) := by
  cases stepping_of_eq stepped with
  | exhausted past => exact step_of_size_le past
  | outOfText inside missing => exact step_of_missing inside missing
  | comment found plain => exact step_comment found plain
  | spent found spent => exact step_spent found spent
  | @command command _ found free executed =>
      have here : (machine.roomier cells frames).program.commandAt?
          (machine.roomier cells frames).ip = some command := found
      have acted := (executing_of_eq executed).roomier fits cells frames
      exact (step_command here free).trans acted.eq

/-- A run that does not fail for want of room ends in the same way with more of it. -/
theorem Ends.roomier {other last : Machine} {ending : Ending} {cells frames : Nat}
    (ended : machine.Ends ending last)
    (fits : ∀ offset cause, ending = .failed (.fault offset cause) → ¬ cause.Cramped)
    (initially : machine.Mirrors (·.roomier cells frames) other) :
    ∃ otherLast, other.Ends ending otherLast ∧ last.Mirrors (·.roomier cells frames) otherLast := by
  refine ended.of_related ?_ initially ?_
  · intro machine other next mirrors moved
    exact mirrors.step (step_roomier moved (by simp) cells frames)
  · intro machine other last mirrors stopped
    refine mirrors.step (step_roomier stopped ?_ cells frames)
    intro offset cause failed
    refine fits offset cause ?_
    cases ending with
    | completed => contradiction
    | failed failure => exact congrArg Ending.failed (StepResult.failed.inj failed)

/-- A new machine with higher limits is one with lower limits that was given the difference. -/
theorem mirrors_start (program : Program) (input : List UInt8) {limits roomy : Limits}
    (sameSteps : roomy.stepLimit = limits.stepLimit) (moreCells : limits.tapeSize ≤ roomy.tapeSize)
    (moreFrames : limits.loopDepth ≤ roomy.loopDepth) :
    (start program limits input).announce.Mirrors
      (·.roomier (roomy.tapeSize - limits.tapeSize) (roomy.loopDepth - limits.loopDepth))
      (start program roomy input).announce := by
  refine ⟨(start program roomy input).announce.notes, ?_⟩
  simp only [roomier, announce, start, note, noted, sameSteps, LoopStack.raise_empty moreFrames,
    Tape.widen_blank limits.hasCell roomy.hasCell moreCells]

end Machine

/-- Blank cells stand after the cells of the summary. -/
def Summary.padded (summary : Summary) (extra : Nat) : Summary :=
  { summary with cells := summary.cells ++ Array.replicate extra 0 }

open Machine in
/--
A run that neither opens a loop too many nor moves past the last cell ends in the same way under
higher limits, and only blank cells are added to what it leaves.
-/
theorem run_unchanged_by_more_room (program : Program) (input : List UInt8) (limits roomy : Limits)
    (sameSteps : roomy.stepLimit = limits.stepLimit) (moreCells : limits.tapeSize ≤ roomy.tapeSize)
    (moreFrames : limits.loopDepth ≤ roomy.loopDepth) (ending : Ending) (last : Machine)
    (finished : (start program limits input).Finishes ending last)
    (fits : ∀ offset cause, ending = .failed (.fault offset cause) → ¬ cause.Cramped) :
    ∃ roomyLast, (start program roomy input).Finishes ending roomyLast ∧
      roomyLast.tape.cells =
        last.tape.cells ++ Array.replicate (roomy.tapeSize - limits.tapeSize) 0 ∧
      roomyLast.tape.cursor = last.tape.cursor ∧ roomyLast.loops.frames = last.loops.frames ∧
      roomyLast.steps = last.steps ∧ roomyLast.output = last.output ∧
      roomyLast.input = last.input ∧
      ∀ sink, (RunOutcome.ofRun sink ending roomyLast).result =
        (RunOutcome.ofRun sink ending last).result.map
          (·.padded (roomy.tapeSize - limits.tapeSize)) := by
  obtain ⟨stopped, ended, rfl⟩ := finishes_iff.mp finished
  obtain ⟨_, roomyEnded, notes, rfl⟩ :=
    ended.roomier fits (mirrors_start program input sameSteps moreCells moreFrames)
  refine ⟨_, finishes_iff.mpr ⟨_, roomyEnded, rfl⟩, ?_⟩
  rw [close_eq, close_eq ending stopped]
  refine ⟨rfl, rfl, rfl, rfl, rfl, rfl, ?_⟩
  intro sink
  cases ending <;> rfl

open Machine in
/-- The run enters a loop, comes to the last of its two cells and fails at the left end. -/
theorem run_unchanged_by_more_room_off_left :
    ∃ last roomyLast : Machine,
      (start #[43, 91, 62, 44, 93, 60, 60] ⟨2, 1, none, by decide, by decide⟩ []).Finishes
        (.failed (.fault 6 (.offTape .left))) last ∧ last.tape.cells = #[1, 0] ∧
      (start #[43, 91, 62, 44, 93, 60, 60] ⟨4, 3, none, by decide, by decide⟩ []).Finishes
        (.failed (.fault 6 (.offTape .left))) roomyLast ∧ roomyLast.tape.cells = #[1, 0, 0, 0] := by
  have finished : ∃ last, (start #[43, 91, 62, 44, 93, 60, 60] ⟨2, 1, none, by decide, by decide⟩
      []).Finishes (.failed (.fault 6 (.offTape .left))) last ∧ last.tape.cells = #[1, 0] :=
    ⟨_, ⟨7, rfl⟩, rfl⟩
  obtain ⟨last, finished, cells⟩ := finished
  have fits : ∀ offset cause, Ending.failed (.fault 6 (.offTape .left)) =
      .failed (.fault offset cause) → ¬ cause.Cramped := by
    rintro offset cause same cramped
    cases same
    cases cramped
  obtain ⟨roomyLast, roomyFinished, padded, -⟩ := run_unchanged_by_more_room
    #[43, 91, 62, 44, 93, 60, 60] [] ⟨2, 1, none, by decide, by decide⟩
    ⟨4, 3, none, by decide, by decide⟩ rfl (by decide) (by decide) _ last finished fits
  rw [cells] at padded
  exact ⟨last, roomyLast, finished, cells, roomyFinished, padded⟩

end Brainfuck
