/-
This file carries the run of one machine over to another that follows it step by step.
-/

import Brainfuck.Proofs.Run.Reach
import Brainfuck.Proofs.Run.Step

namespace Brainfuck.Machine

section Related

variable {related : Machine → Machine → Prop}
  (moves : ∀ machine other next, related machine other → machine.step = (.moved, next) →
    ∃ otherNext, other.step = (.moved, otherNext) ∧ related next otherNext)

include moves

/-- A machine that is related to another follows each of its moves. -/
theorem after_of_related {machine other later : Machine} {count : Nat}
    (found : machine.after count = some later) (initially : related machine other) :
    ∃ otherLater, other.after count = some otherLater ∧ related later otherLater := by
  induction count generalizing machine other with
  | zero =>
      cases found
      exact ⟨other, rfl, initially⟩
  | succ count ih =>
      obtain ⟨next, moved, rest⟩ := exists_of_after_succ found
      obtain ⟨otherNext, otherMoved, kept⟩ := moves machine other next initially moved
      obtain ⟨otherLater, otherRest, final⟩ := ih rest kept
      exact ⟨otherLater, (after_succ otherMoved count).trans otherRest, final⟩

/-- If the last step can be followed as well, then both runs have the same end. -/
theorem Ends.of_related {machine other last : Machine} {ending : Ending}
    (ended : machine.Ends ending last) (initially : related machine other)
    (stops : ∀ machine other last, related machine other → machine.step = (ending.result, last) →
      ∃ otherLast, other.step = (ending.result, otherLast) ∧ related last otherLast) :
    ∃ otherLast, other.Ends ending otherLast ∧ related last otherLast := by
  obtain ⟨stopped, ⟨count, found⟩, final⟩ := ends_iff.mp ended
  obtain ⟨otherStopped, otherFound, kept⟩ := after_of_related moves found initially
  obtain ⟨otherLast, otherFinal, closing⟩ := stops stopped otherStopped last kept final
  exact ⟨otherLast, ends_iff.mpr ⟨otherStopped, ⟨count, otherFound⟩, otherFinal⟩, closing⟩

end Related

/-- Only the notes are replaced. -/
def noted (machine : Machine) (notes : Array Note) : Machine := { machine with notes }

/-- A command adds to the notes, but it does not read them. -/
theorem Executing.noted {machine next : Machine} {command : Command} {result : StepResult}
    (executing : machine.Executing command (result, next)) (notes : Array Note) :
    ∃ later, (machine.noted notes).Executing command (result, next.noted later) := by
  cases executing with
  | basic same applied => exact ⟨notes, .basic same applied⟩
  | offTape same failed => exact ⟨notes, .offTape same failed⟩
  | tooDeep same full => exact ⟨notes, .tooDeep same full⟩
  | entered same nonzero kept pushed => exact ⟨notes, .entered same nonzero kept pushed⟩
  | @skipped resume same room zero found =>
      exact ⟨notes.push (.skipped (machine.ip - 1) resume), .skipped same room zero found⟩
  | unmatchedOpen same room zero missing => exact ⟨notes, .unmatchedOpen same room zero missing⟩
  | unmatchedClose same empty => exact ⟨notes, .unmatchedClose same empty⟩
  | left same top zero => exact ⟨notes, .left same top zero⟩
  | repeated same top nonzero => exact ⟨notes, .repeated same top nonzero⟩

/-- Other notes do not change a step. -/
theorem step_noted (machine : Machine) (notes : Array Note) :
    ∃ later, (machine.noted notes).step = (machine.step.1, machine.step.2.noted later) := by
  rcases stepped : machine.step with ⟨result, next⟩
  cases stepping_of_eq stepped with
  | exhausted past => exact ⟨notes, step_of_size_le past⟩
  | outOfText inside missing => exact ⟨notes, step_of_missing inside missing⟩
  | comment found plain => exact ⟨notes, step_comment found plain⟩
  | spent found spent => exact ⟨notes, step_spent found spent⟩
  | @command command _ found free executed =>
      obtain ⟨later, acted⟩ := (executing_of_eq executed).noted notes
      have here : (machine.noted notes).program.commandAt? (machine.noted notes).ip = some command :=
        found
      exact ⟨later, (step_command here free).trans acted.eq⟩

/-- The other machine is what the change makes of this one, apart from the notes. -/
def Mirrors (change : Machine → Machine) (machine other : Machine) : Prop :=
  ∃ notes, other = (change machine).noted notes

/-- A step that the change commutes with is followed by the other machine. -/
theorem Mirrors.step {change : Machine → Machine} {machine other next : Machine}
    {result : StepResult} (mirrors : machine.Mirrors change other)
    (commutes : (change machine).step = (result, change next)) :
    ∃ otherNext, other.step = (result, otherNext) ∧ next.Mirrors change otherNext := by
  obtain ⟨notes, rfl⟩ := mirrors
  obtain ⟨later, stepped⟩ := (change machine).step_noted notes
  rw [commutes] at stepped
  exact ⟨_, stepped, later, rfl⟩

end Brainfuck.Machine
