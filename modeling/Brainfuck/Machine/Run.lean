/-
This file runs a machine until it ends.
-/

import Brainfuck.Machine
import Brainfuck.Report

namespace Brainfuck

inductive Ending where
  | completed
  | failed (failure : Failure)
  deriving DecidableEq

/-- A fault has a report, and a position outside the text has only a message. -/
def Failure.report? (program : Program) : Failure → Option Report
  | .fault offset cause => some (Report.ofFault cause program offset)
  | .outOfText _ => none

def Failure.message (program : Program) : Failure → String
  | .fault offset cause => (Report.ofFault cause program offset).message
  | .outOfText position => Program.OutOfText.message ⟨position⟩

namespace Machine

/-- The fuel bounds the number of steps, and nothing is known when it is used up. -/
def runFor : Nat → Machine → Option (Ending × Machine)
  | 0, _ => none
  | fuel + 1, machine =>
      match machine.step with
      | (.moved, next) => runFor fuel next
      | (.exhausted, next) => some (.completed, next)
      | (.failed failure, next) => some (.failed failure, next)

/-- The run of a machine has this end. -/
def Ends (machine : Machine) (ending : Ending) (last : Machine) : Prop :=
  ∃ fuel, machine.runFor fuel = some (ending, last)

def announce (machine : Machine) : Machine :=
  machine.note (.started machine.program.size machine.tape.size)

/-- The innermost loop that is still open is named in a warning. -/
def warn (machine : Machine) : Machine :=
  match machine.loops.peek? with
  | none => machine
  | some frame => machine.note (.pending machine.loops.depth frame.origin)

def conclude (machine : Machine) : Machine :=
  machine.warn.note (.finished machine.steps machine.written)

/-- A run that fails is not noted as finished. -/
def run (fuel : Nat) (machine : Machine) : Option (Ending × Machine) :=
  (machine.announce.runFor fuel).map fun
    | (.completed, last) => (.completed, last.conclude)
    | (.failed failure, last) => (.failed failure, last)

theorem runFor_mono {fuel more : Nat} {machine : Machine} {result : Ending × Machine}
    (enough : machine.runFor fuel = some result) (le : fuel ≤ more) :
    machine.runFor more = some result := by
  induction fuel generalizing machine more with
  | zero => simp [runFor] at enough
  | succ fuel ih =>
      obtain ⟨more, rfl⟩ : ∃ rest, more = rest + 1 := ⟨more - 1, by omega⟩
      unfold runFor at enough ⊢
      split at enough
      · exact ih enough (by omega)
      · exact enough
      · exact enough

/-- A machine has at most one end. -/
theorem Ends.unique {machine first second : Machine} {one two : Ending}
    (left : machine.Ends one first) (right : machine.Ends two second) :
    one = two ∧ first = second := by
  obtain ⟨fuel, found⟩ := left
  obtain ⟨more, again⟩ := right
  have same := (runFor_mono found (Nat.le_max_left fuel more)).symm.trans
    (runFor_mono again (Nat.le_max_right fuel more))
  simpa using same

end Machine

end Brainfuck
