/-
This file compares the run under a step limit with the run without one.
-/

import Brainfuck.Evaluation
import Brainfuck.Proofs.Run.Reach
import Brainfuck.Proofs.Run.Step

namespace Brainfuck

/-- The other limits stay as they are. -/
def Limits.withSteps (limits : Limits) (stepLimit : Option Nat) : Limits := { limits with stepLimit }

namespace Machine

/-- Only the step limit is replaced. -/
def limited (machine : Machine) (stepLimit : Option Int) : Machine := { machine with stepLimit }

/-- The step limit of the request becomes the step limit of the machine. -/
theorem start_withSteps (program : Program) (limits : Limits) (stepLimit : Option Nat)
    (input : List UInt8) :
    Machine.start program (limits.withSteps stepLimit) input =
      (Machine.start program (limits.withSteps none) input).limited (stepLimit.map Int.ofNat) := rfl

/-- The commands do not look at the step limit. -/
theorem Executing.limited {machine next : Machine} {command : Command} {result : StepResult}
    (executing : machine.Executing command (result, next)) (stepLimit : Option Int) :
    (machine.limited stepLimit).Executing command (result, next.limited stepLimit) := by
  cases executing with
  | basic same applied => exact .basic same applied
  | offTape same failed => exact .offTape same failed
  | tooDeep same full => exact .tooDeep same full
  | entered same nonzero kept pushed => exact .entered same nonzero kept pushed
  | skipped same room zero found => exact .skipped same room zero found
  | unmatchedOpen same room zero missing => exact .unmatchedOpen same room zero missing
  | unmatchedClose same empty => exact .unmatchedClose same empty
  | left same top zero => exact .left same top zero
  | repeated same top nonzero => exact .repeated same top nonzero

/-- A step counts at most one command, and the count never falls. -/
theorem steps_le_step (machine : Machine) :
    machine.steps ≤ machine.step.2.steps ∧ machine.step.2.steps ≤ machine.steps + 1 := by
  rcases stepped : machine.step with ⟨result, next⟩
  cases stepping_of_eq stepped with
  | exhausted | outOfText | comment | spent => exact ⟨Nat.le_refl _, Nat.le_succ _⟩
  | command found free executed =>
      have count : next.steps = machine.steps + 1 := (execute_frame executed).2.2.1
      show machine.steps ≤ next.steps ∧ next.steps ≤ machine.steps + 1
      omega

/-- The count never falls along the way. -/
theorem Reaches.steps_le {machine later : Machine} (reached : machine.Reaches later) :
    machine.steps ≤ later.steps := by
  refine Reaches.keeps (fun other => machine.steps ≤ other.steps) reached ?_ (Nat.le_refl _)
  intro other next before stepped
  have grown := other.steps_le_step.1
  rw [stepped] at grown
  exact Nat.le_trans before grown

/-- The next step will count a command, but the limit is spent. -/
def AtLimit (machine : Machine) (limit : Nat) : Prop :=
  machine.steps = limit ∧ ∃ command, machine.program.commandAt? machine.ip = some command

/-- Only a machine at the limit goes beyond it with its next step. -/
theorem step_steps_le {machine : Machine} {limit : Nat} (within : machine.steps ≤ limit)
    (free : ¬ machine.AtLimit limit) : machine.step.2.steps ≤ limit := by
  rcases stepped : machine.step with ⟨result, next⟩
  cases stepping_of_eq stepped with
  | exhausted | outOfText | comment | spent => exact within
  | @command command _ found _ executed =>
      have bound := machine.steps_le_step.2
      rw [stepped] at bound
      have below : machine.steps ≠ limit := fun same => free ⟨same, command, found⟩
      exact Nat.le_trans bound (by omega)

/-- A step that stays within the limit does not notice it. -/
theorem step_limited {machine : Machine} {limit : Nat} (unlimited : machine.stepLimit = none)
    (within : machine.step.2.steps ≤ limit) :
    (machine.limited (some limit)).step =
      (machine.step.1, machine.step.2.limited (some limit)) := by
  rcases stepped : machine.step with ⟨result, next⟩
  rw [stepped] at within
  cases stepping_of_eq stepped with
  | exhausted past => exact step_of_size_le past
  | outOfText inside missing => exact step_of_missing inside missing
  | comment found plain => exact step_comment found plain
  | spent found spent =>
      rw [spentLimit?_of_unlimited unlimited] at spent
      contradiction
  | @command command _ found free executed =>
      have total : next.steps = machine.steps + 1 := (execute_frame executed).2.2.1
      have room : (machine.limited (some limit)).spentLimit? = none := by
        cases spent : (machine.limited (some limit)).spentLimit? with
        | none => rfl
        | some bound =>
            obtain ⟨same, reached⟩ := spentLimit?_eq_some.mp spent
            cases same
            have most : (limit : Int) ≤ machine.steps := reached
            have below : next.steps ≤ limit := within
            omega
      have here : (machine.limited (some limit)).program.commandAt?
          (machine.limited (some limit)).ip = some command := found
      have acted := (executing_of_eq executed).limited (some limit)
      exact (step_command here room).trans acted.eq

/-- At the limit the next command is refused. -/
theorem AtLimit.step {machine : Machine} {limit : Nat} (reached : machine.AtLimit limit) :
    (machine.limited (some limit)).step =
      (.failed (.fault machine.ip (.stepLimit limit)), (machine.limited (some limit)).passed) := by
  obtain ⟨same, command, found⟩ := reached
  have spent : (machine.limited (some limit)).spentLimit? = some limit :=
    spentLimit?_eq_some.mpr ⟨rfl, Int.ofNat_le.mpr (Nat.le_of_eq same.symm)⟩
  exact step_spent found spent

/-- What is reached within the limit is reached under the limit as well. -/
theorem Reaches.limited {machine later : Machine} {limit : Nat} (reached : machine.Reaches later)
    (unlimited : machine.stepLimit = none) (within : later.steps ≤ limit) :
    (machine.limited (some limit)).Reaches (later.limited (some limit)) := by
  obtain ⟨count, found⟩ := reached
  induction count generalizing machine with
  | zero =>
      cases found
      exact .refl _
  | succ count ih =>
      obtain ⟨next, moved, rest⟩ := exists_of_after_succ found
      have grown : next.steps ≤ later.steps := Reaches.steps_le ⟨count, rest⟩
      have small : machine.step.2.steps ≤ limit := by
        rw [moved]
        exact Nat.le_trans grown within
      have same := step_limited unlimited small
      rw [moved] at same
      exact (ih ((step_frame moved).2.1.trans unlimited) rest).head same

/-- The text and the limit stay the same along the way. -/
theorem Reaches.frame {machine later : Machine} (reached : machine.Reaches later) :
    later.program = machine.program ∧ later.stepLimit = machine.stepLimit := by
  refine Reaches.keeps (fun other => other.program = machine.program ∧
    other.stepLimit = machine.stepLimit) reached ?_ ⟨rfl, rfl⟩
  intro other next before stepped
  obtain ⟨text, limit, -⟩ := step_frame stepped
  exact ⟨text.trans before.1, limit.trans before.2⟩

/-- A run that ends within the limit ends under the limit in the same way. -/
theorem Ends.limited {machine last : Machine} {ending : Ending} {limit : Nat}
    (ended : machine.Ends ending last) (unlimited : machine.stepLimit = none)
    (within : last.steps ≤ limit) :
    (machine.limited (some limit)).Ends ending (last.limited (some limit)) := by
  obtain ⟨stopped, reached, final⟩ := ends_iff.mp ended
  have grown := stopped.steps_le_step.1
  rw [final] at grown
  have small : stopped.step.2.steps ≤ limit := by
    rw [final]
    exact within
  have same := step_limited (reached.frame.2.trans unlimited) small
  rw [final] at same
  exact ends_iff.mpr ⟨_, reached.limited unlimited (Nat.le_trans grown within), same⟩

/-- A run under the limit ends as without it or is cut before the command that would exceed it. -/
theorem ends_or_cut {machine last : Machine} {ending : Ending} {limit fuel : Nat}
    (unlimited : machine.stepLimit = none) (within : machine.steps ≤ limit)
    (ended : (machine.limited (some limit)).runFor fuel = some (ending, last)) :
    (∃ original, machine.Ends ending original ∧ original.steps ≤ limit) ∨
      ∃ cut, machine.Reaches cut ∧ cut.AtLimit limit := by
  induction fuel generalizing machine with
  | zero => simp [runFor] at ended
  | succ fuel ih =>
      by_cases reached : machine.AtLimit limit
      · exact .inr ⟨machine, .refl machine, reached⟩
      · have below := step_steps_le within reached
        rw [runFor, step_limited unlimited below] at ended
        rcases stepped : machine.step with ⟨result, next⟩
        rw [stepped] at below ended
        cases result with
        | moved =>
            rcases ih ((step_frame stepped).2.1.trans unlimited) below ended with found | found
            · obtain ⟨original, stops, small⟩ := found
              exact .inl ⟨original, ((Reaches.of_step stepped).ends_iff).mpr stops, small⟩
            · obtain ⟨cut, later, spent⟩ := found
              exact .inr ⟨cut, later.head stepped, spent⟩
        | exhausted | failed =>
            cases ended
            refine .inl ⟨next, ends_iff.mpr ⟨machine, .refl machine, stepped⟩, below⟩

/-- A move under a limit counts one of the commands that are left or passes a comment. -/
theorem step_moved_progress {machine next : Machine} {limit : Int}
    (bounded : machine.stepLimit = some limit) (moved : machine.step = (.moved, next)) :
    machine.steps < limit ∧ next.steps = machine.steps + 1 ∨
      next.steps = machine.steps ∧ machine.ip < machine.program.size ∧
        next.ip = machine.ip + 1 := by
  cases stepping_of_eq moved with
  | comment found plain => exact .inr ⟨rfl, Program.lt_size_of_byteAt? found, rfl⟩
  | command found free executed =>
      refine .inl ⟨?_, (execute_frame executed).2.2.1⟩
      apply Int.lt_of_not_ge
      intro reached
      have spent := spentLimit?_eq_some.mpr ⟨bounded, reached⟩
      rw [free] at spent
      contradiction

/-- A run under a step limit always ends. -/
theorem exists_ends_of_stepLimit (machine : Machine) {limit : Int}
    (bounded : machine.stepLimit = some limit) : ∃ ending last, machine.Ends ending last := by
  rcases stepped : machine.step with ⟨result, next⟩
  cases result with
  | moved =>
      obtain ⟨text, kept, -⟩ := step_frame stepped
      have progress := step_moved_progress bounded stepped
      obtain ⟨ending, last, ended⟩ := exists_ends_of_stepLimit next (kept.trans bounded)
      exact ⟨ending, last, (Reaches.of_step stepped).ends_iff.mpr ended⟩
  | exhausted => exact ⟨.completed, next, ends_iff.mpr ⟨machine, .refl machine, stepped⟩⟩
  | failed failure => exact ⟨.failed failure, next, ends_iff.mpr ⟨machine, .refl machine, stepped⟩⟩
termination_by ((limit - machine.steps).toNat, (machine.program.size - machine.ip).toNat)
decreasing_by
  rcases progress with counted | passed
  · exact .left _ _ (by omega)
  · rw [passed.1, text]
    exact .right _ (by omega)

/-- The closing notes do not mention the step limit. -/
theorem close_limited (ending : Ending) (machine : Machine) (stepLimit : Option Int) :
    ending.close (machine.limited stepLimit) = (ending.close machine).limited stepLimit := by
  cases ending with
  | failed failure => rfl
  | completed =>
      simp only [Ending.close, conclude, warn, limited]
      split <;> rfl

/-- A machine at the limit fails under the limit. -/
theorem AtLimit.ends {machine cut : Machine} {limit : Nat} (spent : cut.AtLimit limit)
    (reached : machine.Reaches cut) (unlimited : machine.stepLimit = none) :
    (machine.limited (some limit)).Ends (.failed (.fault cut.ip (.stepLimit limit)))
      (cut.limited (some limit)).passed :=
  ends_iff.mpr ⟨_, reached.limited unlimited (Nat.le_of_eq spent.1), spent.step⟩

end Machine

open Machine in
/--
A run that counts no more commands than the limit allows ends as it does without the limit, and any
other run is cut right before the first command beyond the limit.
-/
theorem stepLimit_cuts_run (program : Program) (limits : Limits) (input : List UInt8) (limit : Nat) :
    (∀ ending last, (start program (limits.withSteps none) input).Finishes ending last →
      last.steps ≤ limit →
      (start program (limits.withSteps (some limit)) input).Finishes ending
        (last.limited (some limit)) ∧
      ∀ sink, RunOutcome.ofRun sink ending (last.limited (some limit)) =
        RunOutcome.ofRun sink ending last) ∧
    ((¬ ∃ ending last, (start program (limits.withSteps none) input).Finishes ending last ∧
        last.steps ≤ limit) →
      ∃ cut command, (start program (limits.withSteps none) input).announce.Reaches cut ∧
        cut.steps = limit ∧ program.commandAt? cut.ip = some command ∧
        (start program (limits.withSteps (some limit)) input).Finishes
          (.failed (.fault cut.ip (.stepLimit limit))) (cut.limited (some limit)).passed) := by
  have unlimited : (start program (limits.withSteps none) input).announce.stepLimit = none := rfl
  rw [start_withSteps program limits (some limit) input]
  constructor
  · intro ending last finished within
    obtain ⟨stopped, ended, rfl⟩ := finishes_iff.mp finished
    rw [close_eq] at within
    have same := close_limited ending stopped (some limit)
    exact ⟨finishes_iff.mpr ⟨_, ended.limited unlimited within, same⟩, fun sink => rfl⟩
  · intro beyond
    obtain ⟨ending, last, fuel, ended⟩ := exists_ends_of_stepLimit
      ((start program (limits.withSteps none) input).announce.limited (some limit)) rfl
    rcases ends_or_cut unlimited (Nat.zero_le limit) ended with within | found
    · obtain ⟨original, ends, small⟩ := within
      refine absurd ⟨ending, _, finishes_iff.mpr ⟨original, ends, rfl⟩, ?_⟩ beyond
      rw [close_eq]
      exact small
    · obtain ⟨cut, reached, spent⟩ := found
      have ⟨count, command, here⟩ := spent
      rw [reached.frame.1] at here
      exact ⟨cut, command, reached, count, here,
        finishes_iff.mpr ⟨_, spent.ends reached unlimited, rfl⟩⟩

open Machine in
/-- The limit of two lets this text end after its comment, and the limit of one cuts it. -/
theorem stepLimit_cuts_run_two_commands :
    (∃ last, (start #[43, 43, 35] (Limits.withSteps ⟨1, 1, none, by decide, by decide⟩ (some 2))
      []).Finishes .completed last ∧ last.steps = 2) ∧
    ∃ (cut : Machine) (command : Command), cut.steps = 1 ∧
      Program.commandAt? #[43, 43, 35] cut.ip = some command ∧
      (start #[43, 43, 35] (Limits.withSteps ⟨1, 1, none, by decide, by decide⟩ (some 1))
        []).Finishes (.failed (.fault cut.ip (.stepLimit 1))) (cut.limited (some 1)).passed := by
  have finished : ∃ last, (start #[43, 43, 35]
      (Limits.withSteps ⟨1, 1, none, by decide, by decide⟩ none) []).Finishes .completed last ∧
        last.steps = 2 := ⟨_, ⟨4, rfl⟩, rfl⟩
  obtain ⟨last, finished, count⟩ := finished
  constructor
  · exact ⟨_, ((stepLimit_cuts_run _ _ _ 2).1 _ last finished (Nat.le_of_eq count)).1, count⟩
  · have beyond : ¬ ∃ ending last, (start #[43, 43, 35]
        (Limits.withSteps ⟨1, 1, none, by decide, by decide⟩ none) []).Finishes ending last ∧
          last.steps ≤ 1 := by
      rintro ⟨ending, other, again, small⟩
      obtain ⟨-, rfl⟩ := finished.unique again
      omega
    obtain ⟨cut, command, -, here⟩ := (stepLimit_cuts_run _ _ _ 1).2 beyond
    exact ⟨cut, command, here⟩

end Brainfuck
