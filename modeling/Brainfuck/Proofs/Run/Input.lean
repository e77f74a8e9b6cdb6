/-
This file proves that a run depends on its input only through the bytes that it takes.
-/

import Brainfuck.Evaluation
import Brainfuck.Proofs.Run.Reach
import Brainfuck.Proofs.Run.Step

namespace Brainfuck

/-- The unread input of the store is replaced. -/
def Store.feed (store : Store) (input : List UInt8) : Store := { store with input }

/-- Only one of the basic commands looks at the input. -/
theorem Basic.apply_feed {action : Basic} (other : action ≠ .input) (store : Store)
    (input : List UInt8) :
    action.apply (store.feed input) = (action.apply store).map (·.feed input) := by
  cases action with
  | right =>
      simp only [Basic.apply, Store.feed]
      cases store.tape.advance? <;> rfl
  | left =>
      simp only [Basic.apply, Store.feed]
      cases store.tape.retreat? <;> rfl
  | increment | decrement | output => rfl
  | input => contradiction

namespace Machine

/-- The unread input of the machine is replaced. -/
def feed (machine : Machine) (input : List UInt8) : Machine := { machine with input }

/-- The next step takes so many bytes from the input, as if it had no end. -/
def demand (machine : Machine) : Nat :=
  if machine.spentLimit? = none ∧ machine.program.commandAt? machine.ip = some .input then 1 else 0

/-- So many input commands are executed within the fuel. -/
def inputsTaken : Nat → Machine → Nat
  | 0, _ => 0
  | fuel + 1, machine =>
      match machine.step with
      | (.moved, next) => machine.demand + inputsTaken fuel next
      | _ => machine.demand

/-- The whole run has this end after so many input commands. -/
def FinishesTaking (machine : Machine) (count : Nat) (ending : Ending) (last : Machine) : Prop :=
  ∃ fuel, machine.run fuel = some (ending, last) ∧ machine.announce.inputsTaken fuel = count

theorem demand_eq_one {machine : Machine} (free : machine.spentLimit? = none)
    (found : machine.program.commandAt? machine.ip = some .input) : machine.demand = 1 :=
  if_pos ⟨free, found⟩

theorem Executing.feed {machine next : Machine} {command : Command} {result : StepResult}
    (executing : machine.Executing command (result, next)) (other : command ≠ .input)
    (input : List UInt8) : (machine.feed input).Executing command (result, next.feed input) := by
  have plain {action : Basic} (same : command = action.command) : action ≠ .input := by
    rintro rfl
    exact other same
  cases executing with
  | @basic action store same applied =>
      have fed : (machine.feed input).Executing command
          (.moved, (machine.feed input).absorb (store.feed input)) := by
        apply Executing.basic same
        show action.apply (machine.store.feed input) = _
        rw [Basic.apply_feed (plain same), applied]
        rfl
      exact fed
  | @offTape action edge same failed =>
      apply Executing.offTape same
      show action.apply (machine.store.feed input) = _
      rw [Basic.apply_feed (plain same), failed]
      rfl
  | tooDeep same full => exact .tooDeep same full
  | entered same nonzero kept pushed => exact .entered same nonzero kept pushed
  | skipped same room zero found => exact .skipped same room zero found
  | unmatchedOpen same room zero missing => exact .unmatchedOpen same room zero missing
  | unmatchedClose same empty => exact .unmatchedClose same empty
  | left same top zero => exact .left same top zero
  | repeated same top nonzero => exact .repeated same top nonzero

/-- A step that takes a byte gives the same on every input that begins with it. -/
theorem step_feed_input {machine : Machine} (free : machine.spentLimit? = none)
    (found : machine.program.commandAt? machine.ip = some .input) {input : List UInt8}
    (same : machine.input.headD 0 = input.headD 0) :
    (machine.feed input).step = (machine.step.1, machine.step.2.feed (input.drop 1)) := by
  have here : (machine.feed input).program.commandAt? (machine.feed input).ip = some .input := found
  rw [step_command found free, step_command here free]
  simp only [execute, receive, feed, counted, passed, same, List.drop_one]

/-- A step that takes no byte gives the same on every input. -/
theorem step_feed_other {machine : Machine}
    (other : machine.spentLimit? = none → machine.program.commandAt? machine.ip ≠ some .input)
    (input : List UInt8) :
    (machine.feed input).step = (machine.step.1, machine.step.2.feed input) := by
  rcases stepped : machine.step with ⟨result, next⟩
  cases stepping_of_eq stepped with
  | exhausted past => exact step_of_size_le past
  | outOfText inside missing => exact step_of_missing inside missing
  | comment found plain => exact step_comment found plain
  | spent found spent => exact step_spent found spent
  | @command command _ found free executed =>
      have plain : command ≠ .input := by
        rintro rfl
        exact other free found
      have here : (machine.feed input).program.commandAt? (machine.feed input).ip = some command :=
        found
      have acted := (executing_of_eq executed).feed plain input
      exact (step_command here free).trans acted.eq

/-- A step looks at no more of the input than it demands. -/
theorem step_feed {machine : Machine} {input : List UInt8}
    (agree : ∀ index < machine.demand, machine.input.getD index 0 = input.getD index 0) :
    (machine.feed input).step =
      (machine.step.1, machine.step.2.feed (input.drop machine.demand)) := by
  by_cases taking : machine.spentLimit? = none ∧ machine.program.commandAt? machine.ip = some .input
  · obtain ⟨free, found⟩ := taking
    rw [demand_eq_one free found] at agree ⊢
    have same := agree 0 Nat.zero_lt_one
    rw [List.getD_eq_getElem?_getD, List.getD_eq_getElem?_getD, ← List.head?_eq_getElem?,
      ← List.head?_eq_getElem?, ← List.headD_eq_head?_getD, ← List.headD_eq_head?_getD] at same
    exact step_feed_input free found same
  · have idle : machine.demand = 0 := if_neg taking
    rw [idle, List.drop_zero]
    exact step_feed_other (fun free found => taking ⟨free, found⟩) input

/-- A step drops what it demands. -/
theorem step_input (machine : Machine) :
    machine.step.2.input = machine.input.drop machine.demand := by
  have fed : (machine.feed machine.input).step =
      (machine.step.1, machine.step.2.feed (machine.input.drop machine.demand)) :=
    step_feed fun index small => rfl
  exact congrArg (fun outcome => outcome.2.input) fed

/-- A run looks at no more of the input than its steps demand. -/
theorem runFor_feed {machine : Machine} {input : List UInt8} {fuel : Nat}
    (agree : ∀ index < machine.inputsTaken fuel, machine.input.getD index 0 = input.getD index 0) :
    ((machine.feed input).runFor fuel = (machine.runFor fuel).map fun result =>
        (result.1, result.2.feed (input.drop (machine.inputsTaken fuel)))) ∧
      (machine.feed input).inputsTaken fuel = machine.inputsTaken fuel := by
  induction fuel generalizing machine input with
  | zero => exact ⟨rfl, rfl⟩
  | succ fuel ih =>
      have same : (machine.feed input).demand = machine.demand := rfl
      have dropped := machine.step_input
      have within : machine.demand ≤ machine.inputsTaken (fuel + 1) := by
        rw [inputsTaken]
        split
        · exact Nat.le_add_right _ _
        · exact Nat.le_refl _
      have fed := step_feed fun index small => agree index (Nat.lt_of_lt_of_le small within)
      rcases stepped : machine.step with ⟨result, next⟩
      rw [stepped] at dropped fed
      cases result with
      | moved =>
          have total : machine.inputsTaken (fuel + 1) = machine.demand + next.inputsTaken fuel := by
            rw [inputsTaken, stepped]
          -- What the rest of the run takes begins after what this step has taken.
          have later : ∀ index < next.inputsTaken fuel,
              next.input.getD index 0 = (input.drop machine.demand).getD index 0 := by
            intro index small
            have shifted := agree (machine.demand + index) (by omega)
            rw [show next.input = machine.input.drop machine.demand from dropped]
            simpa [List.getD_eq_getElem?_getD] using shifted
          obtain ⟨ran, count⟩ := ih later
          refine ⟨?_, ?_⟩
          · rw [runFor, runFor, fed, stepped, total, ← List.drop_drop]
            exact ran
          · rw [total, inputsTaken, fed, same, ← count]
      | exhausted | failed =>
          have total : machine.inputsTaken (fuel + 1) = machine.demand := by
            rw [inputsTaken, stepped]
          refine ⟨?_, ?_⟩
          · rw [runFor, runFor, fed, stepped, total]
            rfl
          · rw [total, inputsTaken, fed, same]

theorem close_feed (ending : Ending) (machine : Machine) (input : List UInt8) :
    ending.close (machine.feed input) = (ending.close machine).feed input := by
  cases ending with
  | failed failure => rfl
  | completed =>
      simp only [Ending.close, conclude, warn, feed]
      split <;> rfl

end Machine

open Machine in
/--
A run that takes so many bytes ends in the same way on every input that has the same bytes there,
where an input that is too short is continued by zeros.
-/
theorem run_depends_on_taken_input (program : Program) (limits : Limits) (input other : List UInt8)
    (count : Nat) (ending : Ending) (last : Machine)
    (finished : (start program limits input).FinishesTaking count ending last)
    (agree : ∀ index < count, input.getD index 0 = other.getD index 0) :
    (start program limits other).FinishesTaking count ending (last.feed (other.drop count)) ∧
      ∀ sink, RunOutcome.ofRun sink ending (last.feed (other.drop count)) =
        RunOutcome.ofRun sink ending last := by
  obtain ⟨fuel, ran, rfl⟩ := finished
  obtain ⟨replayed, taken⟩ := runFor_feed agree
  refine ⟨⟨fuel, ?_, taken⟩, fun sink => rfl⟩
  rw [run_eq, Option.map_eq_some_iff] at ran
  obtain ⟨⟨_, stopped⟩, ended, same⟩ := ran
  cases same
  rw [ended] at replayed
  rw [run_eq, ← close_feed]
  exact congrArg (Option.map fun result => (result.1, result.1.close result.2)) replayed

open Machine in
/-- The first input ends before its second byte is taken, and the second input has a zero there. -/
theorem run_depends_on_taken_input_echo :
    ∃ last, (start #[44, 91, 46, 44, 93] ⟨1, 1, none, by decide, by decide⟩ [5]).FinishesTaking 2
        .completed last ∧
      last.output = #[5] ∧
      (start #[44, 91, 46, 44, 93] ⟨1, 1, none, by decide, by decide⟩ [5, 0, 9]).FinishesTaking 2
        .completed (last.feed [9]) := by
  have finished : ∃ last, (start #[44, 91, 46, 44, 93] ⟨1, 1, none, by decide, by decide⟩
      [5]).FinishesTaking 2 .completed last ∧ last.output = #[5] := ⟨_, ⟨6, rfl, rfl⟩, rfl⟩
  obtain ⟨last, finished, output⟩ := finished
  have agree : ∀ index < 2, [5].getD index 0 = ([5, 0, 9] : List UInt8).getD index 0 := by decide
  exact ⟨last, finished, output, (run_depends_on_taken_input _ _ _ _ _ _ _ finished agree).1⟩

end Brainfuck
