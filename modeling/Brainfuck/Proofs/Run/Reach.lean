/-
This file follows a machine through its moves and ties them to the end of its run.
-/

import Brainfuck.Machine.Run

namespace Brainfuck

/-- The last step of a run gives this result. -/
def Ending.result : Ending → StepResult
  | .completed => .exhausted
  | .failed failure => .failed failure

/-- Only a run that completes adds its closing notes. -/
def Ending.close : Ending → Machine → Machine
  | .completed, machine => machine.conclude
  | .failed _, machine => machine

namespace Machine

/-- This is the machine after so many steps, if every one of them moves it. -/
def after : Nat → Machine → Option Machine
  | 0, machine => some machine
  | count + 1, machine =>
      match machine.step with
      | (.moved, next) => after count next
      | _ => none

/-- Some number of moves leads from one machine to the other. -/
def Reaches (machine later : Machine) : Prop :=
  ∃ count, machine.after count = some later

/-- The whole run, with its opening and closing notes, has this end. -/
def Finishes (machine : Machine) (ending : Ending) (last : Machine) : Prop :=
  ∃ fuel, machine.run fuel = some (ending, last)

/-- The whole run completes after exactly so many moves. -/
def CompletesAfter (machine : Machine) (count : Nat) (last : Machine) : Prop :=
  machine.run count = none ∧ machine.run (count + 1) = some (.completed, last)

theorem after_succ {machine next : Machine} (moved : machine.step = (.moved, next)) (count : Nat) :
    machine.after (count + 1) = next.after count := by
  rw [after, moved]

/-- The first of several moves can be split off. -/
theorem exists_of_after_succ {machine later : Machine} {count : Nat}
    (found : machine.after (count + 1) = some later) :
    ∃ next, machine.step = (.moved, next) ∧ next.after count = some later := by
  unfold after at found
  split at found
  · rename_i next moved
    exact ⟨next, moved, found⟩
  · contradiction

/-- Two sequences of moves join. -/
theorem after_add {machine middle : Machine} {first : Nat} (found : machine.after first = some middle)
    (second : Nat) : machine.after (first + second) = middle.after second := by
  induction first generalizing machine with
  | zero =>
      cases found
      rw [Nat.zero_add]
  | succ first ih =>
      obtain ⟨next, moved, rest⟩ := exists_of_after_succ found
      rw [Nat.succ_add, after_succ moved]
      exact ih rest

namespace Reaches

theorem refl (machine : Machine) : machine.Reaches machine := ⟨0, rfl⟩

theorem of_step {machine next : Machine} (moved : machine.step = (.moved, next)) :
    machine.Reaches next :=
  ⟨1, after_succ moved 0⟩

theorem trans {first second third : Machine} (left : first.Reaches second)
    (right : second.Reaches third) : first.Reaches third := by
  obtain ⟨count, found⟩ := left
  obtain ⟨more, rest⟩ := right
  exact ⟨count + more, (after_add found more).trans rest⟩

theorem head {machine next later : Machine} (moved : machine.step = (.moved, next))
    (rest : next.Reaches later) : machine.Reaches later :=
  (of_step moved).trans rest

/-- What every move keeps holds wherever the machine comes. -/
theorem keeps (holds : Machine → Prop) {machine later : Machine} (reached : machine.Reaches later)
    (kept : ∀ machine next, holds machine → machine.step = (.moved, next) → holds next)
    (initially : holds machine) : holds later := by
  obtain ⟨count, found⟩ := reached
  induction count generalizing machine with
  | zero =>
      cases found
      exact initially
  | succ count ih =>
      obtain ⟨next, moved, rest⟩ := exists_of_after_succ found
      exact ih (kept machine next initially moved) rest

end Reaches

/-- The moves of a run use up one unit of fuel each. -/
theorem runFor_after {machine later : Machine} {count : Nat} (found : machine.after count = some later)
    (fuel : Nat) : machine.runFor (count + fuel) = later.runFor fuel := by
  induction count generalizing machine with
  | zero =>
      cases found
      rw [Nat.zero_add]
  | succ count ih =>
      obtain ⟨next, moved, rest⟩ := exists_of_after_succ found
      rw [Nat.succ_add, runFor, moved]
      exact ih rest

/-- A run that has not ended within the fuel has moved as often. -/
theorem exists_after_of_runFor {machine : Machine} {fuel : Nat} (going : machine.runFor fuel = none) :
    ∃ later, machine.after fuel = some later := by
  induction fuel generalizing machine with
  | zero => exact ⟨machine, rfl⟩
  | succ fuel ih =>
      unfold runFor at going
      split at going
      · rename_i next moved
        obtain ⟨later, found⟩ := ih going
        exact ⟨later, (after_succ moved fuel).trans found⟩
      · contradiction
      · contradiction

/-- A run that ends does so from every machine on its way. -/
theorem runFor_of_reaches {machine later : Machine} {fuel : Nat} {result : Ending × Machine}
    (reached : machine.Reaches later) (ended : machine.runFor fuel = some result) :
    later.runFor fuel = some result := by
  obtain ⟨count, found⟩ := reached
  rw [← runFor_after found fuel]
  exact runFor_mono ended (Nat.le_add_left fuel count)

/-- A run ends where a step stops moving the machine. -/
theorem ends_iff {machine last : Machine} {ending : Ending} :
    machine.Ends ending last ↔
      ∃ stopped, machine.Reaches stopped ∧ stopped.step = (ending.result, last) := by
  constructor
  · rintro ⟨fuel, ended⟩
    induction fuel generalizing machine with
    | zero => simp [runFor] at ended
    | succ fuel ih =>
        unfold runFor at ended
        split at ended
        · rename_i next moved
          obtain ⟨stopped, reached, final⟩ := ih ended
          exact ⟨stopped, reached.head moved, final⟩
        · rename_i next exhausted
          cases ended
          exact ⟨machine, .refl machine, exhausted⟩
        · rename_i failure next failed
          cases ended
          exact ⟨machine, .refl machine, failed⟩
  · rintro ⟨stopped, ⟨count, found⟩, final⟩
    refine ⟨count + 1, ?_⟩
    rw [runFor_after found 1, runFor, final]
    cases ending <;> rfl

/-- The end of a run is the end from every machine on its way. -/
theorem Reaches.ends_iff {machine later last : Machine} {ending : Ending}
    (reached : machine.Reaches later) : machine.Ends ending last ↔ later.Ends ending last := by
  constructor
  · rintro ⟨fuel, ended⟩
    exact ⟨fuel, runFor_of_reaches reached ended⟩
  · rintro ⟨fuel, ended⟩
    obtain ⟨count, found⟩ := reached
    exact ⟨count + fuel, (runFor_after found fuel).trans ended⟩

/-- A whole run is a run between its opening and its closing notes. -/
theorem run_eq (fuel : Nat) (machine : Machine) :
    machine.run fuel =
      (machine.announce.runFor fuel).map fun result => (result.1, result.1.close result.2) := by
  unfold run
  congr 1
  funext result
  obtain ⟨ending, stopped⟩ := result
  cases ending <;> rfl

/-- The notes around a run do not change how it ends. -/
theorem finishes_iff {machine last : Machine} {ending : Ending} :
    machine.Finishes ending last ↔
      ∃ stopped, machine.announce.Ends ending stopped ∧ ending.close stopped = last := by
  constructor
  · rintro ⟨fuel, ended⟩
    rw [run_eq, Option.map_eq_some_iff] at ended
    obtain ⟨⟨_, stopped⟩, found, same⟩ := ended
    cases same
    exact ⟨stopped, ⟨fuel, found⟩, rfl⟩
  · rintro ⟨stopped, ⟨fuel, found⟩, rfl⟩
    exact ⟨fuel, by rw [run_eq, found]; rfl⟩

/-- A run that completes after so many moves has then come to the end of the text. -/
theorem CompletesAfter.exists_after {machine last : Machine} {count : Nat}
    (completed : machine.CompletesAfter count last) :
    ∃ stopped final, machine.announce.after count = some stopped ∧
      stopped.step = (.exhausted, final) ∧ final.conclude = last := by
  obtain ⟨going, ended⟩ := completed
  rw [run_eq, Option.map_eq_none_iff] at going
  rw [run_eq, Option.map_eq_some_iff] at ended
  obtain ⟨stopped, found⟩ := exists_after_of_runFor going
  obtain ⟨⟨_, final⟩, ran, same⟩ := ended
  cases same
  rw [runFor_after found 1] at ran
  simp only [runFor] at ran
  split at ran
  · contradiction
  · rename_i exhausted
    cases ran
    exact ⟨stopped, final, found, exhausted, rfl⟩
  · cases ran

/-- A whole run has at most one end. -/
theorem Finishes.unique {machine first second : Machine} {one two : Ending}
    (left : machine.Finishes one first) (right : machine.Finishes two second) :
    one = two ∧ first = second := by
  obtain ⟨stopped, ended, rfl⟩ := finishes_iff.mp left
  obtain ⟨other, again, rfl⟩ := finishes_iff.mp right
  obtain ⟨rfl, rfl⟩ := ended.unique again
  exact ⟨rfl, rfl⟩

/-- The closing notes are all that the end of a run adds to the machine. -/
theorem close_eq (ending : Ending) (machine : Machine) :
    ending.close machine = { machine with notes := (ending.close machine).notes } := by
  cases ending with
  | failed failure => rfl
  | completed =>
      simp only [Ending.close, conclude, warn, note]
      split <;> rfl

end Machine

end Brainfuck
