/-
This file says what an action can do to a machine and follows a machine through its actions.
-/

import Brainfuck.Proofs.Run.Reach
import Brainfuck.Session

namespace Brainfuck

/-- The reply names this failure of a step. -/
def Failure.ToldBy (failure : Failure) : Except ActionError ActionReply → Prop
  | .error (.failed told) => told = failure
  | .ok (.rows rows) => ∃ row ∈ rows, row.result = .failed failure
  | _ => False

namespace Machine

/-- This is the machine after so many steps, whatever their results are. -/
def stepped : Nat → Machine → Machine
  | 0, machine => machine
  | count + 1, machine => stepped count machine.step.2

/-- What every step keeps is kept by any number of them. -/
theorem stepped_keeps (holds : Machine → Prop)
    (kept : ∀ machine, holds machine → holds machine.step.2) {machine : Machine}
    (initially : holds machine) (count : Nat) : holds (machine.stepped count) := by
  induction count generalizing machine with
  | zero => exact initially
  | succ count ih => exact ih (kept machine initially)

/-- Moves are steps. -/
theorem stepped_of_after {machine later : Machine} {count : Nat}
    (found : machine.after count = some later) : machine.stepped count = later := by
  induction count generalizing machine with
  | zero =>
      cases found
      rfl
  | succ count ih =>
      obtain ⟨next, moved, rest⟩ := exists_of_after_succ found
      rw [stepped, moved]
      exact ih rest

theorem stepped_succ (machine : Machine) (count : Nat) :
    machine.stepped (count + 1) = (machine.stepped count).step.2 := by
  induction count generalizing machine with
  | zero => rfl
  | succ count ih => exact ih machine.step.2

/-- A run that ends has made some steps, and the last of them ended it. -/
theorem exists_stepped_of_runFor {machine last : Machine} {ending : Ending} {fuel : Nat}
    (ended : machine.runFor fuel = some (ending, last)) :
    ∃ made, last = machine.stepped (made + 1) ∧ (machine.stepped made).step.1 = ending.result := by
  obtain ⟨stopped, ⟨count, found⟩, final⟩ := ends_iff.mp ⟨fuel, ended⟩
  refine ⟨count, ?_, ?_⟩
  · rw [stepped_succ, stepped_of_after found, final]
  · rw [stepped_of_after found, final]

theorem exists_stepped_of_stepUpTo (count taken : Nat) (machine : Machine) :
    ∃ made, (machine.stepUpTo count taken).2 = machine.stepped made ∧
      ∀ failure, (machine.stepUpTo count taken).1 = .error failure →
        ∃ earlier, (machine.stepped earlier).step.1 = .failed failure := by
  induction count generalizing machine taken with
  | zero => exact ⟨0, rfl, by simp [stepUpTo]⟩
  | succ count ih =>
      rcases stepped : machine.step with ⟨result, next⟩
      cases result with
      | moved =>
          obtain ⟨made, same, blamed⟩ := ih (taken + 1) next
          refine ⟨made + 1, ?_, ?_⟩
          · rw [stepUpTo, Machine.stepped, stepped]
            exact same
          · intro failure failed
            rw [stepUpTo, stepped] at failed
            obtain ⟨earlier, found⟩ := blamed failure failed
            refine ⟨earlier + 1, ?_⟩
            rw [Machine.stepped, stepped]
            exact found
      | exhausted =>
          refine ⟨1, ?_, ?_⟩
          · simp [stepUpTo, Machine.stepped, stepped]
          · simp [stepUpTo, stepped]
      | failed failure =>
          refine ⟨1, ?_, ?_⟩
          · simp [stepUpTo, Machine.stepped, stepped]
          · intro told failed
            refine ⟨0, ?_⟩
            simpa [stepUpTo, Machine.stepped, stepped] using failed

theorem exists_stepped_of_trace (count : Nat) (rows : Array TraceRow) (machine : Machine) :
    ∃ made, (machine.trace count rows).2 = machine.stepped made ∧
      ∀ row ∈ (machine.trace count rows).1, row ∈ rows.toList ∨
        ∃ earlier, row.result = (machine.stepped earlier).step.1 := by
  induction count generalizing machine rows with
  | zero => exact ⟨0, rfl, fun row member => .inl member⟩
  | succ count ih =>
      rcases stepped : machine.step with ⟨result, next⟩
      have recorded (row : TraceRow) (member : row ∈ (rows.push (traceRow result next)).toList) :
          row ∈ rows.toList ∨ ∃ earlier, row.result = (machine.stepped earlier).step.1 := by
        rw [Array.toList_push, List.mem_append, List.mem_singleton] at member
        rcases member with old | rfl
        · exact .inl old
        · exact .inr ⟨0, by rw [Machine.stepped, stepped]; rfl⟩
      by_cases ended : result = .exhausted
      · subst ended
        refine ⟨1, ?_, ?_⟩
        · simp [trace, Machine.stepped, stepped]
        · intro row member
          apply recorded
          simpa [trace, stepped] using member
      -- A failed step is recorded like a move, and the trace goes on behind it.
      · obtain ⟨made, same, told⟩ := ih (rows.push (traceRow result next)) next
        have unfolded : machine.trace (count + 1) rows =
            next.trace count (rows.push (traceRow result next)) := by
          rw [trace, stepped]
          cases result with
          | exhausted => exact absurd rfl ended
          | moved | failed => rfl
        refine ⟨made + 1, ?_, ?_⟩
        · rw [unfolded, Machine.stepped, stepped]
          exact same
        · intro row member
          rw [unfolded] at member
          rcases told row member with old | ⟨earlier, found⟩
          · exact recorded row old
          · refine .inr ⟨earlier + 1, ?_⟩
            rw [Machine.stepped, stepped]
            exact found

/-- These actions change the state without a step. -/
inductive Assigns (machine : Machine) : Action → Machine → Prop where
  | restart (input : Option (List UInt8)) :
      Assigns machine (.restart input) (machine.restart input)
  | jump (target : Int) : Assigns machine (.jump target) { machine with ip := target }
  | limit (steps : Option Int) : Assigns machine (.limit steps) { machine with stepLimit := steps }
  | tape (request : Tape.Request) :
      Assigns machine (.tape request)
        { machine with tape := (Tape.perform request machine.tape).2 }
  | loops (request : LoopStack.Request) :
      Assigns machine (.loops request)
        { machine with loops := (LoopStack.perform request machine.loops).2 }

/-- These are all the ways in which an action changes a machine. -/
inductive Performs (machine : Machine) : Action → Machine → Prop where
  | steps {action : Action} (made : Nat) : Performs machine action (machine.stepped made)
  | run (ending : Ending) (made : Nat) :
      Performs machine .run (ending.close (machine.announce.stepped made))
  | assigned {action : Action} {next : Machine} (assigned : machine.Assigns action next) :
      Performs machine action next

theorem exists_stepped_of_run {machine last : Machine} {ending : Ending} {fuel : Nat}
    (ran : machine.run fuel = some (ending, last)) :
    ∃ made, last = ending.close (machine.announce.stepped (made + 1)) ∧
      (machine.announce.stepped made).step.1 = ending.result := by
  obtain ⟨stopped, ⟨_, ended⟩, rfl⟩ := finishes_iff.mp ⟨fuel, ran⟩
  obtain ⟨made, rfl, result⟩ := exists_stepped_of_runFor ended
  exact ⟨made, rfl, result⟩

/-- Every action that answers changes the machine in one of the known ways. -/
theorem performs_of_eq {machine next : Machine} {action : Action} {fuel : Nat}
    {reply : Except ActionError ActionReply}
    (performed : machine.perform fuel action = some (reply, next)) :
    machine.Performs action next := by
  cases action with
  | step =>
      suffices same : next = machine.stepped 1 from same ▸ .steps 1
      rw [stepped, stepped]
      simp only [perform] at performed
      split at performed <;> simp_all
  | steps count =>
      obtain ⟨made, same, -⟩ := exists_stepped_of_stepUpTo count 0 machine
      suffices last : next = machine.stepped made from last ▸ .steps made
      rw [← same]
      simp only [perform] at performed
      split at performed <;> simp_all
  | trace count =>
      obtain ⟨made, same, -⟩ := exists_stepped_of_trace count #[] machine
      cases performed
      rw [same]
      exact .steps made
  | run =>
      obtain ⟨⟨ending, last⟩, ran, answered⟩ := Option.map_eq_some_iff.mp performed
      obtain ⟨made, same, -⟩ := exists_stepped_of_run ran
      suffices final : next = last by
        rw [final, same]
        exact .run ending (made + 1)
      cases ending <;> cases answered <;> rfl
  | restart input =>
      cases performed
      exact .assigned (.restart input)
  | jump target =>
      cases performed
      exact .assigned (.jump target)
  | limit steps =>
      cases performed
      exact .assigned (.limit steps)
  | tape request =>
      suffices same : next = { machine with tape := (Tape.perform request machine.tape).2 } from
        same ▸ .assigned (.tape request)
      simp only [perform] at performed
      split at performed <;> simp_all
  | loops request =>
      suffices same : next = { machine with loops := (LoopStack.perform request machine.loops).2 } from
        same ▸ .assigned (.loops request)
      simp only [perform] at performed
      split at performed <;> simp_all

/-- A failure that a reply names is the result of a step. -/
theorem exists_failed_of_toldBy {machine next : Machine} {action : Action} {fuel : Nat}
    {reply : Except ActionError ActionReply} {failure : Failure}
    (performed : machine.perform fuel action = some (reply, next)) (told : failure.ToldBy reply) :
    ∃ made, (machine.stepped made).step.1 = .failed failure ∨
      (machine.announce.stepped made).step.1 = .failed failure := by
  cases action with
  | step =>
      refine ⟨0, .inl ?_⟩
      rw [stepped]
      simp only [perform] at performed
      split at performed <;> cases performed <;> simp_all [Failure.ToldBy]
  | steps count =>
      obtain ⟨-, -, blamed⟩ := exists_stepped_of_stepUpTo count 0 machine
      simp only [perform] at performed
      split at performed
      · cases performed
        contradiction
      · rename_i found last failed
        cases performed
        cases told
        obtain ⟨earlier, result⟩ := blamed failure (by rw [failed])
        exact ⟨earlier, .inl result⟩
  | trace count =>
      obtain ⟨-, -, recorded⟩ := exists_stepped_of_trace count #[] machine
      cases performed
      obtain ⟨row, member, result⟩ := told
      rcases recorded row member with old | ⟨earlier, found⟩
      · simp at old
      · exact ⟨earlier, .inl (found.symm.trans result)⟩
  | run =>
      obtain ⟨⟨ending, last⟩, ran, answered⟩ := Option.map_eq_some_iff.mp performed
      obtain ⟨made, -, result⟩ := exists_stepped_of_run ran
      cases ending with
      | completed =>
          cases answered
          contradiction
      | failed found =>
          cases answered
          cases told
          exact ⟨made, .inr result⟩
  | restart | jump | limit =>
      cases performed
      contradiction
  | tape | loops =>
      simp only [perform] at performed
      split at performed <;> cases performed <;> contradiction

/-- The machine comes to these states while only such actions are performed on it. -/
inductive Visits (allowed : Action → Prop) (origin : Machine) : Machine → Prop where
  | origin : Visits allowed origin origin
  | acted {machine next : Machine} {reply : Except ActionError ActionReply} (action : Action)
      (fuel : Nat) (earlier : Visits allowed origin machine) (permitted : allowed action)
      (performed : machine.perform fuel action = some (reply, next)) :
      Visits allowed origin next
  | underway {machine later : Machine} (earlier : Visits allowed origin machine)
      (permitted : allowed .run) (reached : machine.announce.Reaches later) :
      Visits allowed origin later

/-- What the steps, the notes and the allowed changes keep holds in every state of the machine. -/
theorem Visits.keeps (holds : Machine → Prop) {allowed : Action → Prop} {origin machine : Machine}
    (visited : origin.Visits allowed machine)
    (stepped : ∀ machine, holds machine → holds machine.step.2)
    (noted : ∀ machine notes, holds machine → holds { machine with notes })
    (assigned : ∀ machine action next, allowed action → machine.Assigns action next →
      holds machine → holds next)
    (initially : holds origin) : holds machine := by
  induction visited with
  | origin => exact initially
  | @acted machine next reply action fuel earlier permitted performed ih =>
      cases performs_of_eq performed with
      | steps made => exact stepped_keeps holds stepped ih made
      | run ending made =>
          rw [close_eq]
          exact noted _ _ (stepped_keeps holds stepped (noted machine _ ih) made)
      | assigned changed => exact assigned machine action next permitted changed ih
  | @underway machine later earlier permitted reached ih =>
      obtain ⟨count, found⟩ := reached
      rw [← stepped_of_after found]
      exact stepped_keeps holds stepped (noted machine _ ih) count

end Machine

end Brainfuck
