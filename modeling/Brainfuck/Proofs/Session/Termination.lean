/-
This file bounds the number of steps that a machine can take under a step limit.
-/

import Brainfuck.Proofs.Run.StepLimit
import Brainfuck.Proofs.Session.WellFormed

namespace Brainfuck

/-- These actions are regular or put the machine at a position that a text can have. -/
def Action.Placed : Action → Prop
  | .jump target => 0 ≤ target
  | action => action.Regular

namespace Machine

/-- The machine stands at no negative position, and none of its loops leads back to one. -/
structure Grounded (machine : Machine) : Prop where
  nonneg : 0 ≤ machine.ip
  frames : ∀ frame ∈ machine.loops.frames, 0 ≤ frame.start

/-- Before each command that may still be counted, at most the whole text is passed. -/
def budget (machine : Machine) (limit : Int) : Nat :=
  (limit - machine.steps).toNat * (machine.program.size + 1) +
    (machine.program.size - machine.ip).toNat

variable {machine next : Machine}

namespace Grounded

theorem passed (grounded : machine.Grounded) : machine.passed.Grounded :=
  { grounded with nonneg := Int.le_add_one grounded.nonneg }

/-- Every step stays on the ground, whatever its result is. -/
theorem step (grounded : machine.Grounded) : machine.step.2.Grounded := by
  have counted : machine.counted.Grounded := { grounded.passed with }
  rcases stepped : machine.step with ⟨result, next⟩
  cases stepping_of_eq stepped with
  | exhausted | outOfText => exact grounded
  | comment | spent => exact grounded.passed
  | command found free executed =>
      cases executing_of_eq executed with
      | basic same applied => exact { counted with }
      | offTape | tooDeep | unmatchedOpen | unmatchedClose => exact counted
      | @entered loops same nonzero kept pushed =>
          refine { counted with frames := ?_ }
          show ∀ frame ∈ loops.frames, 0 ≤ frame.start
          rw [pushed]
          exact List.forall_mem_cons.mpr ⟨counted.nonneg, counted.frames⟩
      | skipped same room zero scanned =>
          have after := (Program.closing?_bounds scanned).1
          exact { counted with nonneg := Int.le_trans counted.nonneg (Int.le_of_lt after) }
      | left same top zero =>
          refine { counted with frames := ?_ }
          intro frame member
          exact counted.frames frame (List.mem_of_mem_tail member)
      | @repeated frame rest same top nonzero =>
          refine { counted with nonneg := counted.frames frame ?_ }
          rw [top]
          exact List.mem_cons_self

end Grounded

theorem Visits.grounded {program : Program} {limits : Limits} {input : List UInt8}
    (visited : (start program limits input).Visits Action.Placed machine) : machine.Grounded := by
  refine visited.keeps Grounded (fun _ => Grounded.step) (fun _ _ grounded => { grounded with }) ?_
    ⟨Int.le_refl 0, by simp [start, LoopStack.empty]⟩
  intro machine action next placed assigned grounded
  cases assigned with
  | restart input => exact ⟨Int.le_refl 0, by simp [restart]⟩
  | jump target => exact { grounded with nonneg := placed }
  | limit steps => exact { grounded with }
  | tape | loops => contradiction

/-- Every move under a limit uses up a part of the budget. -/
theorem budget_lt_of_moved {limit : Int} (bounded : machine.stepLimit = some limit)
    (nonneg : 0 ≤ next.ip) (moved : machine.step = (.moved, next)) :
    next.budget limit < machine.budget limit := by
  rw [budget, budget, (step_frame moved).1]
  rcases step_moved_progress bounded moved with ⟨below, count⟩ | ⟨count, inside, place⟩
  -- The machine may have gone back, but not further than to the first byte.
  · have left : (limit - machine.steps).toNat = (limit - next.steps).toNat + 1 := by omega
    rw [left, Nat.succ_mul]
    omega
  · rw [count, place]
    omega

/-- The run ends before the budget is used up, and a failure is one of a command. -/
theorem exists_runFor_of_budget_lt {limit : Int} {fuel : Nat} (grounded : machine.Grounded)
    (bounded : machine.stepLimit = some limit) (enough : machine.budget limit < fuel) :
    ∃ ending last, machine.runFor fuel = some (ending, last) ∧
      ∀ failure, ending = .failed failure → ∃ offset cause, failure = .fault offset cause := by
  induction fuel generalizing machine with
  | zero => omega
  | succ fuel ih =>
      have after := grounded.step
      rcases stepped : machine.step with ⟨result, next⟩
      rw [stepped] at after
      rw [runFor, stepped]
      cases result with
      | moved =>
          have less : next.budget limit < machine.budget limit :=
            budget_lt_of_moved bounded after.nonneg stepped
          exact ih after ((step_frame stepped).2.1.trans bounded) (by omega)
      | exhausted => exact ⟨.completed, next, rfl, by simp⟩
      | failed failure =>
          refine ⟨.failed failure, next, rfl, ?_⟩
          intro blamed same
          cases same
          cases failure with
          | fault offset cause => exact ⟨offset, cause, rfl⟩
          | outOfText position =>
              exact absurd (congrArg Prod.fst stepped) (step_ne_outOfText grounded.nonneg position)

/--
However a machine was stepped, run, restarted and put at other positions before, its run ends under
every step limit, and no later than its budget says. It completes, or it fails at a command.
-/
theorem run_ends_within_budget (program : Program) (limits : Limits) (input : List UInt8)
    (machine : Machine) (visited : (start program limits input).Visits Action.Placed machine)
    (limit : Int) (bounded : machine.stepLimit = some limit) :
    ∃ ending last, machine.run (machine.budget limit + 1) = some (ending, last) ∧
      (ending = .completed ∨ ∃ offset cause, ending = .failed (.fault offset cause)) := by
  have grounded : machine.announce.Grounded := { visited.grounded with }
  obtain ⟨ending, last, ended, blamed⟩ :=
    exists_runFor_of_budget_lt grounded bounded (Nat.lt_succ_self (machine.announce.budget limit))
  refine ⟨ending, ending.close last, ?_, ?_⟩
  · rw [run_eq]
    exact congrArg (Option.map fun result => (result.1, result.1.close result.2)) ended
  · cases ending with
    | completed => exact .inl rfl
    | failed failure =>
        obtain ⟨offset, cause, rfl⟩ := blamed failure rfl
        exact .inr ⟨offset, cause, rfl⟩

/--
The machine runs in a circle without a limit, is moved to the space inside its loop and gets a limit
that its count has already passed.
-/
theorem run_ends_within_budget_lowered_limit :
    ∃ machine : Machine,
      (start #[43, 91, 32, 93] ⟨1, 1, none, by decide, by decide⟩ []).Visits Action.Placed machine ∧
      machine.stepLimit = some 2 ∧ machine.steps = 4 ∧ machine.budget 2 = 2 ∧
      ∃ ending last, machine.run 3 = some (ending, last) ∧
        (ending = .completed ∨ ∃ offset cause, ending = .failed (.fault offset cause)) := by
  have used : ∃ machine : Machine,
      (start #[43, 91, 32, 93] ⟨1, 1, none, by decide, by decide⟩ []).Visits Action.Placed machine ∧
      machine.stepLimit = some 2 ∧ machine.steps = 4 ∧ machine.budget 2 = 2 :=
    ⟨_, .acted (.limit (some 2)) 0 (.acted (.jump 2) 0 (.acted (.steps 6) 0 .origin trivial rfl)
      (show (0 : Int) ≤ 2 by decide) rfl) trivial rfl, rfl, rfl, rfl⟩
  obtain ⟨machine, visited, bounded, steps, budget⟩ := used
  have ended := run_ends_within_budget _ _ _ machine visited 2 bounded
  rw [budget] at ended
  exact ⟨machine, visited, bounded, steps, budget, ended⟩

end Machine

end Brainfuck
