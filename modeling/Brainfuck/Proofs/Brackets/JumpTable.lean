/-
This file proves that a run takes the same steps as the machine that jumps by paired brackets.
-/

import Brainfuck.JumpMachine
import Brainfuck.Proofs.Brackets.Nesting

namespace Brainfuck

/-- This is all that can be seen of a machine except its loop stack. -/
structure Sight where
  ip : Int
  tape : Tape
  steps : Nat
  written : Nat
  input : List UInt8
  output : Array UInt8

/-- The results of the steps and the sights after them are listed up to the first that is no move. -/
def record {State : Type} (step : State → StepResult × State) (see : State → Sight) :
    Nat → State → List (StepResult × Sight)
  | 0, _ => []
  | count + 1, state =>
      match step state with
      | (.moved, next) => (.moved, see next) :: record step see count next
      | (result, next) => [(result, see next)]

def JumpMachine.sight (machine : JumpMachine) : Sight where
  ip := machine.ip
  tape := machine.tape
  steps := machine.steps
  written := machine.written
  input := machine.input
  output := machine.output

namespace Machine

def sight (machine : Machine) : Sight where
  ip := machine.ip
  tape := machine.tape
  steps := machine.steps
  written := machine.written
  input := machine.input
  output := machine.output

/-- Only the capacity of the loop stack is kept. -/
def forget (machine : Machine) : JumpMachine where
  program := machine.program
  depthLimit := machine.loops.capacity
  stepLimit := machine.stepLimit
  tape := machine.tape
  ip := machine.ip.toNat
  steps := machine.steps
  written := machine.written
  input := machine.input
  output := machine.output

theorem sight_forget {machine : Machine} (nonneg : 0 ≤ machine.ip) :
    machine.forget.sight = machine.sight := by
  simp only [JumpMachine.sight, forget, sight, Int.toNat_of_nonneg nonneg]

theorem forget_fail {machine : Machine} (nonneg : 0 ≤ machine.ip) (cause : Fault) :
    machine.forget.fail cause = ((machine.fail cause).1, (machine.fail cause).2.forget) := by
  simp only [JumpMachine.fail, forget, fail, Int.toNat_of_nonneg nonneg]

/-- The basic commands do not look at the loop stack. -/
theorem forget_basic {machine : Machine} (nonneg : 0 ≤ machine.ip) (offset : Nat) (action : Basic) :
    machine.forget.execute offset action.command =
      ((machine.execute action.command).1, (machine.execute action.command).2.forget) := by
  cases action with
  | right =>
      simp only [Basic.command, JumpMachine.execute, execute]
      cases moved : machine.tape.advance? with
      | none =>
          simp only [show machine.forget.tape.advance? = none from moved]
          exact forget_fail nonneg _
      | some tape =>
          simp only [show machine.forget.tape.advance? = some tape from moved]
          rfl
  | left =>
      simp only [Basic.command, JumpMachine.execute, execute]
      cases moved : machine.tape.retreat? with
      | none =>
          simp only [show machine.forget.tape.retreat? = none from moved]
          exact forget_fail nonneg _
      | some tape =>
          simp only [show machine.forget.tape.retreat? = some tape from moved]
          rfl
  | increment | decrement | output | input => rfl

namespace Nested

variable {machine : Machine} {offset : Nat}

theorem counted_nonneg (nested : machine.Nested offset) : 0 ≤ machine.counted.ip := by
  have place := nested.place
  simp only [counted, passed]
  omega

/-- The stack is full exactly if the text is nested up to the limit. -/
theorem full_eq (nested : machine.Nested offset) :
    machine.loops.full = decide (machine.loops.capacity ≤ Pairing.depthAt machine.program offset) := by
  rw [LoopStack.full, nested.depth]

/-- Both machines treat an opening bracket alike. -/
theorem forget_openLoop (nested : machine.Nested offset)
    (found : machine.program.commandAt? offset = some .loopOpen) :
    machine.counted.forget.openLoop offset =
      (machine.counted.openLoop.1, machine.counted.openLoop.2.forget) := by
  have scanned := closing?_counted nested.place found
  have nonneg := nested.counted_nonneg
  have limit : machine.counted.loops.full = decide (machine.counted.forget.depthLimit ≤
      Pairing.depthAt machine.counted.forget.program offset) := nested.full_eq
  rw [JumpMachine.openLoop]
  cases full : machine.counted.loops.full with
  | true =>
      rw [full] at limit
      rw [openLoop_full full, if_pos (of_decide_eq_true limit.symm)]
      exact forget_fail nonneg _
  | false =>
      rw [full] at limit
      rw [if_neg (of_decide_eq_false limit.symm)]
      by_cases zero : machine.counted.forget.tape.read = 0
      · rw [if_neg (not_not_intro zero)]
        cases partner : (Pairing.ofProgram machine.program).closer? offset with
        | none =>
            rw [partner] at scanned
            rw [openLoop_unmatched full zero scanned]
            simp only [show machine.counted.forget.pairing.closer? offset = none from partner]
            exact forget_fail nonneg _
        | some closer =>
            rw [partner] at scanned
            rw [openLoop_skip full zero scanned]
            simp only [show machine.counted.forget.pairing.closer? offset = some closer from partner]
            rfl
      · obtain ⟨loops, entered, capacity, -⟩ := openLoop_enter full zero
        rw [if_pos zero, entered]
        simp only [forget, capacity]

/-- Both machines treat a closing bracket alike. -/
theorem forget_closeLoop (nested : machine.Nested offset)
    (found : machine.program.commandAt? offset = some .loopClose) :
    machine.counted.forget.closeLoop offset =
      (machine.counted.closeLoop.1, machine.counted.closeLoop.2.forget) := by
  have nonneg := nested.counted_nonneg
  have less := Program.lt_of_commandAt?_natCast found
  have partner : (Pairing.ofProgram machine.program).opener? offset =
      (Pairing.before machine.program offset).opened.head? := by
    apply Option.ext
    intro origin
    rw [Pairing.opener?_eq_some, ← Pairing.before_size, Pairing.mem_pairs_iff]
    simp only [less, found, true_and]
  rw [JumpMachine.closeLoop]
  cases top : machine.counted.loops.frames with
  | nil =>
      have opened : (Pairing.before machine.program offset).opened = [] :=
        List.map_eq_nil_iff.mp (nested.frames.symm.trans top)
      rw [opened] at partner
      rw [closeLoop_unmatched top]
      simp only [show machine.counted.forget.pairing.opener? offset = none from partner]
      exact forget_fail nonneg _
  | cons frame rest =>
      obtain ⟨origin, below, opened, same, -⟩ := nested.innermost top
      rw [opened] at partner
      simp only [show machine.counted.forget.pairing.opener? offset = some origin from partner]
      by_cases zero : machine.counted.forget.tape.read = 0
      · rw [closeLoop_leave top zero, if_pos zero]
        rfl
      · rw [closeLoop_repeat top zero, if_neg zero, same]
        rfl

/-- Forgetting the loop stack turns every step into a step of the other machine. -/
theorem forget_step (nested : machine.Nested offset) :
    machine.forget.step = (machine.step.1, machine.step.2.forget) := by
  have place : machine.forget.ip = offset := by
    simp only [forget, nested.place, Int.toNat_natCast]
  have read : machine.program.byteAt? machine.ip = machine.program[offset]? := by
    rw [nested.place, Program.byteAt?_natCast]
  have passed : machine.passed.forget = { machine.forget with ip := offset + 1 } := by
    simp only [Machine.passed, forget, nested.place]
    rfl
  have counted : machine.counted.forget =
      { machine.forget with ip := offset + 1, steps := machine.forget.steps + 1 } := by
    simp only [Machine.counted, Machine.passed, forget, nested.place]
    rfl
  rw [JumpMachine.step, place]
  cases found : machine.program[offset]? with
  | none =>
      have past : machine.program.size ≤ offset := Array.getElem?_eq_none_iff.mp found
      have ended : machine.program.size ≤ machine.ip := by
        rw [nested.place]
        exact_mod_cast past
      rw [step_of_size_le ended]
      simp only [show machine.forget.program[offset]? = none from found]
  | some byte =>
      rw [found] at read
      simp only [show machine.forget.program[offset]? = some byte from found]
      cases decoded : Command.ofByte? byte with
      | none =>
          rw [step_comment read decoded]
          simp only [passed]
      | some command =>
          have present := Program.commandAt?_eq_some.mpr ⟨byte, read, decoded⟩
          cases spent : machine.spentLimit? with
          | some limit =>
              have refused : machine.forget.stepLimit.filter (· ≤ (machine.forget.steps : Int)) =
                some limit := spent
              rw [step_spent present spent]
              simp only [refused, ← passed, JumpMachine.fail]
              simp only [forget, Machine.passed, nested.place]
              congr 3
              omega
          | none =>
              have free : machine.forget.stepLimit.filter (· ≤ (machine.forget.steps : Int)) = none :=
                spent
              rw [step_command present spent]
              simp only [free]
              rw [← counted]
              rw [nested.place] at present
              rcases command.basic_or_bracket with basic | isOpen | isClose
              · obtain ⟨action, rfl⟩ := basic
                exact forget_basic nested.counted_nonneg offset action
              · subst isOpen
                exact nested.forget_openLoop present
              · subst isClose
                exact nested.forget_closeLoop present

/-- No step of a nested machine leads before the text. -/
theorem step_nonneg (nested : machine.Nested offset) : 0 ≤ machine.step.2.ip := by
  have start : 0 ≤ machine.ip := by
    rw [nested.place]
    exact Int.natCast_nonneg offset
  rcases stepped : machine.step with ⟨result, next⟩
  cases result with
  | moved =>
      obtain ⟨later, kept⟩ := nested.step stepped
      rw [kept.place]
      exact Int.natCast_nonneg later
  | exhausted =>
      rw [(step_exhausted stepped).2]
      exact start
  | failed failure =>
      cases stepping_of_eq stepped with
      | outOfText inside missing => exact start
      | spent found spent => exact Int.le_add_one start
      | command found free executed =>
          rw [(execute_failed executed).1]
          exact nested.counted_nonneg

/-- Both machines show the same sights step by step. -/
theorem record_eq (nested : machine.Nested offset) (count : Nat) :
    record Machine.step Machine.sight count machine =
      record JumpMachine.step JumpMachine.sight count machine.forget := by
  induction count generalizing machine offset with
  | zero => rfl
  | succ count ih =>
      have seen := sight_forget nested.step_nonneg
      rw [record, record, nested.forget_step]
      rcases stepped : machine.step with ⟨result, next⟩
      rw [stepped] at seen
      cases result with
      | moved =>
          obtain ⟨later, kept⟩ := nested.step stepped
          simp only [seen, ih kept]
      | exhausted | failed failure => simp only [seen]

end Nested

/-- A run decides its jumps and its errors as if all brackets had been paired beforehand. -/
theorem record_start_eq_jumpMachine (program : Program) (limits : Limits) (input : List UInt8) :
    (Machine.start program limits input).sight = (JumpMachine.start program limits input).sight ∧
      ∀ count, record Machine.step Machine.sight count (Machine.start program limits input) =
        record JumpMachine.step JumpMachine.sight count (JumpMachine.start program limits input) := by
  constructor
  · rfl
  · intro count
    exact (nested_start program limits input).record_eq count

end Machine

end Brainfuck
