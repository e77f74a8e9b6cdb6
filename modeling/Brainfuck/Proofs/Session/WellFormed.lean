/-
This file proves that a machine stays well-formed however it is used, also after a failure.
-/

import Brainfuck.Proofs.Run.Step
import Brainfuck.Proofs.Session.History

namespace Brainfuck

/-- These actions use a machine without reaching into its state. -/
def Action.Regular : Action → Prop
  | .jump _ | .tape _ | .loops _ => False
  | .step | .steps _ | .trace _ | .run | .restart _ | .limit _ => True

/-- These regular actions go on with the machine as it is. -/
def Action.Ongoing : Action → Prop
  | .restart _ => False
  | action => action.Regular

namespace Machine

/-- A frame lies behind the position of the machine, and an inner loop begins after an outer one. -/
structure WellFormed (machine : Machine) (program : Program) (limits : Limits) : Prop where
  text : machine.program = program
  nonneg : 0 ≤ machine.ip
  inside : machine.ip ≤ program.size
  cells : machine.tape.size = limits.tapeSize
  capacity : machine.loops.capacity = limits.loopDepth
  frames : ∀ frame ∈ machine.loops.frames, frame.start ≤ machine.ip ∧
    ∃ origin : Nat, frame = Frame.ofOrigin origin ∧ program.commandAt? origin = some .loopOpen
  nested : machine.loops.frames.Pairwise fun inner outer => outer.origin < inner.origin

/-- The machine has counted the bytes that it added to this output. -/
def Wrote (machine : Machine) (prior : Array UInt8) : Prop :=
  ∃ added, machine.output = prior ++ added ∧ machine.written = added.size

namespace WellFormed

variable {machine next : Machine} {program : Program} {limits : Limits}

theorem start (program : Program) (limits : Limits) (input : List UInt8) :
    (Machine.start program limits input).WellFormed program limits where
  text := rfl
  nonneg := Int.le_refl 0
  inside := Int.natCast_nonneg program.size
  cells := Tape.size_blank limits.tapeSize limits.hasCell
  capacity := rfl
  frames := by simp [Machine.start, LoopStack.empty]
  nested := List.Pairwise.nil

theorem restart (formed : machine.WellFormed program limits) (input : Option (List UInt8)) :
    (machine.restart input).WellFormed program limits where
  text := formed.text
  nonneg := Int.le_refl 0
  inside := Int.natCast_nonneg program.size
  cells := (Tape.size_reset _).trans formed.cells
  capacity := formed.capacity
  frames := by simp [Machine.restart]
  nested := List.Pairwise.nil

/-- A machine that goes forward with its open loops keeps them behind it. -/
theorem forward (formed : machine.WellFormed program limits) (text : next.program = machine.program)
    (cells : next.tape.size = machine.tape.size) (loops : next.loops = machine.loops)
    (later : machine.ip ≤ next.ip) (inside : next.ip ≤ program.size) :
    next.WellFormed program limits where
  text := text.trans formed.text
  nonneg := Int.le_trans formed.nonneg later
  inside := inside
  cells := cells.trans formed.cells
  capacity := by rw [loops]; exact formed.capacity
  frames := by
    rw [loops]
    intro frame member
    obtain ⟨behind, opened⟩ := formed.frames frame member
    exact ⟨Int.le_trans behind later, opened⟩
  nested := by rw [loops]; exact formed.nested

theorem passed (formed : machine.WellFormed program limits) (less : machine.ip < program.size) :
    machine.passed.WellFormed program limits :=
  formed.forward rfl rfl rfl (Int.le_add_one (Int.le_refl _)) less

/-- A loop that is entered begins after all the others, since they lie behind it. -/
theorem enter (formed : machine.WellFormed program limits) {loops : LoopStack}
    (found : program.commandAt? machine.ip = some .loopOpen)
    (kept : loops.capacity = machine.loops.capacity)
    (pushed : loops.frames = ⟨machine.ip + 1, machine.ip⟩ :: machine.loops.frames) :
    { machine.counted with loops }.WellFormed program limits := by
  have less := Program.lt_size_of_commandAt? found
  obtain ⟨origin, place⟩ := Int.eq_ofNat_of_zero_le formed.nonneg
  refine { formed.passed less with capacity := kept.trans formed.capacity, frames := ?_, nested := ?_ }
  · show ∀ frame ∈ loops.frames, frame.start ≤ machine.ip + 1 ∧ _
    rw [pushed]
    intro frame member
    rcases List.mem_cons.mp member with rfl | below
    · refine ⟨Int.le_refl _, origin, ?_, place ▸ found⟩
      rw [Frame.ofOrigin, place]
    · exact (formed.passed less).frames frame below
  · show loops.frames.Pairwise _
    rw [pushed]
    refine List.pairwise_cons.mpr ⟨?_, formed.nested⟩
    intro outer below
    obtain ⟨behind, start, rfl, -⟩ := formed.frames outer below
    exact Int.lt_of_add_one_le behind

/-- A loop that is left takes its frame away. -/
theorem leave (formed : machine.WellFormed program limits) :
    { machine with loops := machine.loops.pop }.WellFormed program limits :=
  { formed with
    frames := fun frame member => formed.frames frame (List.mem_of_mem_tail member)
    nested := formed.nested.tail }

/-- A loop that is repeated goes back to a place behind which all the frames still lie. -/
theorem again (formed : machine.WellFormed program limits) {frame : Frame} {rest : List Frame}
    (top : machine.loops.frames = frame :: rest) :
    { machine with ip := frame.start }.WellFormed program limits := by
  have nested := formed.nested
  rw [top, List.pairwise_cons] at nested
  obtain ⟨-, origin, rfl, opened⟩ := formed.frames frame (by simp [top])
  have less := Program.lt_of_commandAt?_natCast opened
  refine { formed with nonneg := ?_, inside := ?_, frames := ?_ }
  · show (0 : Int) ≤ origin + 1
    omega
  · show (origin : Int) + 1 ≤ program.size
    omega
  -- The position falls, so the old bound on the frames is of no use here, and their order is.
  · intro outer member
    obtain ⟨-, start, rfl, isOpen⟩ := formed.frames outer member
    refine ⟨?_, start, rfl, isOpen⟩
    rw [top] at member
    rcases List.mem_cons.mp member with same | below
    · exact Int.le_of_eq (congrArg Frame.start same)
    · exact Int.add_le_add_right (Int.le_of_lt (nested.1 _ below)) 1

/-- Every command keeps the machine well-formed, whether it fails or not. -/
theorem execute (formed : machine.WellFormed program limits) {command : Command}
    {result : StepResult} (found : program.commandAt? machine.ip = some command)
    (executed : machine.counted.execute command = (result, next)) :
    next.WellFormed program limits := by
  have less := Program.lt_size_of_commandAt? found
  have later : machine.ip ≤ machine.ip + 1 := Int.le_add_one (Int.le_refl _)
  have counted : machine.counted.WellFormed program limits := { formed.passed less with }
  have size : next.tape.size = machine.counted.tape.size := execute_size executed
  cases executing_of_eq executed with
  | basic same applied => exact formed.forward rfl size rfl later less
  -- A command that fails has been passed, but its loop was not opened, so the frames are the old ones.
  | offTape | tooDeep | unmatchedOpen | unmatchedClose => exact counted
  | entered same nonzero kept pushed =>
      rw [same] at found
      refine formed.enter found kept ?_
      rw [pushed]
      simp only [Machine.counted, Machine.passed, Int.add_sub_cancel]
  | skipped same room zero scanned =>
      obtain ⟨after, bound⟩ := Program.closing?_bounds scanned
      rw [counted.text] at bound
      exact counted.forward rfl rfl rfl (Int.le_of_lt after) bound
  | left same top zero => exact counted.leave
  | repeated same top nonzero => exact counted.again top

/-- Every step keeps the machine well-formed, whatever its result is. -/
theorem step (formed : machine.WellFormed program limits) :
    machine.step.2.WellFormed program limits := by
  rcases stepped : machine.step with ⟨result, next⟩
  cases stepping_of_eq stepped with
  | exhausted | outOfText => exact formed
  | comment found plain =>
      rw [formed.text] at found
      exact formed.passed (Program.lt_size_of_byteAt? found)
  | spent found spent =>
      rw [formed.text] at found
      exact formed.passed (Program.lt_size_of_commandAt? found)
  | command found free executed =>
      rw [formed.text] at found
      exact formed.execute found executed

/-- A run that fails has come to a well-formed machine and fails there at a command. -/
theorem exists_fault (formed : machine.WellFormed program limits) {failure : Failure}
    {last : Machine} (failed : machine.Ends (.failed failure) last) :
    ∃ stopped offset cause, machine.Reaches stopped ∧ stopped.WellFormed program limits ∧
      failure = .fault offset cause ∧ stopped.step = (.failed (.fault offset cause), last) := by
  obtain ⟨stopped, reached, final⟩ := ends_iff.mp failed
  have kept : stopped.WellFormed program limits := by
    refine reached.keeps (WellFormed · program limits) ?_ formed
    intro machine next formed moved
    have later := formed.step
    rw [moved] at later
    exact later
  cases failure with
  | fault offset cause => exact ⟨stopped, offset, cause, reached, kept, rfl, final⟩
  | outOfText position =>
      exact absurd (congrArg Prod.fst final) (step_ne_outOfText kept.nonneg position)

/-- No action on a well-formed machine is answered by a position outside the text. -/
theorem not_toldBy (formed : machine.WellFormed program limits) {action : Action} {fuel : Nat}
    {reply : Except ActionError ActionReply}
    (performed : machine.perform fuel action = some (reply, next)) (position : Int) :
    ¬ (Failure.outOfText position).ToldBy reply := by
  have later {machine : Machine} (formed : machine.WellFormed program limits) (made : Nat) :
      (machine.stepped made).WellFormed program limits :=
    stepped_keeps (WellFormed · program limits) (fun _ => step) formed made
  have announced : machine.announce.WellFormed program limits := { formed with }
  intro told
  obtain ⟨made, outside | outside⟩ := exists_failed_of_toldBy performed told
  · exact step_ne_outOfText (later formed made).nonneg position outside
  · exact step_ne_outOfText (later announced made).nonneg position outside

end WellFormed

/-- A run from the start only fails with a fault, and in its own program. -/
theorem Finishes.exists_fault {program : Program} {limits : Limits} {input : List UInt8}
    {failure : Failure} {last : Machine}
    (failed : (start program limits input).Finishes (.failed failure) last) :
    last.program = program ∧ ∃ offset cause, failure = .fault offset cause := by
  obtain ⟨_, ended, rfl⟩ := finishes_iff.mp failed
  have formed : (start program limits input).announce.WellFormed program limits :=
    { WellFormed.start program limits input with }
  obtain ⟨stopped, offset, cause, -, kept, rfl, final⟩ := formed.exists_fault ended
  have later := kept.step
  rw [final] at later
  exact ⟨later.text, offset, cause, rfl⟩

/-- The notes are no part of a well-formed machine, and regular actions keep one well-formed. -/
theorem Visits.wellFormed {program : Program} {limits : Limits} {input : List UInt8}
    {machine : Machine} (visited : (start program limits input).Visits Action.Regular machine) :
    machine.WellFormed program limits := by
  refine visited.keeps (WellFormed · program limits) (fun _ => WellFormed.step)
    (fun _ _ formed => { formed with }) ?_ (WellFormed.start program limits input)
  intro machine action next regular assigned formed
  cases assigned with
  | restart input => exact formed.restart input
  | limit steps => exact { formed with }
  | jump | tape | loops => contradiction

/-- A byte is counted when it is written. -/
theorem Wrote.step {machine : Machine} {prior : Array UInt8} (wrote : machine.Wrote prior) :
    machine.step.2.Wrote prior := by
  obtain ⟨added, output, written⟩ := wrote
  rcases stepped : machine.step with ⟨result, next⟩
  cases stepping_of_eq stepped with
  | exhausted | outOfText | comment | spent => exact ⟨added, output, written⟩
  | command found free executed =>
      cases executing_of_eq executed with
      | @basic action store same applied =>
          rcases Basic.output_apply applied with kept | pushed
          · have silent : store.output = machine.output := kept
            refine ⟨added, silent.trans output, ?_⟩
            show machine.written + (store.output.size - machine.output.size) = added.size
            rw [silent, written, Nat.sub_self, Nat.add_zero]
          · have emitted : store.output = machine.output.push machine.tape.read := pushed
            refine ⟨added.push machine.tape.read, ?_, ?_⟩
            · show store.output = _
              rw [emitted, output, Array.append_push]
            · show machine.written + (store.output.size - machine.output.size) = _
              rw [emitted, written, Array.size_push, Array.size_push, Nat.add_sub_cancel_left]
      | offTape | tooDeep | entered | skipped | unmatchedOpen | unmatchedClose | left | repeated =>
          exact ⟨added, output, written⟩

theorem Visits.wrote {origin machine : Machine} {prior : Array UInt8}
    (visited : origin.Visits Action.Ongoing machine) (initially : origin.Wrote prior) :
    machine.Wrote prior := by
  refine visited.keeps (Wrote · prior) (fun _ => Wrote.step) (fun _ _ wrote => wrote) ?_ initially
  intro machine action next ongoing assigned wrote
  cases assigned with
  | limit steps => exact wrote
  | restart | jump | tape | loops => contradiction

/--
However a machine is stepped, run and restarted, it stays within its text, its tape and its limits,
names no position outside the text, and counts the bytes that were written since its last restart.
-/
theorem session_wellFormed (program : Program) (limits : Limits) (input : List UInt8) :
    (∀ machine, (start program limits input).Visits Action.Regular machine →
      machine.WellFormed program limits ∧ machine.tape.cursor < limits.tapeSize ∧
      (∀ cell ∈ machine.tape.cells, cell.toNat ≤ 255) ∧ machine.loops.depth ≤ limits.loopDepth ∧
      ∀ action fuel reply next position, machine.perform fuel action = some (reply, next) →
        ¬ (Failure.outOfText position).ToldBy reply) ∧
    (∀ machine, (start program limits input).Visits Action.Ongoing machine → machine.Wrote #[]) ∧
    ∀ earlier given machine, (start program limits input).Visits Action.Regular earlier →
      (earlier.restart given).Visits Action.Ongoing machine → machine.Wrote earlier.output := by
  refine ⟨?_, ?_, ?_⟩
  · intro machine visited
    have formed := visited.wellFormed
    refine ⟨formed, ?_, ?_, ?_, ?_⟩
    · rw [← formed.cells]
      exact machine.tape.inside
    · intro cell member
      exact Nat.le_of_lt_succ cell.toNat_lt
    · rw [← formed.capacity]
      exact machine.loops.within
    · intro action fuel reply next position performed
      exact formed.not_toldBy performed position
  · intro machine visited
    exact visited.wrote ⟨#[], rfl, rfl⟩
  · intro earlier given machine visited later
    exact later.wrote ⟨#[], by simp [restart], rfl⟩

/-- The second loop is too deep, and the machine goes on inside it before it is restarted. -/
theorem session_wellFormed_too_deep :
    ∃ earlier machine : Machine,
      (start #[43, 46, 91, 91, 93] ⟨1, 1, none, by decide, by decide⟩ []).Visits Action.Regular earlier ∧
      (earlier.restart none).Visits Action.Ongoing machine ∧
      earlier.WellFormed #[43, 46, 91, 91, 93] ⟨1, 1, none, by decide, by decide⟩ ∧
      earlier.loops.frames = [Frame.ofOrigin 2] ∧ earlier.ip = 3 ∧ earlier.output = #[1] ∧
      machine.Wrote #[1] ∧ machine.written = 1 := by
  have used : ∃ earlier : Machine,
      (start #[43, 46, 91, 91, 93] ⟨1, 1, none, by decide, by decide⟩ []).Visits Action.Regular earlier ∧
      earlier.loops.frames = [Frame.ofOrigin 2] ∧ earlier.ip = 3 ∧ earlier.output = #[1] ∧
      ∃ machine, (earlier.restart none).Visits Action.Ongoing machine ∧ machine.written = 1 :=
    ⟨_, .acted (.trace 5) 0 .origin trivial rfl, rfl, rfl, rfl,
      _, .acted (.steps 2) 0 .origin trivial rfl, rfl⟩
  obtain ⟨earlier, visited, frames, place, output, machine, later, written⟩ := used
  obtain ⟨formed, -, restarted⟩ := session_wellFormed #[43, 46, 91, 91, 93]
    ⟨1, 1, none, by decide, by decide⟩ []
  exact ⟨earlier, machine, visited, later, (formed earlier visited).1, frames, place, output,
    output ▸ restarted earlier none machine visited later, written⟩

end Machine

end Brainfuck
