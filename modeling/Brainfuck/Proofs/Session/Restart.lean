/-
This file proves that a restarted machine cannot be told from a new one.
-/

import Brainfuck.Proofs.Run.Step
import Brainfuck.Proofs.Run.StepLimit
import Brainfuck.Proofs.Session.History

namespace Brainfuck

/-- The bytes of the store come after earlier ones. -/
def Store.behind (store : Store) (prior : Array UInt8) : Store :=
  { store with output := prior ++ store.output }

/-- A basic command does not look at the output. -/
theorem Basic.apply_behind (action : Basic) (store : Store) (prior : Array UInt8) :
    action.apply (store.behind prior) = (action.apply store).map (·.behind prior) := by
  cases action with
  | right =>
      simp only [Basic.apply, Store.behind]
      cases store.tape.advance? <;> rfl
  | left =>
      simp only [Basic.apply, Store.behind]
      cases store.tape.retreat? <;> rfl
  | output =>
      simp only [Basic.apply, Store.behind, Except.map, Array.append_push]
  | increment | decrement | input => rfl

namespace Machine

/-- The output and the notes of the machine come after earlier ones. -/
def behind (machine : Machine) (prior : Array UInt8) (notes : Array Note) : Machine :=
  { machine with output := prior ++ machine.output, notes := notes ++ machine.notes }

section Behind

variable (prior : Array UInt8) (notes : Array Note)

theorem note_behind (machine : Machine) (entry : Note) :
    (machine.behind prior notes).note entry = (machine.note entry).behind prior notes := by
  simp only [note, behind, Array.append_push]

/-- The bytes that a command adds are counted from where the machine began. -/
theorem absorb_behind (machine : Machine) (store : Store) :
    (machine.behind prior notes).absorb (store.behind prior) =
      (machine.absorb store).behind prior notes := by
  simp only [absorb, behind, Store.behind, Array.size_append, Nat.add_sub_add_left]

theorem Executing.behind {machine next : Machine} {command : Command} {result : StepResult}
    (executing : machine.Executing command (result, next)) :
    (machine.behind prior notes).Executing command (result, next.behind prior notes) := by
  cases executing with
  | @basic action store same applied =>
      rw [← absorb_behind]
      apply Executing.basic same
      show action.apply (machine.store.behind prior) = _
      rw [Basic.apply_behind, applied]
      rfl
  | @offTape action edge same failed =>
      apply Executing.offTape same
      show action.apply (machine.store.behind prior) = _
      rw [Basic.apply_behind, failed]
      rfl
  | tooDeep same full => exact .tooDeep same full
  | entered same nonzero kept pushed => exact .entered same nonzero kept pushed
  | @skipped resume same room zero found =>
      have skipped : (machine.behind prior notes).Executing command (.moved,
          { (machine.behind prior notes).note (.skipped (machine.ip - 1) resume) with ip := resume }) :=
        .skipped same room zero found
      rw [note_behind] at skipped
      exact skipped
  | unmatchedOpen same room zero missing => exact .unmatchedOpen same room zero missing
  | unmatchedClose same empty => exact .unmatchedClose same empty
  | left same top zero => exact .left same top zero
  | repeated same top nonzero => exact .repeated same top nonzero

/-- What was written and noted before changes no step. -/
theorem step_behind (machine : Machine) :
    (machine.behind prior notes).step = (machine.step.1, machine.step.2.behind prior notes) := by
  rcases stepped : machine.step with ⟨result, next⟩
  cases stepping_of_eq stepped with
  | exhausted past => exact step_of_size_le past
  | outOfText inside missing => exact step_of_missing inside missing
  | comment found plain => exact step_comment found plain
  | spent found spent => exact step_spent found spent
  | @command command _ found free executed =>
      have here : (machine.behind prior notes).program.commandAt? (machine.behind prior notes).ip =
        some command := found
      have acted := (executing_of_eq executed).behind prior notes
      exact (step_command here free).trans acted.eq

theorem runFor_behind (fuel : Nat) (machine : Machine) :
    (machine.behind prior notes).runFor fuel =
      (machine.runFor fuel).map fun result => (result.1, result.2.behind prior notes) := by
  induction fuel generalizing machine with
  | zero => rfl
  | succ fuel ih =>
      rw [runFor, runFor, step_behind]
      rcases machine.step with ⟨result, next⟩
      cases result with
      | moved => exact ih next
      | exhausted | failed => rfl

theorem close_behind (ending : Ending) (machine : Machine) :
    ending.close (machine.behind prior notes) = (ending.close machine).behind prior notes := by
  cases ending with
  | failed failure => rfl
  | completed =>
      have warned : (machine.behind prior notes).warn = machine.warn.behind prior notes := by
        simp only [warn, show (machine.behind prior notes).loops = machine.loops from rfl]
        split
        · rfl
        · exact note_behind prior notes machine _
      simp only [Ending.close, conclude, warned]
      exact note_behind prior notes machine.warn _

theorem run_behind (fuel : Nat) (machine : Machine) :
    (machine.behind prior notes).run fuel =
      (machine.run fuel).map fun result => (result.1, result.2.behind prior notes) := by
  have announced : (machine.behind prior notes).announce = machine.announce.behind prior notes :=
    note_behind prior notes machine _
  simp only [run_eq, announced, runFor_behind, Option.map_map]
  congr 1
  funext result
  exact congrArg (Prod.mk result.1) (close_behind prior notes result.1 result.2)

theorem stepUpTo_behind (count taken : Nat) (machine : Machine) :
    (machine.behind prior notes).stepUpTo count taken =
      ((machine.stepUpTo count taken).1, (machine.stepUpTo count taken).2.behind prior notes) := by
  induction count generalizing machine taken with
  | zero => rfl
  | succ count ih =>
      rw [stepUpTo, stepUpTo, step_behind]
      rcases machine.step with ⟨result, next⟩
      cases result with
      | moved => exact ih (taken + 1) next
      | exhausted | failed => rfl

theorem trace_behind (count : Nat) (rows : Array TraceRow) (machine : Machine) :
    (machine.behind prior notes).trace count rows =
      ((machine.trace count rows).1, (machine.trace count rows).2.behind prior notes) := by
  induction count generalizing machine rows with
  | zero => rfl
  | succ count ih =>
      rw [trace, trace, step_behind]
      rcases machine.step with ⟨result, next⟩
      cases result with
      | exhausted => rfl
      | moved | failed => exact ih _ next

/-- What was written and noted before changes no action. -/
theorem perform_behind (fuel : Nat) (machine : Machine) (action : Action) :
    (machine.behind prior notes).perform fuel action =
      (machine.perform fuel action).map fun result => (result.1, result.2.behind prior notes) := by
  cases action with
  | step =>
      simp only [perform, step_behind]
      rcases machine.step with ⟨result, next⟩
      cases result <;> rfl
  | steps count =>
      simp only [perform, stepUpTo_behind]
      rcases machine.stepUpTo count 0 with ⟨result, next⟩
      cases result <;> rfl
  | trace count =>
      simp only [perform, trace_behind]
      rfl
  | run =>
      simp only [perform, run_behind, Option.map_map]
      congr 1
      funext result
      obtain ⟨ending, last⟩ := result
      cases ending <;> rfl
  | restart | jump | limit => rfl
  | tape request =>
      simp only [perform, show (machine.behind prior notes).tape = machine.tape from rfl]
      split <;> rfl
  | loops request =>
      simp only [perform, show (machine.behind prior notes).loops = machine.loops from rfl]
      split <;> rfl

end Behind

/-- The replies to several actions are listed in order, unless a run among them uses up the fuel. -/
def performAll (fuel : Nat) :
    List Action → Machine → Option (List (Except ActionError ActionReply) × Machine)
  | [], machine => some ([], machine)
  | action :: rest, machine =>
      (machine.perform fuel action).bind fun (reply, next) =>
        (performAll fuel rest next).map fun (replies, last) => (reply :: replies, last)

theorem performAll_behind (prior : Array UInt8) (notes : Array Note) (fuel : Nat)
    (actions : List Action) (machine : Machine) :
    (machine.behind prior notes).performAll fuel actions =
      (machine.performAll fuel actions).map fun result =>
        (result.1, result.2.behind prior notes) := by
  induction actions generalizing machine with
  | nil => rfl
  | cons action rest ih =>
      rw [performAll, performAll, perform_behind]
      cases machine.perform fuel action with
      | none => rfl
      | some result =>
          obtain ⟨reply, next⟩ := result
          simp only [Option.map_some, Option.bind_some, ih, Option.map_map]
          rfl

end Machine

namespace Tape

theorem reset_eq_blank {tape : Tape} {size : Nat} (positive : 0 < size) (same : tape.size = size) :
    tape.reset = blank size positive := by
  subst same
  rfl

theorem size_repeatedly (act : Tape → Except Refusal Reply × Tape)
    (kept : ∀ tape, (act tape).2.size = tape.size) (count : Nat) (tape : Tape) :
    (repeatedly act count tape).2.size = tape.size := by
  induction count generalizing tape with
  | zero => rfl
  | succ count ih =>
      have first := kept tape
      rw [repeatedly]
      rcases acted : act tape with ⟨reply, next⟩
      rw [acted] at first
      cases reply with
      | ok reply => exact (ih next).trans first
      | error refusal => exact first

/-- No request changes the number of cells. -/
theorem size_perform (request : Request) (tape : Tape) :
    (perform request tape).2.size = tape.size := by
  induction request generalizing tape with
  | advance =>
      rw [perform]
      split
      · rename_i next moved
        exact congrArg Array.size (advance?_eq_some.mp moved).1
      · rfl
  | retreat =>
      rw [perform]
      split
      · rename_i next moved
        exact congrArg Array.size (retreat?_eq_some.mp moved).1
      · rfl
  | increment | decrement | write => simp [perform, increment, decrement, store]
  | reset => simp [perform]
  | read | size | cursor | snapshot => rfl
  | dump count width =>
      rw [perform]
      split <;> rfl
  | times count request ih => exact size_repeatedly (perform request) ih count tape

end Tape

/-- No request changes how many loops may be open. -/
theorem LoopStack.capacity_perform (request : Request) (stack : LoopStack) :
    (perform request stack).2.capacity = stack.capacity := by
  cases request with
  | push frame =>
      rw [perform]
      split
      · rename_i next pushed
        exact (push?_eq_some.mp pushed).1
      · rfl
  | peek | pop | clear => rfl

namespace Machine

/-- No action changes these parts of a machine. -/
structure Issued (machine : Machine) (program : Program) (limits : Limits) : Prop where
  text : machine.program = program
  cells : machine.tape.size = limits.tapeSize
  capacity : machine.loops.capacity = limits.loopDepth

theorem Visits.issued {allowed : Action → Prop} {program : Program} {limits : Limits}
    {input : List UInt8} {machine : Machine}
    (visited : (start program limits input).Visits allowed machine) :
    machine.Issued program limits := by
  refine visited.keeps (Issued · program limits) ?_ (fun _ _ issued => { issued with }) ?_ ?_
  · intro machine issued
    rcases stepped : machine.step with ⟨result, next⟩
    have size := machine.step_size
    obtain ⟨text, -, capacity⟩ := step_frame stepped
    rw [stepped] at size
    exact ⟨text.trans issued.text, size.trans issued.cells, capacity.trans issued.capacity⟩
  · intro machine action next permitted assigned issued
    cases assigned with
    | restart input => exact { issued with cells := (Tape.size_reset _).trans issued.cells }
    | jump | limit => exact { issued with }
    | tape request => exact { issued with cells := (Tape.size_perform request _).trans issued.cells }
    | loops request =>
        exact { issued with capacity := (LoopStack.capacity_perform request _).trans issued.capacity }
  · exact ⟨rfl, Tape.size_blank limits.tapeSize limits.hasCell, rfl⟩

/-- A restart leaves nothing of the past but the output, the notes, the limit and the unread input. -/
theorem Issued.restart_eq {machine : Machine} {program : Program} {limits : Limits}
    (issued : machine.Issued program limits) (given : Option (List UInt8)) :
    machine.restart given =
      ((start program limits (given.getD machine.input)).limited machine.stepLimit).behind
        machine.output machine.notes := by
  have tape := Tape.reset_eq_blank limits.hasCell issued.cells
  have loops : machine.loops.clear = LoopStack.empty limits.loopDepth :=
    congrArg LoopStack.empty issued.capacity
  simp only [restart, start, behind, limited, Array.append_empty, issued.text, tape, loops]

/--
Whatever was done to a machine before, all that is done after a restart is answered as by a new
machine, and the bytes that the new machine would write come after what was written before. The new
machine is given the current limit, or it is built with it if it is one that can be asked for.
-/
theorem restart_eq_start (program : Program) (limits : Limits) (input : List UInt8)
    {machine : Machine} (visited : (start program limits input).Visits (fun _ => True) machine)
    (given : Option (List UInt8)) (fuel : Nat) (actions : List Action) :
    (machine.restart given).performAll fuel actions =
      (((start program limits (given.getD machine.input)).limited machine.stepLimit).performAll fuel
        actions).map (fun result => (result.1, result.2.behind machine.output machine.notes)) ∧
    ∀ steps : Option Nat, machine.stepLimit = steps.map Int.ofNat →
      (machine.restart given).performAll fuel actions =
        ((start program (limits.withSteps steps) (given.getD machine.input)).performAll fuel
          actions).map fun result => (result.1, result.2.behind machine.output machine.notes) := by
  have same := visited.issued.restart_eq given
  constructor
  · rw [same, performAll_behind]
  · intro steps asked
    rw [same, performAll_behind, asked]
    rfl

/-- The machine is left before its text, with a frame and another limit that it was not built with. -/
theorem restart_eq_start_before_text :
    ∃ machine : Machine,
      (start #[44, 46] ⟨2, 1, none, by decide, by decide⟩ [7, 8]).Visits (fun _ => True) machine ∧
      machine.ip = -5 ∧ machine.loops.depth = 1 ∧ machine.output = #[7] ∧
      (machine.restart none).performAll 3 [.run, .step] =
        ((start #[44, 46] ⟨2, 1, some 4, by decide, by decide⟩ [8]).performAll 3 [.run, .step]).map
          fun result => (result.1, result.2.behind #[7] machine.notes) := by
  have used : ∃ machine : Machine,
      (start #[44, 46] ⟨2, 1, none, by decide, by decide⟩ [7, 8]).Visits (fun _ => True) machine ∧
      machine.ip = -5 ∧ machine.loops.depth = 1 ∧ machine.output = #[7] ∧ machine.input = [8] ∧
      machine.stepLimit = some 4 :=
    ⟨_, .acted (.jump (-5)) 0 (.acted (.limit (some 4)) 0 (.acted (.loops (.push ⟨9, 3⟩)) 0
      (.acted .run 3 .origin trivial rfl) trivial rfl) trivial rfl) trivial rfl,
      rfl, rfl, rfl, rfl, rfl⟩
  obtain ⟨machine, visited, place, depth, output, input, limit⟩ := used
  have fresh := (restart_eq_start _ _ _ visited none 3 [.run, .step]).2 (some 4) limit
  rw [output, show none.getD machine.input = [8] from input] at fresh
  exact ⟨machine, visited, place, depth, output, fresh⟩

end Machine

end Brainfuck
