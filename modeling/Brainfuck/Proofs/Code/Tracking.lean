/-
This file compares two machines that execute the same commands at different places of their texts.
-/

import Brainfuck.Proofs.Code.Position
import Mathlib.Data.List.Forall2

namespace Brainfuck.Machine

/-- The two machines agree in all that a command can see, and their places are aligned. -/
structure Tracks (aligned : Int → Int → Prop) (machine other : Machine) : Prop where
  place : aligned machine.ip other.ip
  frames : List.Forall₂ (fun frame otherFrame => aligned frame.start otherFrame.start)
    machine.loops.frames other.loops.frames
  capacity : machine.loops.capacity = other.loops.capacity
  stepLimit : machine.stepLimit = other.stepLimit
  written : machine.written = other.written
  store : machine.store = other.store

/-- Both searches for the end of a loop fail, or they end at aligned places. -/
def ClosesAlike (aligned : Int → Int → Prop) (machine other : Machine) : Prop :=
  (machine.program.closing? machine.ip = none ∧ other.program.closing? other.ip = none) ∨
    ∃ resume otherResume, machine.program.closing? machine.ip = some resume ∧
      other.program.closing? other.ip = some otherResume ∧ aligned resume otherResume

namespace Tracks

variable {aligned : Int → Int → Prop} {machine other : Machine} {command : Command}

theorem read_eq (tracks : machine.Tracks aligned other) : machine.tape.read = other.tape.read :=
  congrArg (fun store => store.tape.read) tracks.store

theorem full_eq (tracks : machine.Tracks aligned other) : machine.loops.full = other.loops.full := by
  rw [LoopStack.full, LoopStack.full, LoopStack.depth, LoopStack.depth, tracks.capacity,
    tracks.frames.length_eq]

/-- Both machines execute a command with the same result, and a command that fails changes nothing. -/
theorem execute (tracks : machine.Tracks aligned other) (closing : machine.ClosesAlike aligned other)
    {next : Machine} {result : StepResult} (executing : machine.Executing command (result, next)) :
    (result = .moved ∧
      ∃ otherNext, other.Executing command (.moved, otherNext) ∧ next.Tracks aligned otherNext) ∨
    ∃ cause, result = .failed (.fault (machine.ip - 1) cause) ∧ next = machine ∧
      other.Executing command (.failed (.fault (other.ip - 1) cause), other) := by
  have read := tracks.read_eq
  have full := tracks.full_eq
  have frames := tracks.frames
  cases executing with
  | @basic action store same applied =>
      rw [tracks.store] at applied
      refine .inl ⟨rfl, _, .basic same applied, ?_⟩
      have output : machine.output = other.output := congrArg Store.output tracks.store
      refine { tracks with written := ?_, store := rfl }
      show machine.written + (store.output.size - machine.output.size) = _
      rw [output, tracks.written]
      rfl
  | offTape same failed =>
      rw [tracks.store] at failed
      exact .inr ⟨_, rfl, rfl, .offTape same failed⟩
  | tooDeep same filled =>
      refine .inr ⟨_, rfl, rfl, ?_⟩
      rw [tracks.capacity]
      exact .tooDeep same (full.symm.trans filled)
  | @entered loops same nonzero kept pushed =>
      have room := full.symm.trans (LoopStack.full_eq_false_of_pushed kept pushed)
      obtain ⟨otherLoops, -, otherKept, otherPushed⟩ := openLoop_enter room (read ▸ nonzero)
      refine .inl ⟨rfl, _, .entered same (read ▸ nonzero) otherKept otherPushed,
        { tracks with frames := ?_, capacity := ?_ }⟩
      · show List.Forall₂ _ loops.frames otherLoops.frames
        rw [pushed, otherPushed]
        exact .cons tracks.place frames
      · show loops.capacity = otherLoops.capacity
        rw [kept, otherKept, tracks.capacity]
  | skipped same room zero found =>
      rcases closing with ⟨missing, -⟩ | ⟨resume, otherResume, here, there, landed⟩
      · rw [found] at missing
        contradiction
      · rw [found] at here
        cases here
        exact .inl ⟨rfl, _, .skipped same (full.symm.trans room) (read.symm.trans zero) there,
          { tracks with place := landed }⟩
  | unmatchedOpen same room zero missing =>
      rcases closing with ⟨-, alone⟩ | ⟨resume, otherResume, here, -⟩
      · exact .inr ⟨_, rfl, rfl,
          .unmatchedOpen same (full.symm.trans room) (read.symm.trans zero) alone⟩
      · rw [missing] at here
        contradiction
  | unmatchedClose same empty =>
      rw [empty, List.forall₂_nil_left_iff] at frames
      exact .inr ⟨_, rfl, rfl, .unmatchedClose same frames⟩
  | left same top zero =>
      rw [top, List.forall₂_cons_left_iff] at frames
      obtain ⟨otherFrame, otherRest, back, below, otherTop⟩ := frames
      refine .inl ⟨rfl, _, .left same otherTop (read.symm.trans zero), { tracks with frames := ?_ }⟩
      rw [LoopStack.frames_pop, LoopStack.frames_pop, top, otherTop]
      exact below
  | repeated same top nonzero =>
      rw [top, List.forall₂_cons_left_iff] at frames
      obtain ⟨otherFrame, otherRest, back, below, otherTop⟩ := frames
      exact .inl ⟨rfl, _, .repeated same otherTop (read ▸ nonzero), { tracks with place := back }⟩

/-- At the same command both machines take a step with the same result, and both count it. -/
theorem step (tracks : machine.counted.Tracks aligned other.counted)
    (closing : machine.counted.ClosesAlike aligned other.counted)
    (found : machine.program.commandAt? machine.ip = some command)
    (otherFound : other.program.commandAt? other.ip = some command)
    (free : machine.spentLimit? = none) (otherFree : other.spentLimit? = none) :
    (∃ next otherNext, machine.step = (.moved, next) ∧ other.step = (.moved, otherNext) ∧
      next.steps = machine.steps + 1 ∧ otherNext.steps = other.steps + 1 ∧
      next.Tracks aligned otherNext) ∨
    ∃ cause, machine.step = (.failed (.fault machine.ip cause), machine.counted) ∧
      other.step = (.failed (.fault other.ip cause), other.counted) := by
  rw [step_command found free, step_command otherFound otherFree]
  rcases executed : machine.counted.execute command with ⟨result, next⟩
  rcases tracks.execute closing (executing_of_eq executed) with moved | failed
  · obtain ⟨rfl, otherNext, executing, after⟩ := moved
    exact .inl ⟨next, otherNext, rfl, executing.eq, (execute_frame executed).2.2.1,
      (execute_frame executing.eq).2.2.1, after⟩
  · obtain ⟨cause, rfl, rfl, executing⟩ := failed
    refine .inr ⟨cause, ?_, executing.eq.trans ?_⟩
    · simp only [counted, passed, Int.add_sub_cancel]
    · simp only [counted, passed, Int.add_sub_cancel]

end Tracks

/--
If two related machines can always go on to machines that are related again, or come to ends that
are alike, then the other machine ends whenever the first one does.
-/
theorem Ends.of_simulation (related settled : Machine → Machine → Prop)
    (alike : Ending → Ending → Prop)
    (simulates : ∀ machine other, related machine other →
      (∃ next otherNext, machine.Advances next ∧ other.Reaches otherNext ∧ related next otherNext) ∨
      ∃ ending otherEnding last otherLast, machine.Ends ending last ∧
        other.Ends otherEnding otherLast ∧ alike ending otherEnding ∧ settled last otherLast)
    {machine other last : Machine} {ending : Ending} (initially : related machine other)
    (ended : machine.Ends ending last) :
    ∃ otherEnding otherLast, other.Ends otherEnding otherLast ∧ alike ending otherEnding ∧
      settled last otherLast := by
  obtain ⟨fuel, ran⟩ := ended
  -- A round takes at least one step of the first machine, so less fuel is left for the rest.
  induction fuel using Nat.strongRecOn generalizing machine other with
  | ind fuel ih =>
      rcases simulates machine other initially with moved | stopped
      · obtain ⟨next, otherNext, advanced, reached, after⟩ := moved
        obtain ⟨less, smaller, rest⟩ := advanced.exists_runFor ran
        obtain ⟨otherEnding, otherLast, otherEnded, same, final⟩ := ih less smaller after rest
        exact ⟨otherEnding, otherLast, reached.ends_iff.mpr otherEnded, same, final⟩
      · obtain ⟨found, otherEnding, final, otherFinal, stops, otherStops, same, after⟩ := stopped
        obtain ⟨rfl, rfl⟩ := Ends.unique ⟨fuel, ran⟩ stops
        exact ⟨otherEnding, otherFinal, otherStops, same, after⟩

end Brainfuck.Machine
