/-
This file proves that comments change nothing in a run but the positions.
-/

import Brainfuck.Proofs.Code.Alignment
import Brainfuck.Proofs.Code.Tracking
import Brainfuck.Proofs.Run.StepLimit

namespace Brainfuck

/--
Two runs end alike if they both complete, or if they fail at the same command for one cause, which
gives both reports their kind and their text.
-/
inductive Ending.Alike (program other : Program) : Ending → Ending → Prop where
  | completed : Alike program other .completed .completed
  | failed {ordinal place otherPlace : Nat} {cause : Fault}
      (here : program.commandOffsets[ordinal]? = some place)
      (there : other.commandOffsets[ordinal]? = some otherPlace) :
      Alike program other (.failed (.fault place cause)) (.failed (.fault otherPlace cause))

namespace Machine

/-- Two machines are parallel if they differ only in their notes and in the comments of their texts. -/
structure Parallel (machine other : Machine) : Prop where
  text : machine.program.commands = other.program.commands
  place : Program.Aligned machine.program other.program machine.ip other.ip
  frames : List.Forall₂ (fun frame otherFrame =>
    Program.Aligned machine.program other.program frame.start otherFrame.start)
      machine.loops.frames other.loops.frames
  capacity : machine.loops.capacity = other.loops.capacity
  stepLimit : machine.stepLimit = other.stepLimit
  steps : machine.steps = other.steps
  written : machine.written = other.written
  store : machine.store = other.store

theorem parallel_start {program other : Program} (same : program.commands = other.commands)
    (limits : Limits) (input : List UInt8) :
    (start program limits input).announce.Parallel (start other limits input).announce where
  text := same
  place := ⟨0, 0, rfl, rfl, same⟩
  frames := .nil
  capacity := rfl
  stepLimit := rfl
  steps := rfl
  written := rfl
  store := rfl

namespace Parallel

variable {machine other : Machine} {command : Command}

theorem spentLimit? (parallel : machine.Parallel other) :
    machine.spentLimit? = other.spentLimit? := by
  rw [Machine.spentLimit?, Machine.spentLimit?, parallel.stepLimit, parallel.steps]

/-- Aligned places are enough for both machines to execute the same commands. -/
theorem tracks (parallel : machine.Parallel other) :
    machine.Tracks (Program.Aligned machine.program other.program) other :=
  { parallel with }

/-- One machine can pass a comment alone. -/
theorem passComment (parallel : machine.Parallel other) {byte : UInt8}
    (found : machine.program.byteAt? machine.ip = some byte) (plain : Command.ofByte? byte = none) :
    machine.passed.Parallel other := by
  obtain ⟨offset, otherOffset, here, there, same⟩ := parallel.place
  have comment : machine.program.commandAt? offset = none := by
    rw [← here, Program.commandAt?, found]
    exact plain
  refine { parallel with place := ⟨offset + 1, otherOffset, ?_, there, ?_⟩ }
  · rw [passed, here, Int.natCast_succ]
  · rw [← same]
    exact (Program.commandsFrom_of_comment comment).symm

/-- Both machines pass the same command. -/
theorem passed (parallel : machine.Parallel other)
    (found : machine.program.commandAt? machine.ip = some command)
    (otherFound : other.program.commandAt? other.ip = some command) :
    machine.passed.Parallel other.passed := by
  obtain ⟨offset, otherOffset, here, there, same⟩ := parallel.place
  rw [here] at found
  rw [there] at otherFound
  refine { parallel with place := ⟨offset + 1, otherOffset + 1, ?_, ?_, ?_⟩ }
  · rw [Machine.passed, here, Int.natCast_succ]
  · rw [Machine.passed, there, Int.natCast_succ]
  · rw [Program.commandsFrom_of_command found, Program.commandsFrom_of_command otherFound] at same
    exact List.tail_eq_of_cons_eq same

theorem counted (parallel : machine.Parallel other)
    (found : machine.program.commandAt? machine.ip = some command)
    (otherFound : other.program.commandAt? other.ip = some command) :
    machine.counted.Parallel other.counted :=
  { parallel.passed found otherFound with steps := congrArg Nat.succ parallel.steps }

/-- The other machine comes to the command at which this one stands. -/
theorem exists_reaches_command (parallel : machine.Parallel other)
    (found : machine.program.commandAt? machine.ip = some command) :
    ∃ place : Nat, other.Reaches { other with ip := place } ∧
      machine.Parallel { other with ip := place } ∧ other.program.commandAt? place = some command := by
  obtain ⟨offset, otherOffset, here, there, same⟩ := parallel.place
  rw [here] at found
  rw [Program.commandsFrom_of_command found] at same
  obtain ⟨place, silent, otherFound, following⟩ := Program.exists_silent_of_cons same.symm
  refine ⟨place, reaches_of_silent there silent, ?_, otherFound⟩
  refine { parallel with place := ⟨offset, place, here, rfl, ?_⟩ }
  rw [Program.commandsFrom_of_command found]
  exact following.symm

/-- At the end of one text only comments are left of the other. -/
theorem ends_of_size_le (parallel : machine.Parallel other)
    (past : machine.program.size ≤ machine.ip) :
    ∃ otherLast, other.Ends .completed otherLast ∧ machine.Parallel otherLast := by
  obtain ⟨offset, otherOffset, here, there, same⟩ := parallel.place
  rw [Program.commandsFrom_of_size_le (by omega)] at same
  obtain ⟨stop, silent, otherPast⟩ := Program.exists_silent_of_nil same.symm
  have stops : ({ other with ip := stop } : Machine).step = (.exhausted, { other with ip := stop }) :=
    step_of_size_le (Int.ofNat_le.mpr otherPast)
  refine ⟨_, ends_iff.mpr ⟨_, reaches_of_silent there silent, stops⟩, ?_⟩
  refine { parallel with place := ⟨offset, stop, here, rfl, ?_⟩ }
  rw [Program.commandsFrom_of_size_le (show machine.program.size ≤ offset by omega),
    Program.commandsFrom_of_size_le otherPast]

/-- Parallel machines that stand at the same command fail for one cause or move to parallel ones. -/
theorem step (parallel : machine.Parallel other)
    (found : machine.program.commandAt? machine.ip = some command)
    (otherFound : other.program.commandAt? other.ip = some command) :
    (∃ next otherNext, machine.step = (.moved, next) ∧ other.step = (.moved, otherNext) ∧
      next.Parallel otherNext) ∨
    ∃ cause next otherNext, machine.step = (.failed (.fault machine.ip cause), next) ∧
      other.step = (.failed (.fault other.ip cause), otherNext) ∧ next.Parallel otherNext := by
  have spent := parallel.spentLimit?
  cases limited : machine.spentLimit? with
  | some limit =>
      rw [limited] at spent
      exact .inr ⟨_, _, _, step_spent found limited, step_spent otherFound spent.symm,
        parallel.passed found otherFound⟩
  | none =>
      rw [limited] at spent
      have counted := parallel.counted found otherFound
      rcases counted.tracks.step counted.place.closing? found otherFound limited spent.symm with
        moved | failed
      · obtain ⟨next, otherNext, moved, otherMoved, steps, otherSteps, tracks⟩ := moved
        have text : next.program = machine.counted.program := (step_frame moved).1
        have otherText : otherNext.program = other.counted.program := (step_frame otherMoved).1
        rw [← text, ← otherText] at tracks
        exact .inl ⟨next, otherNext, moved, otherMoved, { tracks with
          text := by rw [text, otherText, counted.text]
          steps := by rw [steps, otherSteps, parallel.steps] }⟩
      · obtain ⟨cause, failed, otherFailed⟩ := failed
        exact .inr ⟨cause, _, _, failed, otherFailed, counted⟩

/--
When one of two parallel machines takes a step, the other can follow it to a parallel machine, or
both are at the end of their runs.
-/
theorem simulates (parallel : machine.Parallel other) :
    (∃ next otherNext, machine.step = (.moved, next) ∧ other.Reaches otherNext ∧
      next.Parallel otherNext) ∨
    ∃ (ending otherEnding : Ending) (last otherLast : Machine),
      machine.step = (ending.result, last) ∧ other.Ends otherEnding otherLast ∧
      ending.Alike machine.program other.program otherEnding ∧ last.Parallel otherLast := by
  rcases stepped : machine.step with ⟨result, following⟩
  cases stepping_of_eq stepped with
  | exhausted past =>
      obtain ⟨otherLast, otherEnded, after⟩ := parallel.ends_of_size_le past
      exact .inr ⟨.completed, .completed, machine, otherLast, rfl, otherEnded, .completed, after⟩
  | outOfText inside missing =>
      obtain ⟨offset, -, here, -, -⟩ := parallel.place
      have past := Program.size_le_of_byteAt? (by omega) missing
      omega
  | comment found plain =>
      exact .inl ⟨machine.passed, other, rfl, .refl other, parallel.passComment found plain⟩
  | spent found | command found =>
      -- The other machine first has to pass the comments before the command.
      obtain ⟨place, reached, level, otherFound⟩ := parallel.exists_reaches_command found
      rw [← stepped]
      rcases level.step found otherFound with moved | failed
      · obtain ⟨next, otherNext, moved, otherMoved, after⟩ := moved
        exact .inl ⟨next, otherNext, moved, reached.trans (.of_step otherMoved), after⟩
      · obtain ⟨cause, last, otherLast, failed, otherFailed, after⟩ := failed
        obtain ⟨ordinal, here, there, same, otherSame, offset, otherOffset⟩ :=
          Program.exists_ordinal level.text level.place found otherFound
        rw [same] at failed
        rw [otherSame] at otherFailed
        exact .inr ⟨.failed (.fault here cause), .failed (.fault there cause), last, otherLast, failed,
          ends_iff.mpr ⟨_, reached, otherFailed⟩, .failed offset otherOffset, after⟩

/-- If one of two parallel machines ends, so does the other, and they end alike. -/
theorem exists_ends (parallel : machine.Parallel other) {ending : Ending} {last : Machine}
    (ended : machine.Ends ending last) :
    ∃ otherEnding otherLast, other.Ends otherEnding otherLast ∧
      ending.Alike machine.program other.program otherEnding ∧ last.Parallel otherLast := by
  refine Ends.of_simulation (fun here there => here.program = machine.program ∧
    there.program = other.program ∧ here.Parallel there) Parallel
    (Ending.Alike machine.program other.program) ?_ ⟨rfl, rfl, parallel⟩ ended
  rintro here there ⟨text, otherText, level⟩
  rcases level.simulates with moved | stopped
  · obtain ⟨next, otherNext, moved, reached, after⟩ := moved
    exact .inl ⟨next, otherNext, .of_step moved, reached, (step_frame moved).1.trans text,
      reached.frame.1.trans otherText, after⟩
  · obtain ⟨found, otherFound, final, otherFinal, stopped, otherEnded, alike, after⟩ := stopped
    rw [text, otherText] at alike
    exact .inr ⟨found, otherFound, final, otherFinal, ends_iff.mpr ⟨here, .refl here, stopped⟩,
      otherEnded, alike, after⟩

end Parallel

/-- A run ends if the run of a text with the same commands does, and both end alike. -/
theorem Finishes.exists_alike {program other : Program} (same : program.commands = other.commands)
    {limits : Limits} {input : List UInt8} {ending : Ending} {last : Machine}
    (finished : (start program limits input).Finishes ending last) :
    ∃ otherEnding otherLast, (start other limits input).Finishes otherEnding otherLast ∧
      ending.Alike program other otherEnding ∧ last.Parallel otherLast := by
  obtain ⟨stopped, ended, rfl⟩ := finishes_iff.mp finished
  obtain ⟨otherEnding, otherStopped, otherEnded, alike, parallel⟩ :=
    (parallel_start same limits input).exists_ends ended
  refine ⟨otherEnding, _, finishes_iff.mpr ⟨otherStopped, otherEnded, rfl⟩, alike, ?_⟩
  rw [close_eq, close_eq otherEnding]
  exact { parallel with }

end Machine

open Machine in
/--
Two texts with the same commands both have runs that end, or neither has. They end alike, with the
same tape, output, unread input and count, and with as many open loops.
-/
theorem comments_transparent (program other : Program) (same : program.commands = other.commands)
    (limits : Limits) (input : List UInt8) :
    ((∃ ending last, (start program limits input).Finishes ending last) ↔
      ∃ ending last, (start other limits input).Finishes ending last) ∧
    ∀ ending last otherEnding otherLast, (start program limits input).Finishes ending last →
      (start other limits input).Finishes otherEnding otherLast →
        ending.Alike program other otherEnding ∧ last.tape = otherLast.tape ∧
        last.output = otherLast.output ∧ last.input = otherLast.input ∧
        last.steps = otherLast.steps ∧ last.loops.depth = otherLast.loops.depth := by
  refine ⟨⟨?_, ?_⟩, ?_⟩
  · rintro ⟨ending, last, finished⟩
    obtain ⟨otherEnding, otherLast, otherFinished, -⟩ := finished.exists_alike same
    exact ⟨otherEnding, otherLast, otherFinished⟩
  · rintro ⟨ending, last, finished⟩
    obtain ⟨otherEnding, otherLast, otherFinished, -⟩ := finished.exists_alike same.symm
    exact ⟨otherEnding, otherLast, otherFinished⟩
  · intro ending last otherEnding otherLast finished otherFinished
    obtain ⟨_, _, again, alike, parallel⟩ := finished.exists_alike same
    obtain ⟨rfl, rfl⟩ := again.unique otherFinished
    have store := parallel.store
    exact ⟨alike, congrArg Store.tape store, congrArg Store.output store, congrArg Store.input store,
      parallel.steps, parallel.frames.length_eq⟩

open Machine in
/-- The comment inside the skipped loop moves the failing command from offset three to four. -/
theorem comments_transparent_skipped_loop :
    Program.commands #[91, 97, 93, 43, 60] = Program.commands #[91, 93, 43, 60] ∧
    ∃ last otherLast,
      (start #[91, 97, 93, 43, 60] ⟨1, 1, none, by decide, by decide⟩ []).Finishes
        (.failed (.fault 4 (.offTape .left))) last ∧
      (start #[91, 93, 43, 60] ⟨1, 1, none, by decide, by decide⟩ []).Finishes
        (.failed (.fault 3 (.offTape .left))) otherLast ∧
      last.tape = otherLast.tape ∧ last.steps = otherLast.steps := by
  have same : Program.commands #[91, 97, 93, 43, 60] = Program.commands #[91, 93, 43, 60] := by decide
  have finished : ∃ last, (start #[91, 97, 93, 43, 60] ⟨1, 1, none, by decide, by decide⟩
      []).Finishes (.failed (.fault 4 (.offTape .left))) last := ⟨_, 5, rfl⟩
  have otherFinished : ∃ last, (start #[91, 93, 43, 60] ⟨1, 1, none, by decide, by decide⟩
      []).Finishes (.failed (.fault 3 (.offTape .left))) last := ⟨_, 5, rfl⟩
  obtain ⟨last, finished⟩ := finished
  obtain ⟨otherLast, otherFinished⟩ := otherFinished
  obtain ⟨-, tape, -, -, steps, -⟩ :=
    (comments_transparent _ _ same _ _).2 _ _ _ _ finished otherFinished
  exact ⟨same, last, otherLast, finished, otherFinished, tape, steps⟩

end Brainfuck
