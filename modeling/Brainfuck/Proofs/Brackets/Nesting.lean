/-
This file proves that the loop stack of a run is the nesting of the text before its position.
-/

import Brainfuck.Proofs.Brackets.Pairing
import Brainfuck.Proofs.Run.Reach
import Brainfuck.Proofs.Run.Step

namespace Brainfuck

open Pairing (before)

namespace Machine

/-- The open loops are the brackets that are open in the text before this offset. -/
structure Nested (machine : Machine) (offset : Nat) : Prop where
  place : machine.ip = offset
  inside : offset ≤ machine.program.size
  frames : machine.loops.frames = (before machine.program offset).opened.map Frame.ofOrigin
  matched : (before machine.program offset).stray = []

/-- The forward scan from a counted bracket stops behind its partner. -/
theorem closing?_counted {machine : Machine} {offset : Nat} (place : machine.ip = offset)
    (found : machine.program.commandAt? offset = some .loopOpen) :
    machine.counted.program.closing? machine.counted.ip =
      ((Pairing.ofProgram machine.program).closer? offset).map fun closer : Nat => (closer : Int) + 1 := by
  rw [← Pairing.closing?_eq found, ← place]
  rfl

theorem nested_start (program : Program) (limits : Limits) (input : List UInt8) :
    (Machine.start program limits input).Nested 0 :=
  ⟨rfl, Nat.zero_le _, rfl, rfl⟩

namespace Nested

variable {machine next : Machine} {offset : Nat}

/-- The notes are no part of the nesting. -/
theorem announce (nested : machine.Nested offset) : machine.announce.Nested offset :=
  ⟨nested.place, nested.inside, nested.frames, nested.matched⟩

/-- A byte that is no bracket is passed without a change to the nesting. -/
theorem pass (nested : machine.Nested offset) (less : offset < machine.program.size)
    (notOpen : machine.program.commandAt? offset ≠ some .loopOpen)
    (notClose : machine.program.commandAt? offset ≠ some .loopClose)
    (program : next.program = machine.program) (place : next.ip = machine.ip + 1)
    (loops : next.loops = machine.loops) : next.Nested (offset + 1) where
  place := by rw [place, nested.place, Int.natCast_succ]
  inside := by rw [program]; exact less
  frames := by
    rw [loops, program, Pairing.before_succ_other _ _ notOpen notClose]
    exact nested.frames
  matched := by
    rw [program, Pairing.before_succ_other _ _ notOpen notClose]
    exact nested.matched

/-- An entered loop is the innermost one. -/
theorem enter (nested : machine.Nested offset)
    (found : machine.program.commandAt? offset = some .loopOpen)
    (program : next.program = machine.program) (place : next.ip = machine.ip + 1)
    (loops : next.loops.frames = ⟨machine.ip + 1, machine.ip⟩ :: machine.loops.frames) :
    next.Nested (offset + 1) where
  place := by rw [place, nested.place, Int.natCast_succ]
  inside := by rw [program]; exact Program.lt_of_commandAt?_natCast found
  frames := by
    rw [loops, program, Pairing.before_succ_open found, nested.frames, nested.place]
    rfl
  matched := by
    rw [program, Pairing.before_succ_open found]
    exact nested.matched

/-- A skipped loop changes nothing, since the whole of it lies between its brackets. -/
theorem skip {closer : Nat} (nested : machine.Nested offset)
    (partner : (Pairing.ofProgram machine.program).closer? offset = some closer)
    (program : next.program = machine.program) (place : next.ip = closer + 1)
    (loops : next.loops = machine.loops) : next.Nested (closer + 1) := by
  have paired := Pairing.closer?_eq_some.mp partner
  obtain ⟨opened, stray⟩ := Pairing.before_succ_closer paired nested.matched
  rw [← Pairing.before_size] at paired
  obtain ⟨less, -, -⟩ := Pairing.mem_pairs_iff.mp paired
  exact {
    place := place
    inside := by rw [program]; exact less
    frames := by rw [loops, program, opened]; exact nested.frames
    matched := by rw [program]; exact stray }

/-- The innermost frame belongs to the innermost bracket. -/
theorem innermost {frame : Frame} {rest : List Frame} (nested : machine.Nested offset)
    (top : machine.loops.frames = frame :: rest) :
    ∃ origin below, (before machine.program offset).opened = origin :: below ∧
      frame = Frame.ofOrigin origin ∧ rest = below.map Frame.ofOrigin := by
  have frames := nested.frames.symm.trans top
  obtain ⟨origin, below, opened, same, others⟩ := List.map_eq_cons_iff.mp frames
  exact ⟨origin, below, opened, same.symm, others.symm⟩

/-- A loop that is left is no longer open. -/
theorem leave (nested : machine.Nested offset)
    (found : machine.program.commandAt? offset = some .loopClose) {frame : Frame}
    {rest : List Frame} (top : machine.loops.frames = frame :: rest)
    (program : next.program = machine.program) (place : next.ip = machine.ip + 1)
    (loops : next.loops.frames = rest) : next.Nested (offset + 1) := by
  obtain ⟨origin, below, opened, -, others⟩ := nested.innermost top
  have grown := Pairing.before_succ_close found opened
  exact {
    place := by rw [place, nested.place, Int.natCast_succ]
    inside := by rw [program]; exact Program.lt_of_commandAt?_natCast found
    frames := by rw [loops, program, grown]; exact others
    matched := by rw [program, grown]; exact nested.matched }

/-- A repeated loop finds the brackets open that were open when it was entered. -/
theorem again (nested : machine.Nested offset) {frame : Frame} {rest : List Frame}
    (top : machine.loops.frames = frame :: rest) (program : next.program = machine.program)
    (place : next.ip = frame.start) (loops : next.loops = machine.loops) :
    ∃ later, next.Nested later := by
  obtain ⟨origin, below, opened, same, others⟩ := nested.innermost top
  have suffix : origin :: below <:+ (before machine.program offset).opened :=
    opened ▸ List.suffix_rfl
  obtain ⟨less, found, under⟩ := Pairing.opened_of_suffix suffix
  have earlier := Pairing.stray_of_le (Nat.le_of_lt less) nested.matched
  have entered := Pairing.before_succ_open found
  refine ⟨origin + 1, ?_, ?_, ?_, ?_⟩
  · rw [place, same]
    exact (Int.natCast_succ origin).symm
  · rw [program]
    exact Program.lt_of_commandAt?_natCast found
  · rw [loops, program, entered, under, nested.frames, opened]
  · rw [program, entered]
    exact earlier

/-- A frame stands for each open bracket, so both have the same number. -/
theorem depth (nested : machine.Nested offset) :
    machine.loops.depth = Pairing.depthAt machine.program offset := by
  rw [LoopStack.depth, nested.frames, List.length_map]
  rfl

/-- Every command that moves the machine keeps the nesting. -/
theorem execute {command : Command} (nested : machine.Nested offset)
    (found : machine.program.commandAt? offset = some command)
    (executed : machine.counted.execute command = (.moved, next)) :
    ∃ later, next.Nested later := by
  have less := Program.lt_of_commandAt?_natCast found
  cases executing_of_eq executed with
  | @basic action _ same applied =>
      have notOpen : action.command ≠ .loopOpen := by cases action <;> decide
      have notClose : action.command ≠ .loopClose := by cases action <;> decide
      rw [same] at found
      exact ⟨offset + 1, nested.pass less (by simp [found, notOpen]) (by simp [found, notClose])
        rfl rfl rfl⟩
  | entered same nonzero kept pushed =>
      rw [same] at found
      refine ⟨offset + 1, nested.enter found rfl rfl ?_⟩
      rw [pushed]
      simp only [counted, passed, Int.add_sub_cancel]
  | skipped same room zero scanned =>
      rw [same] at found
      rw [closing?_counted nested.place found] at scanned
      obtain ⟨closer, partner, resumed⟩ := Option.map_eq_some_iff.mp scanned
      exact ⟨closer + 1, nested.skip partner rfl resumed.symm rfl⟩
  | left same top zero =>
      rw [same] at found
      refine ⟨offset + 1, nested.leave found top rfl rfl ?_⟩
      rw [LoopStack.frames_pop, top]
      rfl
  | repeated same top nonzero => exact nested.again top rfl rfl rfl

/-- Every move keeps the nesting. -/
theorem step (nested : machine.Nested offset) (moved : machine.step = (.moved, next)) :
    ∃ later, next.Nested later := by
  cases stepping_of_eq moved with
  | comment found plain =>
      have less := Program.lt_size_of_byteAt? found
      have other : machine.program.commandAt? offset = none := by
        rw [← nested.place, Program.commandAt?, found]
        exact plain
      rw [nested.place] at less
      exact ⟨offset + 1, nested.pass (by omega) (by simp [other]) (by simp [other]) rfl rfl rfl⟩
  | command found free executed =>
      rw [nested.place] at found
      exact nested.execute found executed

end Nested

end Machine

end Brainfuck
