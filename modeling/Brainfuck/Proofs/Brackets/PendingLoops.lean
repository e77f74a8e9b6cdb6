/-
This file proves that the text alone decides which loops are open at the end of a run.
-/

import Brainfuck.Evaluation
import Brainfuck.Proofs.Brackets.Nesting

namespace Brainfuck

/-- Only these notes are shown to a user who did not ask for more. -/
def warnings (notes : Array Note) : List Note :=
  notes.toList.filter fun note => note.level = .warning

/-- The warning of a program names the last of its unmatched opening brackets. -/
def pendingWarnings (program : Program) : List Note :=
  ((Pairing.unmatchedOpens program).getLast?.map fun origin : Nat =>
    Note.pending (Pairing.unmatchedOpens program).length origin).toList

namespace Machine

/-- A step adds no warning. -/
theorem step_warnings {machine next : Machine} {result : StepResult}
    (stepped : machine.step = (result, next)) : warnings next.notes = warnings machine.notes := by
  cases stepping_of_eq stepped with
  | exhausted | outOfText | comment | spent => rfl
  | command found free executed =>
      rcases execute_notes executed with same | skipped
      · rw [show next.notes = machine.notes from same]
      · obtain ⟨origin, resume, pushed⟩ := skipped
        rw [show next.notes = machine.notes.push (.skipped origin resume) from pushed]
        simp [warnings, Note.level]

/-- The end of a run warns of the innermost open loop. -/
theorem warnings_conclude (machine : Machine) :
    warnings machine.conclude.notes = warnings machine.notes ++
      (machine.loops.peek?.map fun frame => Note.pending machine.loops.depth frame.origin).toList := by
  simp only [conclude, warn]
  cases machine.loops.peek? <;> simp [note, warnings, Note.level]

/-- A run warns of nothing but the loops that are open when it completes. -/
theorem Finishes.warnings_eq {program : Program} {limits : Limits} {input : List UInt8}
    {ending : Ending} {last : Machine}
    (finished : (Machine.start program limits input).Finishes ending last) :
    warnings last.notes =
      match ending with
      | .completed =>
          (last.loops.peek?.map fun frame => Note.pending last.loops.depth frame.origin).toList
      | .failed _ => [] := by
  obtain ⟨stopped, ended, rfl⟩ := finishes_iff.mp finished
  obtain ⟨earlier, reached, final⟩ := ends_iff.mp ended
  have quiet : warnings earlier.notes = [] := by
    refine reached.keeps (fun machine => warnings machine.notes = []) ?_ rfl
    intro machine next quiet moved
    exact (step_warnings moved).trans quiet
  have silent : warnings stopped.notes = [] := (step_warnings final).trans quiet
  cases ending with
  | failed failure => exact silent
  | completed =>
      have loops : stopped.conclude.loops = stopped.loops := by
        rw [show stopped.conclude = _ from close_eq .completed stopped]
      show warnings stopped.conclude.notes = _
      rw [warnings_conclude, silent, List.nil_append, ← loops]
      rfl

/-- A run that completes stops at the end of the text with the nesting of the whole text. -/
theorem Finishes.exists_nested {program : Program} {limits : Limits} {input : List UInt8}
    {last : Machine} (finished : (Machine.start program limits input).Finishes .completed last) :
    ∃ stopped : Machine, last = stopped.conclude ∧ stopped.program = program ∧
      stopped.Nested program.size ∧ warnings stopped.notes = [] := by
  obtain ⟨stopped, ended, rfl⟩ := finishes_iff.mp finished
  obtain ⟨before, reached, exhausted⟩ := ends_iff.mp ended
  obtain ⟨past, rfl⟩ := step_exhausted exhausted
  have kept : (∃ offset, stopped.Nested offset) ∧ stopped.program = program ∧
      warnings stopped.notes = [] := by
    refine Reaches.keeps (fun machine => (∃ offset, machine.Nested offset) ∧
      machine.program = program ∧ warnings machine.notes = []) reached ?_ ?_
    · intro machine next ⟨⟨offset, nested⟩, same, quiet⟩ moved
      exact ⟨nested.step moved, (step_frame moved).1.trans same, (step_warnings moved).trans quiet⟩
    · exact ⟨⟨0, (nested_start program limits input).announce⟩, rfl, rfl⟩
  obtain ⟨⟨offset, nested⟩, same, quiet⟩ := kept
  subst same
  have whole : offset = stopped.program.size := by
    have place := nested.place
    have inside := nested.inside
    omega
  subst whole
  exact ⟨stopped, rfl, rfl, nested, quiet⟩

/-- The frames that are left are those of the unmatched opening brackets. -/
theorem Nested.reverse_frames {machine : Machine} (nested : machine.Nested machine.program.size) :
    machine.loops.frames.reverse = (Pairing.unmatchedOpens machine.program).map Frame.ofOrigin := by
  rw [nested.frames, Pairing.before_size, ← List.map_reverse, Pairing.reverse_opened]

theorem Nested.depth_eq {machine : Machine} (nested : machine.Nested machine.program.size) :
    machine.loops.depth = (Pairing.unmatchedOpens machine.program).length := by
  have frames := congrArg List.length nested.reverse_frames
  simpa [LoopStack.depth] using frames

/-- The innermost frame is that of the last unmatched opening bracket. -/
theorem Nested.pending_eq {machine : Machine} (nested : machine.Nested machine.program.size) :
    (machine.loops.peek?.map fun frame => Note.pending machine.loops.depth frame.origin).toList =
      pendingWarnings machine.program := by
  have top : machine.loops.peek? =
      (Pairing.unmatchedOpens machine.program).getLast?.map Frame.ofOrigin := by
    rw [LoopStack.peek?, ← List.getLast?_reverse, nested.reverse_frames, List.getLast?_map]
  rw [pendingWarnings, top, Option.map_map, nested.depth_eq]
  rfl

end Machine

/-- A run of a whole program that returns a summary is a completed run of a machine. -/
theorem exists_finishes_of_runProgram {fuel : Nat} {program : Program} {options : Options}
    {input : List UInt8} {sink : Sink} {outcome : RunOutcome} {summary : Summary}
    (answered : runProgram fuel program options input sink = some outcome)
    (returned : outcome.result = .ok summary) :
    ∃ limits last, (Machine.start program limits input).Finishes .completed last ∧
      outcome = .ofRun sink .completed last ∧ summary = RunOutcome.summary sink last := by
  unfold runProgram at answered
  split at answered
  · cases answered
    contradiction
  · rename_i limits checked
    obtain ⟨⟨ending, last⟩, ran, rfl⟩ := Option.map_eq_some_iff.mp answered
    cases ending with
    | completed =>
        cases returned
        exact ⟨limits, last, ⟨fuel, ran⟩, rfl, rfl⟩
    | failed failure => contradiction

/-- The unmatched brackets of the text are what a completed run leaves open and warns of. -/
theorem openLoops_eq_unmatchedOpens (program : Program) :
    (∀ limits input last, (Machine.start program limits input).Finishes .completed last →
      (∀ offset : Nat, program.commandAt? offset = some .loopClose →
        ∃ origin, (Pairing.ofProgram program).opener? offset = some origin) ∧
      last.loops.frames.reverse = (Pairing.unmatchedOpens program).map Frame.ofOrigin) ∧
    (∀ fuel options input sink outcome summary,
      runProgram fuel program options input sink = some outcome → outcome.result = .ok summary →
        summary.openLoops = (Pairing.unmatchedOpens program).length ∧
        warnings outcome.notes = pendingWarnings program) ∧
    (∀ offset : Nat, program.commandAt? offset = some .loopClose →
      (Pairing.ofProgram program).opener? offset = none →
        ∀ limits input last, ¬ (Machine.start program limits input).Finishes .completed last) ∧
    (∀ limits otherLimits input otherInput last otherLast,
      (Machine.start program limits input).Finishes .completed last →
      (Machine.start program otherLimits otherInput).Finishes .completed otherLast →
        last.loops.depth = otherLast.loops.depth) := by
  have whole (limits : Limits) (input : List UInt8) (last : Machine)
      (finished : (Machine.start program limits input).Finishes .completed last) :
      (∀ offset : Nat, program.commandAt? offset = some .loopClose →
        ∃ origin, (Pairing.ofProgram program).opener? offset = some origin) ∧
      last.loops.frames.reverse = (Pairing.unmatchedOpens program).map Frame.ofOrigin := by
    obtain ⟨stopped, rfl, rfl, nested, -⟩ := finished.exists_nested
    have matched := nested.matched
    rw [Pairing.before_size, Pairing.stray_eq_nil_iff] at matched
    refine ⟨matched, ?_⟩
    rw [show stopped.conclude = Ending.close .completed stopped from rfl, Machine.close_eq]
    exact nested.reverse_frames
  refine ⟨whole, ?_, ?_, ?_⟩
  · intro fuel options input sink outcome summary answered returned
    obtain ⟨limits, last, finished, rfl, rfl⟩ := exists_finishes_of_runProgram answered returned
    have frames := congrArg List.length (whole limits input last finished).2
    obtain ⟨stopped, rfl, rfl, nested, quiet⟩ := finished.exists_nested
    constructor
    · simpa [RunOutcome.summary, LoopStack.depth] using frames
    · rw [show (RunOutcome.ofRun sink .completed stopped.conclude).notes = stopped.conclude.notes
        from rfl, Machine.warnings_conclude, quiet, nested.pending_eq]
      rfl
  · intro offset found alone limits input last finished
    obtain ⟨origin, partner⟩ := (whole limits input last finished).1 offset found
    rw [alone] at partner
    contradiction
  · intro limits otherLimits input otherInput last otherLast finished otherFinished
    have frames := (whole limits input last finished).2
    have otherFrames := (whole otherLimits otherInput otherLast otherFinished).2
    have same := congrArg List.length (frames.trans otherFrames.symm)
    simpa [LoopStack.depth] using same

/-- Both loops of this text are entered and never closed. -/
theorem openLoops_unclosed_pair :
    ∃ last, (Machine.start #[43, 91, 62, 43, 91] ⟨2, 5, none, by decide, by decide⟩ []).Finishes
        .completed last ∧
      last.loops.frames.reverse = [Frame.ofOrigin 1, Frame.ofOrigin 4] := by
  have finished : ∃ last, (Machine.start #[43, 91, 62, 43, 91]
      ⟨2, 5, none, by decide, by decide⟩ []).Finishes .completed last := ⟨_, 6, rfl⟩
  obtain ⟨last, finished⟩ := finished
  exact ⟨last, finished, ((openLoops_eq_unmatchedOpens _).1 _ _ last finished).2⟩

end Brainfuck
