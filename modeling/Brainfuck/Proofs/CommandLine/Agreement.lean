/-
This file proves that a text, a file and a call of the command line run a program alike.
-/

import Brainfuck.CommandLine
import Brainfuck.Evaluation
import Brainfuck.Proofs.Brackets.PendingLoops
import Brainfuck.Proofs.Session.WellFormed

namespace Brainfuck

/-- The text is this program, and the request gives it this input and a stream for its output. -/
structure TextRequest.Asks (request : TextRequest) (program : Program) (options : Options)
    (input : List UInt8) : Prop where
  encoded : request.source.encode = .ok program
  limited : request.options = options
  fed : request.inputStream.getD request.input = input
  streamed : request.outputStream = true

/-- The file holds this program, and the request gives it this input and a stream for its output. -/
structure FileRequest.Asks (request : FileRequest) (folder : Folder) (standardInput : List UInt8)
    (program : Program) (options : Options) (input : List UInt8) : Prop where
  held : folder.read request.path = .ok program
  limited : request.options = options
  fed : request.inputStream.getD standardInput = input
  streamed : request.outputStream = true

/-- The arguments name a file that holds this program, and these options. -/
structure CommandLine.Arguments.Asks (arguments : Arguments) (argv : List (List Char))
    (folder : Folder) (program : Program) (options : Options) : Prop where
  parsed : parse argv = .ok arguments
  named : ∃ path, arguments.source = some path ∧ folder.read path = .ok program
  entered : arguments.Enter options

section

variable {program : Program} {options : Options} {input : List UInt8} {folder : Folder}

theorem TextRequest.Asks.runText_eq {request : TextRequest}
    (asked : request.Asks program options input) (fuel : Nat) :
    runText fuel request = runProgram fuel program options input .stream := by
  simp only [runText, asked.encoded, asked.limited, asked.fed, asked.streamed, if_true]

theorem FileRequest.Asks.runFile_eq {request : FileRequest} {standardInput : List UInt8}
    (asked : request.Asks folder standardInput program options input) (fuel : Nat) :
    runFile fuel folder standardInput request = runProgram fuel program options input .stream := by
  simp only [runFile, asked.held, asked.limited, asked.fed, asked.streamed, if_true]

namespace CommandLine

variable {arguments : Arguments} {argv : List (List Char)}

/-- Once the arguments are read, only the options can keep the program from running. -/
theorem Arguments.Asks.exists_call_eq (asked : arguments.Asks argv folder program options)
    (fuel : Nat) (clock : String) (input : List UInt8) :
    ∃ job : Job, job.arguments = arguments ∧
      call fuel clock folder input argv =
        match options.check with
        | .error problem => some (.misused (.options problem))
        | .ok limits =>
            ((Machine.start program limits input).run fuel).map fun result =>
              job.finish clock result.1 result.2 := by
  obtain ⟨path, source, held⟩ := asked.named
  refine ⟨⟨arguments, path⟩, rfl, ?_⟩
  have prepared : prepare argv = .ok ⟨arguments, path⟩ := by
    simp only [prepare, asked.parsed, source]
  simp only [call, prepared, Job.start, held, Arguments.check_of_enter asked.entered]
  cases options.check <;> rfl

/-- Without the verbose switch nothing but the warnings is printed. -/
theorem Job.flatMap_printed {job : Job} (quiet : job.arguments.verbose = false) (clock : String)
    (notes : Array Note) :
    notes.toList.flatMap (job.printed clock) = (warnings notes).flatMap (job.printed clock) := by
  rw [warnings]
  induction notes.toList with
  | nil => rfl
  | cons note rest ih =>
      by_cases warning : note.level = .warning
      · simp [warning, ih]
      · have silent : job.printed clock note = [] := by simp [Job.printed, quiet, warning]
        simp [warning, silent, ih]

/-- A line counts the loops that are open when a run completes, and names the innermost of them. -/
def pendingLine (loops : LoopStack) : Ending → List Char
  | .failed _ => []
  | .completed =>
      match loops.frames with
      | [] => []
      | innermost :: outer =>
          ("WARNING bfrun.interpreter: program ended with " ++ toString (outer.length + 1) ++
            " open loop(s); innermost '[' at offset " ++ toString innermost.origin ++ "\n").toList

/-- An error takes a line of its own. -/
def errorLine : Except RunError Summary → List Char
  | .ok _ => []
  | .error error => error.message.toList ++ ['\n']

/-- The warning is printed with and without the verbose switch. -/
theorem Job.printed_pending (job : Job) (clock : String) (count : Nat) (origin : Int) :
    job.printed clock (.pending count origin) =
      ("WARNING bfrun.interpreter: program ended with " ++ toString count ++
        " open loop(s); innermost '[' at offset " ++ toString origin ++ "\n").toList := by
  have printed : job.printed clock (.pending count origin) =
      ("WARNING bfrun.interpreter: " ++ ("program ended with " ++ toString count ++
        " open loop(s); innermost '[' at offset " ++ toString origin) ++ "\n").toList := by
    rw [Job.printed, if_pos (.inr rfl)]
    rfl
  have opening : "WARNING bfrun.interpreter: program ended with " =
      "WARNING bfrun.interpreter: " ++ "program ended with " := rfl
  rw [printed, opening]
  simp only [String.append_assoc]

theorem Job.printed_eq_pendingLine {job : Job} (quiet : job.arguments.verbose = false)
    (clock : String) {limits : Limits} {ending : Ending} {last : Machine}
    (finished : (Machine.start program limits input).Finishes ending last) :
    last.notes.toList.flatMap (job.printed clock) = pendingLine last.loops ending := by
  rw [Job.flatMap_printed quiet, finished.warnings_eq]
  cases ending with
  | failed failure => rfl
  | completed =>
      simp only [pendingLine, LoopStack.peek?, LoopStack.depth]
      cases last.loops.frames with
      | nil => rfl
      | cons innermost outer =>
          rw [List.head?_cons, Option.map_some, Option.toList_some, List.flatMap_singleton,
            Job.printed_pending, List.length_cons]

/-- The command line shows a user what the run of a text tells its caller. -/
structure Agrees (arguments : Arguments) (program : Program) (options : Options)
    (input : List UInt8) (outcome : RunOutcome) (transcript : Transcript) : Prop where
  written : transcript.standardOutput = outcome.stream
  returned : transcript.conclusion = .returned 0 ↔ ∃ summary, outcome.result = .ok summary
  failed : transcript.conclusion = .returned 2 ↔
    ∃ offset cause, outcome.result = .error (.failed program (.fault offset cause))
  refused : transcript.conclusion = .left 2 ↔
    ∃ problem, outcome.result = .error (.options problem)
  complained : ∀ problem, outcome.result = .error (.options problem) →
    transcript = .misused (.options problem)
  reported : ∀ limits, options.check = .ok limits → arguments.verbose = false →
    ∃ ending last, (Machine.start program limits input).Finishes ending last ∧
      outcome = .ofRun .stream ending last ∧
      transcript.errors = pendingLine last.loops ending ++ errorLine outcome.result ++
        if arguments.dump then last.tape.defaultDump.toList ++ ['\n'] else []

/-- A call with wrong options says so and runs nothing. -/
theorem Agrees.of_problem {problem : OptionError} (invalid : options.check = .error problem) :
    Agrees arguments program options input (.refused (.options problem))
      (.misused (.options problem)) where
  written := rfl
  returned := by simp [Transcript.misused, RunOutcome.refused]
  failed := by simp [Transcript.misused, RunOutcome.refused]
  refused := by simp [Transcript.misused, RunOutcome.refused]
  complained other same := by
    cases same
    rfl
  reported limits valid := by
    rw [invalid] at valid
    contradiction

theorem Agrees.of_finishes {job : Job} {limits : Limits} {ending : Ending} {last : Machine}
    (clock : String) (finished : (Machine.start program limits input).Finishes ending last)
    (valid : options.check = .ok limits) :
    Agrees job.arguments program options input (.ofRun .stream ending last)
      (job.finish clock ending last) where
  written := rfl
  returned := by cases ending <;> simp [Job.finish, Job.status, RunOutcome.ofRun]
  failed := by
    cases ending with
    | completed => simp [Job.finish, Job.status, RunOutcome.ofRun]
    | failed failure =>
        obtain ⟨text, offset, cause, rfl⟩ := finished.exists_fault
        simp [Job.finish, Job.status, RunOutcome.ofRun, text]
  refused := by cases ending <;> simp [Job.finish, RunOutcome.ofRun]
  complained problem same := by cases ending <;> cases same
  reported other same quiet := by
    cases valid.symm.trans same
    refine ⟨ending, last, finished, rfl, ?_⟩
    simp only [Job.finish, Job.printed_eq_pendingLine quiet clock finished]
    cases ending <;> rfl

/-- A text, a file that holds it and a call that names the file have the same run. -/
theorem front_ends_agree {text : TextRequest} {file : FileRequest} {standardInput : List UInt8}
    (given : text.Asks program options input)
    (stored : file.Asks folder standardInput program options input)
    (called : arguments.Asks argv folder program options) (fuel : Nat) (clock : String) :
    runFile fuel folder standardInput file = runText fuel text ∧
    Option.Rel (Agrees arguments program options input) (runText fuel text)
      (call fuel clock folder input argv) := by
  rw [stored.runFile_eq, given.runText_eq]
  refine ⟨rfl, ?_⟩
  obtain ⟨job, rfl, answer⟩ := called.exists_call_eq fuel clock input
  rw [answer, runProgram]
  cases valid : options.check with
  | error problem => exact .some (.of_problem valid)
  | ok limits =>
      dsimp only
      cases ran : (Machine.start program limits input).run fuel with
      | none => exact .none
      | some result => exact .some (Agrees.of_finishes clock ⟨fuel, ran⟩ valid)

/-- A program that leaves a loop open returns with a warning, however it is run. -/
theorem front_ends_agree_open_loop :
    ∃ outcome transcript,
      runText 3 ⟨.bytes #[43, 91], [], none, true, { tapeSize := 2 }⟩ = some outcome ∧
      runFile 3 ⟨[(['p'], #[43, 91])]⟩ [] ⟨['p'], none, true, { tapeSize := 2 }⟩ = some outcome ∧
      call 3 "0" ⟨[(['p'], #[43, 91])]⟩ [] ["p".toList, "--tape-size=2".toList] =
        some transcript ∧
      (∃ summary, outcome.result = .ok summary) ∧ transcript.conclusion = .returned 0 ∧
      transcript.errors = ("WARNING bfrun.interpreter: program ended with " ++ "1" ++
        " open loop(s); innermost '[' at offset " ++ "1" ++ "\n").toList := by
  have given : TextRequest.Asks ⟨.bytes #[43, 91], [], none, true, { tapeSize := 2 }⟩
      #[43, 91] { tapeSize := 2 } [] := ⟨rfl, rfl, rfl, rfl⟩
  have stored : FileRequest.Asks ⟨['p'], none, true, { tapeSize := 2 }⟩
      ⟨[(['p'], #[43, 91])]⟩ [] #[43, 91] { tapeSize := 2 } [] := ⟨rfl, rfl, rfl, rfl⟩
  have called : Arguments.Asks { source := some ['p'], tapeSize := .number 2 }
      ["p".toList, "--tape-size=2".toList] ⟨[(['p'], #[43, 91])]⟩ #[43, 91] { tapeSize := 2 } :=
    ⟨rfl, ⟨_, rfl, rfl⟩, rfl, rfl, rfl⟩
  obtain ⟨same, agreed⟩ := front_ends_agree given stored called 3 "0"
  obtain ⟨outcome, ran, completed⟩ : ∃ outcome,
      runText 3 ⟨.bytes #[43, 91], [], none, true, { tapeSize := 2 }⟩ = some outcome ∧
      ∃ summary, outcome.result = .ok summary := ⟨_, rfl, _, rfl⟩
  rw [ran] at same agreed
  generalize call 3 "0" _ _ _ = reply at agreed ⊢
  cases agreed with
  | some agrees =>
      refine ⟨outcome, _, ran, same, rfl, completed, agrees.returned.mpr completed, ?_⟩
      obtain ⟨ending, last, finished, rfl, errors⟩ := agrees.reported
        ⟨2, LoopStack.defaultCapacity, none, by decide, by decide⟩ rfl rfl
      obtain ⟨final, ended, frames⟩ : ∃ final, (Machine.start #[43, 91]
          ⟨2, LoopStack.defaultCapacity, none, by decide, by decide⟩ []).Finishes .completed final ∧
          final.loops.frames = [Frame.ofOrigin 1] := ⟨_, ⟨3, rfl⟩, rfl⟩
      obtain ⟨rfl, rfl⟩ := finished.unique ended
      rw [errors, if_neg Bool.false_ne_true, List.append_nil, pendingLine, frames]
      exact List.append_nil _

end CommandLine

end

end Brainfuck
