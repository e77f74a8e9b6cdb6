/-
This file answers one call of the command line.
-/

import Brainfuck.CommandLine.Arguments
import Brainfuck.CommandLine.Usage
import Brainfuck.Folder
import Brainfuck.Machine.Run
import Brainfuck.Tape.Dump

namespace Brainfuck.CommandLine

/-- Nothing handles these two problems. -/
inductive Breakage where
  | nullByte
  | blankSetting

def Breakage.message : Breakage → String
  | .nullByte => FileError.nullByte.reason
  | .blankSetting => "'<' not supported between instances of 'list' and 'int'"

/-- A call returns, leaves at once, or is broken off. -/
inductive Conclusion where
  | returned (status : Nat)
  | left (status : Nat)
  | brokenOff (cause : Breakage)

structure Transcript where
  conclusion : Conclusion
  standardOutput : Array UInt8 := #[]
  errors : List Char := []

def Transcript.helped : Transcript where
  conclusion := .left 0
  standardOutput := (help.toList.map Latin1.byteOf).toArray

def Transcript.misused (misuse : Misuse) : Transcript where
  conclusion := .left 2
  errors := (usage ++ programName ++ ": error: " ++ misuse.message ++ "\n").toList

def Transcript.withoutSource : Transcript where
  conclusion := .returned 1
  errors := ("Not enough arguments: " ++ programName ++ "\n" ++ usage).toList

/-- A null character in the path is not handled as a missing file is. -/
def Transcript.unreadable : FileError → Transcript
  | .nullByte => { conclusion := .brokenOff .nullByte }
  | problem =>
      { conclusion := .returned 1
        errors := ("Error opening file: " ++ problem.reason ++ "\n").toList }

def Transcript.refused : EntryError → Transcript
  | .invalid problem => .misused (.options problem)
  | .blank => { conclusion := .brokenOff .blankSetting }

/-- A job is a call that names a file. -/
structure Job where
  arguments : Arguments
  path : List Char

def prepare (argv : List (List Char)) : Except Transcript Job :=
  match parse argv with
  | .error .help => .error .helped
  | .error (.misuse misuse) => .error (.misused misuse)
  | .ok arguments =>
      match arguments.source with
      | none => .error .withoutSource
      | some path => .ok ⟨arguments, path⟩

namespace Job

/-- The file is read before the options are checked. -/
def start (job : Job) (content : Except FileError Program) (input : List UInt8) :
    Except Transcript Machine :=
  match content with
  | .error problem => .error (.unreadable problem)
  | .ok program =>
      match job.arguments.check with
      | .error problem => .error (.refused problem)
      | .ok limits => .ok (Machine.start program limits input)

/-- Without the verbose switch only warnings are printed. -/
def printed (job : Job) (clock : String) (note : Note) : List Char :=
  if job.arguments.verbose ∨ note.level = .warning then
    (note.level.name ++ " " ++ programName ++ ".interpreter: " ++ note.text clock ++ "\n").toList
  else []

def complaint (program : Program) : Ending → List Char
  | .completed => []
  | .failed failure => (failure.message program).toList ++ ['\n']

def table (job : Job) (tape : Tape) : List Char :=
  if job.arguments.dump then tape.defaultDump.toList ++ ['\n'] else []

def status : Ending → Nat
  | .completed => 0
  | .failed _ => 2

/-- The notes come first, then the error of the program, and then the table of cells. -/
def finish (job : Job) (clock : String) (ending : Ending) (machine : Machine) : Transcript where
  conclusion := .returned (status ending)
  standardOutput := machine.output
  errors := machine.notes.toList.flatMap (job.printed clock) ++
    complaint machine.program ending ++ job.table machine.tape

end Job

/-- The answer is missing only if the program uses up the fuel. -/
def call (fuel : Nat) (clock : String) (folder : Folder) (input : List UInt8)
    (argv : List (List Char)) : Option Transcript :=
  match prepare argv with
  | .error transcript => some transcript
  | .ok job =>
      match job.start (folder.read job.path) input with
      | .error transcript => some transcript
      | .ok machine =>
          (machine.run fuel).map fun (ending, last) => job.finish clock ending last

end Brainfuck.CommandLine
