/-
This file runs a whole program from a text or from a file.
-/

import Brainfuck.Folder
import Brainfuck.Machine.Run

namespace Brainfuck

/-- A text must be encoded before it can run. -/
inductive Source where
  | text (chars : List Char)
  | bytes (program : Program)

def Source.encode : Source → Except Latin1.Unencodable Program
  | .text chars => (Latin1.encode chars).map List.toArray
  | .bytes program => .ok program

/-- The output of a program goes to exactly one of these places. -/
inductive Sink where
  | captured
  | stream
  | standard
  deriving DecidableEq

structure Summary where
  output : Array UInt8
  steps : Nat
  cursor : Nat
  openLoops : Nat
  cells : Array UInt8

inductive RunError where
  | source (run : Latin1.Unencodable)
  | file (path : List Char) (problem : FileError)
  | options (problem : OptionError)
  | failed (program : Program) (failure : Failure)

def RunError.message : RunError → String
  | .source run => run.message
  | .file path problem => problem.message path
  | .options problem => problem.message
  | .failed program failure => failure.message program

/-- The bytes written to a stream remain after an error, and captured ones are lost. -/
structure RunOutcome where
  result : Except RunError Summary
  stream : Array UInt8
  standard : Array UInt8
  notes : Array Note

namespace RunOutcome

/-- Nothing was written or noted before this error. -/
def refused (error : RunError) : RunOutcome := ⟨.error error, #[], #[], #[]⟩

def summary (sink : Sink) (machine : Machine) : Summary where
  output := if sink = .captured then machine.output else #[]
  steps := machine.steps
  cursor := machine.tape.cursor
  openLoops := machine.loops.depth
  cells := machine.tape.cells

def ofRun (sink : Sink) (ending : Ending) (machine : Machine) : RunOutcome where
  result :=
    match ending with
    | .completed => .ok (summary sink machine)
    | .failed failure => .error (.failed machine.program failure)
  stream := if sink = .stream then machine.output else #[]
  standard := if sink = .standard then machine.output else #[]
  notes := machine.notes

end RunOutcome

/-- The options are checked before anything runs. -/
def runProgram (fuel : Nat) (program : Program) (options : Options) (input : List UInt8)
    (sink : Sink) : Option RunOutcome :=
  match options.check with
  | .error problem => some (.refused (.options problem))
  | .ok limits =>
      ((Machine.start program limits input).run fuel).map fun (ending, last) =>
        .ofRun sink ending last

structure TextRequest where
  source : Source
  input : List UInt8 := []
  inputStream : Option (List UInt8) := none
  outputStream : Bool := false
  options : Options := {}

/-- An input stream takes the place of the input data, even if it is empty. -/
def runText (fuel : Nat) (request : TextRequest) : Option RunOutcome :=
  match request.source.encode with
  | .error run => some (.refused (.source run))
  | .ok program =>
      runProgram fuel program request.options (request.inputStream.getD request.input)
        (if request.outputStream then .stream else .captured)

structure FileRequest where
  path : List Char
  inputStream : Option (List UInt8) := none
  outputStream : Bool := false
  options : Options := {}

/-- The file is read before the options are checked. -/
def runFile (fuel : Nat) (folder : Folder) (standardInput : List UInt8) (request : FileRequest) :
    Option RunOutcome :=
  match folder.read request.path with
  | .error problem => some (.refused (.file request.path problem))
  | .ok program =>
      runProgram fuel program request.options (request.inputStream.getD standardInput)
        (if request.outputStream then .stream else .standard)

end Brainfuck
