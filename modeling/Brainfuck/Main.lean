/-
This file is the executable.
-/

import Brainfuck.CommandLine

namespace Brainfuck.Executable

open CommandLine

/-- The system may give its error number with a minus sign. -/
def errorNumber (code : UInt32) : Nat := code.toInt32.toInt.natAbs

def fileError (problem : IO.Error) : FileError :=
  match problem with
  | .noFileOrDirectory .. => .missing
  | .inappropriateType _ code _ =>
      if errorNumber code = 20 then .notDirectory else .isDirectory
  | .invalidArgument _ code details =>
      if errorNumber code = 36 then .tooLong else .other details
  | .permissionDenied .. => .other "Permission denied"
  | other => .other (toString other)

def readProgram (path : List Char) : IO (Except FileError Program) := do
  if path.contains '\x00' then return .error .nullByte
  try
    let content ← IO.FS.readBinFile (String.ofList (Folder.normalise path))
    return .ok content.data
  catch problem => return .error (fileError problem)

def writeBytes (bytes : Array UInt8) : IO Unit := do
  if !bytes.isEmpty then
    let output ← IO.getStdout
    output.write ⟨bytes⟩
    output.flush

/-- The input is read only when the program asks for it. -/
def supply (machine : Machine) : IO Machine := do
  if machine.awaitsInput then
    let bytes ← (← IO.getStdin).read 1
    return { machine with input := bytes.data.toList }
  else return machine

/-- The output and the notes are passed on at once. -/
def release (job : Job) (machine : Machine) : IO Machine := do
  writeBytes machine.output
  for note in machine.notes do
    IO.eprint (String.ofList (job.printed "" note))
  return { machine with output := #[], notes := #[] }

partial def drive (job : Job) (machine : Machine) : IO (Ending × Machine) := do
  match (← supply machine).step with
  | (.moved, next) => drive job (← release job next)
  | (.exhausted, next) => return (.completed, next.conclude)
  | (.failed failure, next) => return (.failed failure, next)

/-- The clock shows hundredths of a millisecond. -/
def clock (nanoseconds : Nat) : String :=
  let hundredths := (nanoseconds + 5000) / 10000
  toString (hundredths / 100) ++ "." ++
    String.ofList (List.leftpad 2 '0' (Rows.decimal (hundredths % 100)))

def report (transcript : Transcript) : IO UInt32 := do
  writeBytes transcript.standardOutput
  IO.eprint (String.ofList transcript.errors)
  match transcript.conclusion with
  | .returned status => return status.toUInt32
  | .left status => return status.toUInt32
  | .brokenOff cause => throw (IO.userError cause.message)

def serve (argv : List String) : IO UInt32 := do
  match prepare (argv.map String.toList) with
  | .error transcript => report transcript
  | .ok job =>
      match job.start (← readProgram job.path) [] with
      | .error transcript => report transcript
      | .ok machine =>
          let machine ← release job machine.announce
          let began ← IO.monoNanosNow
          let (ending, last) ← drive job machine
          let ended ← IO.monoNanosNow
          report (job.finish (clock (ended - began)) ending last)

end Brainfuck.Executable

def main (argv : List String) : IO UInt32 := Brainfuck.Executable.serve argv
