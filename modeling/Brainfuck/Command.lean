/-
This file defines the eight commands and their bytes.
-/

namespace Brainfuck

inductive Command where
  | right
  | left
  | increment
  | decrement
  | output
  | input
  | loopOpen
  | loopClose
  deriving DecidableEq

namespace Command

def all : List Command :=
  [right, left, increment, decrement, output, input, loopOpen, loopClose]

def byte : Command → UInt8
  | right => 62
  | left => 60
  | increment => 43
  | decrement => 45
  | output => 46
  | input => 44
  | loopOpen => 91
  | loopClose => 93

/-- Every other byte is a comment. -/
def ofByte? (byte : UInt8) : Option Command :=
  if byte = 62 then some right
  else if byte = 60 then some left
  else if byte = 43 then some increment
  else if byte = 45 then some decrement
  else if byte = 46 then some output
  else if byte = 44 then some input
  else if byte = 91 then some loopOpen
  else if byte = 93 then some loopClose
  else none

/-- A number outside the byte range is no command. -/
def ofCode? (code : Int) : Option Command :=
  if 0 ≤ code ∧ code < 256 then ofByte? (UInt8.ofNat code.toNat) else none

@[simp] theorem ofByte?_byte (command : Command) : ofByte? command.byte = some command := by
  cases command <;> decide

theorem ofByte?_eq_some {byte : UInt8} {command : Command} :
    ofByte? byte = some command ↔ byte = command.byte := by
  constructor
  · intro found
    unfold ofByte? at found
    grind [Command.byte]
  · rintro rfl
    exact ofByte?_byte command

theorem byte_injective {first second : Command} (same : first.byte = second.byte) :
    first = second := by
  have decoded := congrArg ofByte? same
  simpa using decoded

theorem mem_all (command : Command) : command ∈ all := by
  cases command <;> decide

end Command

end Brainfuck
