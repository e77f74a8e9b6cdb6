/-
This file reports a fault together with its place in the program.
-/

import Brainfuck.Excerpt
import Brainfuck.Fault
import Brainfuck.Position
import Brainfuck.Text.Latin1

namespace Brainfuck

structure Report where
  kind : FaultKind
  message : String
  offset : Int
  position : Position
  context : List Char

namespace Report

/-- Every byte of the source takes one column. -/
def sourceLines (source : Array UInt8) : List (List Char) :=
  Rows.split (Latin1.decode source.toList)

def contextAt (source : Array UInt8) (position : Position) : List Char :=
  Excerpt.render (sourceLines source) position.line position.column Excerpt.defaultMargin

def headline (kind : FaultKind) (text : String) (position : Position) : String :=
  kind.title ++ ": " ++ text ++ " (line " ++ toString position.line ++ ", column " ++
    toString position.column ++ ")"

def advice : Option String → String
  | none => ""
  | some hint => "\nHint: " ++ hint

/-- The report keeps the offset as it was given. -/
def make (kind : FaultKind) (text : String) (source : Array UInt8) (offset : Int) : Report :=
  let position := Position.locate source offset
  let context := contextAt source position
  { kind
    message := headline kind text position ++ "\n" ++ String.ofList context ++
      advice (kind.hint text)
    offset
    position
    context }

def ofFault (fault : Fault) (source : Array UInt8) (offset : Int) : Report :=
  make fault.kind fault.text source offset

end Report

end Brainfuck
