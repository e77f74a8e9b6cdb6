/-
This file prints the leftmost cells of a tape as a table.
-/

import Brainfuck.Tape
import Brainfuck.Text.Rows

namespace Brainfuck.Tape

def defaultCount : Int := 100

def defaultWidth : Int := 8

/-- A row shows the index of its first cell and then the cells. -/
def dumpRow (label : Nat) (values : List UInt8) : List Char :=
  Rows.column 5 label ++ ':' :: ' ' ::
    List.intercalate [' '] (values.map fun value => Rows.column 3 value.toNat)

/-- Every row but the last has as many cells as the width says. -/
def dumpRows (values : Array UInt8) (width : Nat) : List (List Char) :=
  (List.range ((values.size + width - 1) / width)).map fun row =>
    dumpRow (row * width) (values.extract (row * width) (row * width + width)).toList

/-- A table without a width cannot be printed, and one of negative width has no rows. -/
def dump? (tape : Tape) (count width : Int) : Option (List Char) :=
  if width = 0 then none
  else if width < 0 then some []
  else some (Rows.join (dumpRows (tape.cells.extract 0 (tape.shown count)) width.toNat))

/-- The width is positive here, so the table always exists. -/
def defaultDump (tape : Tape) : String :=
  String.ofList ((tape.dump? defaultCount defaultWidth).getD [])

end Brainfuck.Tape
