/-
This file shows the lines of a text around one marked place.
-/

import Brainfuck.Index
import Brainfuck.Text.Rows

namespace Brainfuck.Excerpt

/-- So many lines are shown before and after the marked line of a report. -/
def defaultMargin : Int := 2

/-- The nearest existing line takes the mark. -/
def markedLine (count : Nat) (line : Int) : Int := max 1 (min line count)

def lineRow (marked : Bool) (number : Nat) (text : List Char) : List Char :=
  (if marked then '>' else ' ') :: ' ' :: Rows.column 4 number ++ ' ' :: '|' :: ' ' :: text

/-- The caret stands below the marked column of the row above it. -/
def caretRow (column : Int) : List Char :=
  List.replicate 7 ' ' ++ '|' :: ' ' :: (List.replicate (column - 1).toNat ' ' ++ ['^'])

/-- The marked line gives two rows, another line within the margin one, and all others none. -/
def rowsFor (marked column margin : Int) (number : Nat) (text : List Char) : List (List Char) :=
  if marked - margin ≤ number ∧ number ≤ marked + margin then
    if number = marked then [lineRow true number text, caretRow column]
    else [lineRow false number text]
  else []

def rows (lines : List (List Char)) (line column margin : Int) : List (List Char) :=
  (lines.zipIdx 1).flatMap fun (text, number) =>
    rowsFor (markedLine lines.length line) column margin number text

def render (lines : List (List Char)) (line column margin : Int) : List Char :=
  Rows.join (rows lines line column margin)

/-- The caret cannot be placed if the number of blanks before it is no index. -/
def checked (lines : List (List Char)) (line column margin : Int) :
    Except Index.Overflow (List Char) :=
  if lines.isEmpty ∨ margin < 0 ∨ Index.fits (column - 1) then
    .ok (render lines line column margin)
  else .error ⟨column - 1⟩

end Brainfuck.Excerpt
