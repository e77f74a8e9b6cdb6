/-
This file lets a tape be driven by requests.
-/

import Brainfuck.Tape.Dump

namespace Brainfuck.Tape

inductive Request where
  | advance
  | retreat
  | increment
  | decrement
  | reset
  | read
  | size
  | cursor
  | write (value : Int)
  | snapshot (count : Int)
  | dump (count width : Int)
  | times (count : Nat) (request : Request)

inductive Reply where
  | nothing
  | number (value : Nat)
  | values (cells : List UInt8)
  | text (chars : List Char)

inductive Refusal where
  | offEdge (edge : Edge) (cursor : Nat)
  | zeroWidth

def Refusal.message : Refusal → String
  | .offEdge edge _ => edge.text
  | .zeroWidth => "range() arg 3 must not be zero"

/-- The repetition stops at the first refusal. -/
def repeatedly (perform : Tape → Except Refusal Reply × Tape) :
    Nat → Tape → Except Refusal Reply × Tape
  | 0, tape => (.ok .nothing, tape)
  | count + 1, tape =>
      match perform tape with
      | (.ok _, next) => repeatedly perform count next
      | (.error refusal, next) => (.error refusal, next)

/-- A refused request leaves the tape as it was. -/
def perform : Request → Tape → Except Refusal Reply × Tape
  | .advance, tape =>
      match tape.advance? with
      | some next => (.ok .nothing, next)
      | none => (.error (.offEdge (.right (tape.size - 1)) tape.cursor), tape)
  | .retreat, tape =>
      match tape.retreat? with
      | some next => (.ok .nothing, next)
      | none => (.error (.offEdge .left tape.cursor), tape)
  | .increment, tape => (.ok .nothing, tape.increment)
  | .decrement, tape => (.ok .nothing, tape.decrement)
  | .reset, tape => (.ok .nothing, tape.reset)
  | .read, tape => (.ok (.number tape.read.toNat), tape)
  | .size, tape => (.ok (.number tape.size), tape)
  | .cursor, tape => (.ok (.number tape.cursor), tape)
  | .write value, tape => (.ok .nothing, tape.store value)
  | .snapshot count, tape => (.ok (.values (tape.snapshot count)), tape)
  | .dump count width, tape =>
      match tape.dump? count width with
      | some chars => (.ok (.text chars), tape)
      | none => (.error .zeroWidth, tape)
  | .times count request, tape => repeatedly (perform request) count tape

end Brainfuck.Tape
