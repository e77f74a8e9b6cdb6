/-
This file pairs the brackets of a text by one pass from left to right.
-/

import Brainfuck.Program

namespace Brainfuck

namespace Brackets

def isBracket (command : Command) : Bool :=
  command = .loopOpen || command = .loopClose

/-- All bytes but the brackets are left out. -/
def ofBytes (bytes : List UInt8) : List Command :=
  (bytes.filterMap Command.ofByte?).filter isBracket

/-- A balanced text is empty, or it begins with a loop whose body is balanced. -/
inductive Balanced : List Command → Prop where
  | empty : Balanced []
  | wrap {inner rest : List Command} :
      Balanced inner → Balanced rest → Balanced (.loopOpen :: inner ++ .loopClose :: rest)

theorem Balanced.append {first second : List Command} (left : Balanced first)
    (right : Balanced second) : Balanced (first ++ second) := by
  induction left with
  | empty => exact right
  | @wrap inner rest body _ _ ih =>
      have grown := Balanced.wrap body ih
      simpa using grown

end Brackets

/-- A pass over a text has found these pairs, and these brackets without a partner. -/
structure Pairing where
  pairs : List (Nat × Nat)
  opened : List Nat
  stray : List Nat

namespace Pairing

def empty : Pairing := ⟨[], [], []⟩

/-- A closing bracket takes the opening bracket that was read last. -/
def read (pairing : Pairing) (offset : Nat) (byte : UInt8) : Pairing :=
  match Command.ofByte? byte with
  | some .loopOpen => { pairing with opened := offset :: pairing.opened }
  | some .loopClose =>
      match pairing.opened with
      | [] => { pairing with stray := offset :: pairing.stray }
      | origin :: rest =>
          { pairing with pairs := (origin, offset) :: pairing.pairs, opened := rest }
  | _ => pairing

def ofBytes (bytes : List UInt8) : Pairing :=
  bytes.zipIdx.foldl (fun pairing (byte, offset) => pairing.read offset byte) empty

def ofProgram (program : Program) : Pairing := ofBytes program.toList

/-- This many brackets are open just before the offset. -/
def depthAt (program : Program) (offset : Nat) : Nat :=
  (ofBytes (program.toList.take offset)).opened.length

def closer? (pairing : Pairing) (origin : Nat) : Option Nat :=
  (pairing.pairs.find? fun pair => pair.1 = origin).map Prod.snd

def opener? (pairing : Pairing) (offset : Nat) : Option Nat :=
  (pairing.pairs.find? fun pair => pair.2 = offset).map Prod.fst

theorem ofBytes_append_singleton (bytes : List UInt8) (byte : UInt8) :
    ofBytes (bytes ++ [byte]) = (ofBytes bytes).read bytes.length byte := by
  simp [ofBytes, List.zipIdx_append]

end Pairing

end Brainfuck
