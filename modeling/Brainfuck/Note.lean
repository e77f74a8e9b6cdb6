/-
This file defines what a machine notes down while it runs.
-/

namespace Brainfuck

inductive NoteLevel where
  | debug
  | warning
  deriving DecidableEq

def NoteLevel.name : NoteLevel → String
  | .debug => "DEBUG"
  | .warning => "WARNING"

inductive Note where
  | started (bytes cells : Nat)
  | skipped (origin resume : Int)
  | pending (count : Nat) (origin : Int)
  | finished (steps written : Nat)
  deriving DecidableEq

namespace Note

/-- Only loops that are still open at the end deserve a warning. -/
def level : Note → NoteLevel
  | pending _ _ => .warning
  | _ => .debug

/-- The clock shows how many milliseconds the run took. -/
def text (clock : String) : Note → String
  | started bytes cells =>
      "running " ++ toString bytes ++ " byte program on " ++ toString cells ++ " cells"
  | skipped origin resume =>
      "skipped loop at " ++ toString origin ++ ", resuming at " ++ toString resume
  | pending count origin =>
      "program ended with " ++ toString count ++ " open loop(s); innermost '[' at offset " ++
        toString origin
  | finished steps written =>
      "finished: " ++ toString steps ++ " steps, " ++ toString written ++ " bytes written, " ++
        clock ++ " ms"

end Note

end Brainfuck
