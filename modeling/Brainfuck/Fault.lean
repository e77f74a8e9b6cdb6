/-
This file names the ways in which a program can fail.
-/

import Brainfuck.Tape
import Brainfuck.Text.Phrase

namespace Brainfuck

/-- The kind of a fault selects its title and its advice. -/
inductive FaultKind where
  | runtime
  | bracket
  | depth
  | bounds
  | steps
  deriving DecidableEq

namespace FaultKind

def all : List FaultKind := [runtime, bracket, depth, bounds, steps]

def name : FaultKind → String
  | runtime => "runtime"
  | bracket => "bracket"
  | depth => "depth"
  | bounds => "bounds"
  | steps => "steps"

/-- The title opens the message of a report. -/
def title : FaultKind → String
  | runtime => "BFRuntimeError"
  | bracket => "UnmatchedBracketError"
  | depth => "LoopDepthError"
  | bounds => "TapeBoundsError"
  | steps => "StepLimitExceeded"

def ofName? (name : String) : Option FaultKind := all.find? fun kind => kind.name = name

def ofTitle? (title : String) : Option FaultKind := all.find? fun kind => kind.title = title

/-- The advice depends on the kind and on a phrase of the text. -/
def hint (kind : FaultKind) (text : String) : Option String :=
  match kind with
  | runtime => none
  | bracket =>
      if Phrase.mentions text "unmatched ']'" then
        some "Every ']' needs an earlier '[' that is still open. Check for an extra ']'."
      else if Phrase.mentions text "unmatched '['" then
        some "The skipped loop has no closing ']'. Check for a missing ']'."
      else none
  | depth => some "Raise the nesting limit (--max-depth) or flatten the nested loops."
  | bounds =>
      if Phrase.mentions text "left of" then
        some "Cell 0 is the leftmost cell; check for an extra '<'."
      else some "Raise the tape size (--tape-size) or check for a runaway '>' loop."
  | steps => some "The program may be stuck in an infinite loop; raise --max-steps if not."

end FaultKind

/-- These are the reasons for which a command fails. -/
inductive Fault where
  | offTape (edge : Tape.Edge)
  | unmatchedOpen
  | unmatchedClose
  | tooDeep (limit : Nat)
  | stepLimit (limit : Int)
  deriving DecidableEq

namespace Fault

def kind : Fault → FaultKind
  | offTape _ => .bounds
  | unmatchedOpen => .bracket
  | unmatchedClose => .bracket
  | tooDeep _ => .depth
  | stepLimit _ => .steps

def text : Fault → String
  | offTape edge => edge.text
  | unmatchedOpen => "unmatched '[': no closing ']' before end of program"
  | unmatchedClose => "unmatched ']': no open loop"
  | tooDeep limit => "loop nesting exceeds the limit of " ++ toString limit
  | stepLimit limit => "step limit of " ++ toString limit ++ " commands exceeded"

end Fault

end Brainfuck
