import Brainfuck.Code.Evaluates
import Brainfuck.Evaluation
import Brainfuck.JumpMachine
import Brainfuck.Main
import Brainfuck.Proofs.Brackets.JumpTable
import Brainfuck.Proofs.Brackets.Nesting
import Brainfuck.Proofs.Brackets.Pairing
import Brainfuck.Proofs.Brackets.PendingLoops
import Brainfuck.Proofs.Code.Layout
import Brainfuck.Proofs.Code.Position
import Brainfuck.Proofs.Code.Simulation
import Brainfuck.Proofs.Code.Spelling
import Brainfuck.Proofs.Run.Reach
import Brainfuck.Proofs.Run.Step
import Brainfuck.Proofs.Run.StepLimit
import Brainfuck.Session
import Brainfuck.Proofs.Session.History
import Brainfuck.Proofs.Run.Input
import Brainfuck.Proofs.Session.Restart
import Brainfuck.Proofs.Session.WellFormed
import Brainfuck.Proofs.Code.Alignment
import Brainfuck.Proofs.Code.Comments
import Brainfuck.Proofs.Run.Room
import Brainfuck.Proofs.Code.Appended
import Brainfuck.Proofs.Run.Refusal
import Brainfuck.Proofs.CommandLine.Agreement
import Brainfuck.Proofs.Brackets.Balance
import Brainfuck.Proofs.Session.Termination
import Brainfuck.Proofs.Code.CountedLoop
import Brainfuck.Proofs.Code.Exchange
import Brainfuck.Proofs.Code.StraightLine
import Brainfuck.Proofs.Report.Context
import Brainfuck.Proofs.Report.Caret
import Brainfuck.Proofs.Tape.Dump
