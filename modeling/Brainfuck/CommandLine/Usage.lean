/-
This file holds the fixed texts of the command line.
-/

namespace Brainfuck.CommandLine

def programName : String := "bfrun"

def lines (rows : List String) : String := String.join (rows.map (· ++ "\n"))

def usage : String := lines [
  "usage: bfrun [-h] [--tape-size TAPE_SIZE] [--max-depth MAX_DEPTH]",
  "             [--max-steps MAX_STEPS] [--dump] [-v]",
  "             [source]"]

def help : String := usage ++ lines [
  "",
  "Run a Brainfuck program.",
  "",
  "positional arguments:",
  "  source                Brainfuck source file",
  "",
  "options:",
  "  -h, --help            show this help message and exit",
  "  --tape-size TAPE_SIZE",
  "                        Number of cells (default 30000)",
  "  --max-depth MAX_DEPTH",
  "                        Loop nesting limit (default 1000)",
  "  --max-steps MAX_STEPS",
  "                        Abort after this many commands",
  "  --dump                Print the first 100 cells to stderr after the run",
  "  -v, --verbose         Enable debug logging"]

end Brainfuck.CommandLine
