/-
This file reads the arguments of the command line.
-/

import Brainfuck.Limits
import Brainfuck.Text.Numeral
import Brainfuck.Text.Quoted
import Brainfuck.Text.Rows

namespace Brainfuck.CommandLine

/-- A setting takes an integer. -/
inductive Setting where
  | tapeSize
  | maxDepth
  | maxSteps
  deriving DecidableEq

/-- A switch takes no value. -/
inductive Switch where
  | help
  | dump
  | verbose
  deriving DecidableEq

inductive OptionName where
  | setting (name : Setting)
  | switch (name : Switch)
  deriving DecidableEq

def Setting.label : Setting → String
  | .tapeSize => "--tape-size"
  | .maxDepth => "--max-depth"
  | .maxSteps => "--max-steps"

def Switch.label : Switch → String
  | .help => "-h/--help"
  | .dump => "--dump"
  | .verbose => "-v/--verbose"

def OptionName.label : OptionName → String
  | .setting name => name.label
  | .switch name => name.label

/-- The order of this table is the order in which candidates are listed. -/
def longNames : List (List Char × OptionName) := [
  ("--help".toList, .switch .help),
  ("--tape-size".toList, .setting .tapeSize),
  ("--max-depth".toList, .setting .maxDepth),
  ("--max-steps".toList, .setting .maxSteps),
  ("--dump".toList, .switch .dump),
  ("--verbose".toList, .switch .verbose)]

def Switch.ofLetter? (letter : Char) : Option Switch :=
  if letter = 'h' then some .help
  else if letter = 'v' then some .verbose
  else none

/-- These are the complaints about the arguments. -/
inductive Misuse where
  | ambiguous (argument : List Char) (candidates : List (List Char))
  | missingValue (setting : Setting)
  | invalidInteger (setting : Setting) (text : List Char)
  | ignoredValue (switch : Switch) (text : List Char)
  | unrecognized (arguments : List (List Char))
  | options (problem : OptionError)

def Misuse.message : Misuse → String
  | .ambiguous argument candidates =>
      "ambiguous option: " ++ String.ofList argument ++ " could match " ++
        String.ofList (List.intercalate [',', ' '] candidates)
  | .missingValue setting => "argument " ++ setting.label ++ ": expected one argument"
  | .invalidInteger setting text =>
      "argument " ++ setting.label ++ ": invalid int value: " ++ String.ofList (Quoted.write text)
  | .ignoredValue switch text =>
      "argument " ++ switch.label ++ ": ignored explicit argument " ++
        String.ofList (Quoted.write text)
  | .unrecognized arguments =>
      "unrecognized arguments: " ++ String.ofList (List.intercalate [' '] arguments)
  | .options problem => problem.message

/-- Each argument is classified before any of them takes effect. -/
inductive Token where
  | plain (text : List Char)
  | divider
  | unknown (text : List Char)
  | long (name : OptionName) (attached : Option (List Char))
  | short (switch : Switch) (attached : Option (List Char))

/-- The value begins after the first equals sign. -/
def attachment (argument : List Char) : List Char × Option (List Char) :=
  match argument.dropWhile (· != '=') with
  | [] => (argument, none)
  | _ :: value => (argument.takeWhile (· != '='), some value)

/-- One newline at the end does not count. -/
def isNegativeNumber (argument : List Char) : Bool :=
  match argument with
  | '-' :: rest =>
      let body := if rest.getLast? = some '\n' then rest.dropLast else rest
      match body.dropWhile Char.isDigit with
      | [] => !body.isEmpty
      | '.' :: fraction => !fraction.isEmpty && fraction.all Char.isDigit
      | _ => false
  | _ => false

/-- An argument that names no option is plain if it is a number or has a space. -/
def unnamed (argument : List Char) : Token :=
  if isNegativeNumber argument || argument.contains ' ' then .plain argument
  else .unknown argument

/-- The exact name wins over longer names that begin with it. -/
def classifyLong (argument : List Char) : Except Misuse Token :=
  let (name, attached) := attachment argument
  match longNames.lookup name with
  | some option => .ok (.long option attached)
  | none =>
      match longNames.filter fun entry => name.isPrefixOf entry.1 with
      | [] => .ok (unnamed argument)
      | [entry] => .ok (.long entry.2 attached)
      | entries => .error (.ambiguous argument (entries.map Prod.fst))

/-- An equals sign directly after the letter is no part of the attached text. -/
def classifyShort (letter : Char) (rest : List Char) : Token :=
  match Switch.ofLetter? letter with
  | none => unnamed ('-' :: letter :: rest)
  | some switch =>
      match rest with
      | [] => .short switch none
      | '=' :: value => .short switch (some value)
      | _ => .short switch (some rest)

/-- A lone dash is plain. -/
def classify : List Char → Except Misuse Token
  | ['-'] => .ok (.plain ['-'])
  | '-' :: '-' :: rest => classifyLong ('-' :: '-' :: rest)
  | '-' :: letter :: rest => .ok (classifyShort letter rest)
  | argument => .ok (.plain argument)

/-- Everything after the first divider is plain. -/
def tokens : List (List Char) → Except Misuse (List Token)
  | [] => .ok []
  | argument :: rest =>
      if argument = ['-', '-'] then .ok (.divider :: rest.map .plain)
      else do
        let token ← classify argument
        let others ← tokens rest
        return token :: others

/-- A divider attached to a setting is dropped, and the setting is left blank. -/
inductive Entry where
  | number (value : Int)
  | blank
  deriving DecidableEq

structure Arguments where
  source : Option (List Char) := none
  tapeSize : Entry := .number Tape.defaultSize
  maxDepth : Entry := .number LoopStack.defaultCapacity
  maxSteps : Option Entry := none
  dump : Bool := false
  verbose : Bool := false

/-- A blank setting can be compared with no limit. -/
inductive EntryError where
  | invalid (problem : OptionError)
  | blank

def Entry.check {Checked : Type} (test : Int → Except OptionError Checked) :
    Entry → Except EntryError Checked
  | .number value => (test value).mapError .invalid
  | .blank => .error .blank

def Arguments.checkSteps : Option Entry → Except EntryError (Option Nat)
  | none => .ok none
  | some entry => entry.check fun value => Options.checkSteps (some value)

/-- The settings are checked in the order in which options are. -/
def Arguments.check (arguments : Arguments) : Except EntryError Limits := do
  let stepLimit ← Arguments.checkSteps arguments.maxSteps
  let ⟨tapeSize, hasCell⟩ ← arguments.tapeSize.check Options.checkTape
  let ⟨loopDepth, hasFrame⟩ ← arguments.maxDepth.check Options.checkDepth
  return { tapeSize, loopDepth, stepLimit, hasCell, hasFrame }

/-- These options have been entered as numbers. -/
def Arguments.Enter (arguments : Arguments) (options : Options) : Prop :=
  arguments.tapeSize = .number options.tapeSize ∧ arguments.maxDepth = .number options.loopDepth ∧
    arguments.maxSteps = options.stepLimit.map .number

/-- Entered options are checked exactly as they are without a command line. -/
theorem Arguments.check_of_enter {arguments : Arguments} {options : Options}
    (entered : arguments.Enter options) :
    arguments.check = options.check.mapError .invalid := by
  obtain ⟨tapeSize, maxDepth, maxSteps⟩ := entered
  unfold Arguments.check Options.check
  rw [tapeSize, maxDepth, maxSteps]
  cases steps : options.stepLimit with
  | none =>
      simp only [Option.map_none, Arguments.checkSteps, Options.checkSteps, Entry.check]
      cases Options.checkTape options.tapeSize with
      | error problem => rfl
      | ok size => cases Options.checkDepth options.loopDepth <;> rfl
  | some value =>
      simp only [Option.map_some, Arguments.checkSteps, Entry.check]
      cases Options.checkSteps (some value) with
      | error problem => rfl
      | ok limit =>
          cases Options.checkTape options.tapeSize with
          | error problem => rfl
          | ok size => cases Options.checkDepth options.loopDepth <;> rfl

/-- The reading of the arguments ends early with help or with a complaint. -/
inductive Stop where
  | help
  | misuse (misuse : Misuse)

/-- The last entry of a setting counts. -/
def Arguments.enter (arguments : Arguments) (entry : Entry) : Setting → Arguments
  | .tapeSize => { arguments with tapeSize := entry }
  | .maxDepth => { arguments with maxDepth := entry }
  | .maxSteps => { arguments with maxSteps := some entry }

def Entry.read? (text : List Char) : Option Entry :=
  if text = ['-', '-'] then some .blank else (Numeral.integer? text).map .number

def Arguments.set (arguments : Arguments) (setting : Setting) (text : List Char) :
    Except Stop Arguments :=
  match Entry.read? text with
  | none => .error (.misuse (.invalidInteger setting text))
  | some entry => .ok (arguments.enter entry setting)

def Arguments.turn (arguments : Arguments) : Switch → Except Stop Arguments
  | .help => .error .help
  | .dump => .ok { arguments with dump := true }
  | .verbose => .ok { arguments with verbose := true }

/-- The letters after a short switch must all be short switches. -/
def cluster (switch : Switch) : List Char → Except Stop (List Switch)
  | [] => .ok [switch]
  | letter :: rest =>
      match Switch.ofLetter? letter with
      | some next => (cluster next rest).map (switch :: ·)
      | none => .error (.misuse (.ignoredValue switch (letter :: rest)))

/-- Nothing of a cluster takes effect unless all of it can be read. -/
def Arguments.turnShort (arguments : Arguments) (switch : Switch) :
    Option (List Char) → Except Stop Arguments
  | none => arguments.turn switch
  | some [] => .error (.misuse (.ignoredValue switch []))
  | some letters => do
      let switches ← cluster switch letters
      switches.foldlM Arguments.turn arguments

/-- The extra arguments are listed in their order, and the divider is one of them unless it
stands beside the source. -/
def consume (arguments : Arguments) (extras : List (List Char)) :
    List Token → Except Stop (Arguments × List (List Char))
  | [] => .ok (arguments, extras)
  | .unknown text :: rest => consume arguments (extras ++ [text]) rest
  | .long (.switch switch) none :: rest => do
      consume (← arguments.turn switch) extras rest
  | .long (.switch switch) (some text) :: _ => .error (.misuse (.ignoredValue switch text))
  | .long (.setting setting) (some text) :: rest => do
      consume (← arguments.set setting text) extras rest
  | .long (.setting setting) none :: .plain text :: rest => do
      consume (← arguments.set setting text) extras rest
  | .long (.setting setting) none :: _ => .error (.misuse (.missingValue setting))
  | .short switch attached :: rest => do
      consume (← arguments.turnShort switch attached) extras rest
  | .plain text :: .divider :: rest =>
      if arguments.source.isNone then consume { arguments with source := some text } extras rest
      else consume arguments (extras ++ [text, ['-', '-']]) rest
  | .plain text :: rest =>
      if arguments.source.isNone then consume { arguments with source := some text } extras rest
      else consume arguments (extras ++ [text]) rest
  | .divider :: rest =>
      if arguments.source.isNone then consume arguments extras rest
      else consume arguments (extras ++ [['-', '-']]) rest

def parse (argv : List (List Char)) : Except Stop Arguments :=
  match tokens argv with
  | .error misuse => .error (.misuse misuse)
  | .ok tokens => do
      let (arguments, extras) ← consume {} [] tokens
      if extras.isEmpty then return arguments else throw (.misuse (.unrecognized extras))

end Brainfuck.CommandLine
