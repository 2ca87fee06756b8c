import Conditionals.CommandLine.Error
import Conditionals.Cursor.Basic
import Conditionals.Text.Decimal

/-!
# Invocations

An invocation is a command line that has been understood. Options may stand anywhere between the
words of the command. Arguments are read from left to right and the first mistake is reported, with
one exception: a request for help ends the reading, and what follows it is not looked at.
-/

namespace Conditionals.CommandLine

inductive Task where
  | fold
  | path (line : Nat)
  | enclosing (line : Nat)
  | replay (cursors : List Cursor)
  deriving DecidableEq, Repr

inductive Command where
  | help
  | examine (file : Text) (task : Task)
  deriving DecidableEq, Repr

structure Invocation where
  command : Command
  json : Bool
  chosen : Categories
  deriving DecidableEq, Repr

inductive Argument where
  | json
  | debug (list : Text)
  | help
  | unknown
  | word
  deriving DecidableEq, Repr

/-- Tells options from words. An argument that starts with `-` is an option, unless it is just
`-`. -/
def Argument.of (argument : Text) : Argument :=
  if argument = ['-', '-', 'j', 's', 'o', 'n'] then .json
  else
    match Text.after? ['-', '-', 'd', 'e', 'b', 'u', 'g', '='] argument with
    | some list => .debug list
    | none =>
      if argument = ['-', 'h'] ∨ argument = ['-', '-', 'h', 'e', 'l', 'p'] then .help
      else if argument.head? = some '-' ∧ 1 < argument.length then .unknown
      else .word

structure Options where
  json : Bool := false
  debug : Option Categories := none
  words : List Text := []
  deriving DecidableEq, Repr

def helpWord : Text := ['h', 'e', 'l', 'p']

def Options.read (seen : Options) : List Text → Except Error Options
  | [] => .ok seen
  | argument :: rest =>
    match Argument.of argument with
    | .json => Options.read { seen with json := true } rest
    | .debug list =>
      match Categories.parse list with
      | .ok chosen => Options.read { seen with debug := some chosen } rest
      | .error unknown => .error (.unknownCategory unknown)
    | .help => .ok { seen with words := [helpWord] }
    | .unknown => .error (.unknownOption argument)
    | .word => Options.read { seen with words := seen.words ++ [argument] } rest

/-- The categories to log: those of the option, else those of the environment, else the standard
ones. -/
def Options.chosen (options : Options) (environment : Option Text) : Except Error Categories :=
  match options.debug, environment with
  | some chosen, _ => .ok chosen
  | none, some list => (Categories.parse list).mapError .unknownCategory
  | none, none => .ok .standard

def readLine (value : Text) : Except Error Nat :=
  match Text.readDecimal? value with
  | some line => .ok line
  | none => .error (.invalidLine value)

def readCursor (value : Text) : Except Error Cursor :=
  match value.dropWhile (· ≠ ':') with
  | [] => do
    let line ← readLine value
    return { line }
  | _ :: rest => do
    let line ← readLine (value.takeWhile (· ≠ ':'))
    let column ← readLine rest
    return { line, column }

inductive Verb where
  | fold
  | path
  | enclosing
  | replay
  deriving DecidableEq, Repr

namespace Verb

def all : List Verb :=
  [.fold, .path, .enclosing, .replay]

def name : Verb → Text
  | .fold => ['f', 'o', 'l', 'd']
  | .path => ['p', 'a', 't', 'h']
  | .enclosing => ['s', 'e', 'c', 't', 'i', 'o', 'n']
  | .replay => ['r', 'e', 'p', 'l', 'a', 'y']

def ofName? (name : Text) : Option Verb :=
  all.find? fun verb => verb.name = name

/-- Reads the task that follows a file name. `none` means that the number of arguments is wrong. -/
def readTask? (verb : Verb) (arguments : List Text) : Option (Except Error Task) :=
  match verb, arguments with
  | .fold, [] => some (.ok .fold)
  | .path, [line] => some ((readLine line).map .path)
  | .enclosing, [line] => some ((readLine line).map .enclosing)
  | .replay, first :: others => some (((first :: others).mapM readCursor).map .replay)
  | _, _ => none

def readCommand (verb : Verb) (arguments : List Text) : Except Error Command :=
  match arguments with
  | [] => .error (.wrongArguments verb.name)
  | file :: rest =>
    match verb.readTask? rest with
    | some task => task.map (.examine file)
    | none => .error (.wrongArguments verb.name)

end Verb

/-- Reads a command from its words. No words at all ask for help. -/
def Command.ofWords : List Text → Except Error Command
  | [] => .ok .help
  | name :: arguments =>
    if name = helpWord ∧ arguments = [] then .ok .help
    else
      match Verb.ofName? name with
      | some verb => verb.readCommand arguments
      | none => .error (.unknownCommand name)

/-- Reads a command line, given the list of categories in the environment. Without a list among the
options that of the environment has to be right, whatever the command is. -/
def Invocation.read (arguments : List Text) (environment : Option Text) :
    Except Error Invocation := do
  let options ← Options.read {} arguments
  let chosen ← options.chosen environment
  let command ← Command.ofWords options.words
  return { command, json := options.json, chosen }

end Conditionals.CommandLine
