import Declgen.Files.Path
import Declgen.Manifest.Check

/-!
# Command-line arguments

The arguments name a command and give it options. They are read from the left: whoever asks for
help or the version gets it unless something was wrong before.
-/

namespace Declgen.CommandLine

open Files

/-- A shell that can complete commands. -/
inductive Shell where
  | bash
  | elvish
  | fish
  | powershell
  | zsh
deriving DecidableEq

/-- The shell with a name. -/
def Shell.ofName? : String → Option Shell
  | "bash" => some .bash
  | "elvish" => some .elvish
  | "fish" => some .fish
  | "powershell" => some .powershell
  | "zsh" => some .zsh
  | _ => none

/-- What a command is about. -/
inductive Verb where
  | generate
  | check
  | clean
  | completions
deriving DecidableEq

/-- The verb with a name. -/
def Verb.ofName? : String → Option Verb
  | "generate" => some .generate
  | "check" => some .check
  | "clean" => some .clean
  | "completions" => some .completions
  | _ => none

/-- A command with its options. -/
inductive Command where
  /-- Generates the declarations of a project. -/
  | generate (config : Path) (output : Option Path) (dry : Bool)
  /-- Checks a project. -/
  | check (config : Path)
  /-- Cleans the output folder of a project. -/
  | clean (config : Path) (output : Option Path) (dry : Bool)
  /-- Writes completions for a shell. -/
  | completions (shell : Shell)
deriving DecidableEq

/-- A page of help. -/
inductive Topic where
  /-- All commands. -/
  | all
  /-- One command. -/
  | verb (verb : Verb)
  /-- The help itself. -/
  | help
deriving DecidableEq

/-- What the user asks for. -/
inductive Request where
  /-- To run a command. -/
  | run (command : Command)
  /-- To show a page of help. -/
  | help (topic : Topic)
  /-- To show the version. -/
  | version
deriving DecidableEq

/-- What is wrong with arguments. -/
inductive Misuse where
  /-- No command is named. -/
  | missingCommand
  /-- There is no such command. -/
  | unknownCommand (name : String)
  /-- An argument that the command does not take. -/
  | unexpected (argument : String)
  /-- An option without its value. -/
  | missingValue (argument : String)
  /-- A value of an option that takes none. -/
  | unneededValue (argument : String)
  /-- An option that was given before. -/
  | repeated (argument : String)
  /-- No shell is named. -/
  | missingShell
  /-- There is no such shell. -/
  | unknownShell (name : String)
deriving DecidableEq

/-- The report of wrong arguments. -/
def Misuse.message : Misuse → String
  | missingCommand => "a command is required"
  | unknownCommand name => "there is no command '" ++ name ++ "'"
  | unexpected argument => "unexpected argument '" ++ argument ++ "'"
  | missingValue argument => "'" ++ argument ++ "' needs a value"
  | unneededValue argument => "'" ++ argument ++ "' takes no value"
  | repeated argument => "'" ++ argument ++ "' cannot be used several times"
  | missingShell => "a shell is required"
  | unknownShell name => "there is no shell '" ++ name ++ "'"

/-- An option. -/
inductive Flag where
  | verbose
  | help
  | version
  | config
  | output
  | dryRun
deriving DecidableEq

/-- The option with a long name. -/
def Flag.ofLong? : String → Option Flag
  | "verbose" => some .verbose
  | "help" => some .help
  | "version" => some .version
  | "config" => some .config
  | "output" => some .output
  | "dry-run" => some .dryRun
  | _ => none

/-- The option with a short name. -/
def Flag.ofShort? : Char → Option Flag
  | 'v' => some .verbose
  | 'h' => some .help
  | 'V' => some .version
  | 'c' => some .config
  | 'o' => some .output
  | _ => none

/-- Whether an option takes a value. -/
def Flag.takesValue : Flag → Bool
  | config | output => true
  | _ => false

/-- Whether a command, or the start of the arguments, takes an option. -/
def Flag.allowedBy : Flag → Option Verb → Bool
  | verbose, _ | help, _ => true
  | version, verb => verb = none
  | config, verb => verb = some .generate || verb = some .check || verb = some .clean
  | output, verb | dryRun, verb => verb = some .generate || verb = some .clean

/-- What was given so far. -/
structure Given where
  /-- The command. -/
  verb : Option Verb := none
  /-- The path of the manifest. -/
  config : Option Path := none
  /-- The path of the output folder. -/
  output : Option Path := none
  /-- Whether nothing shall be written. -/
  dry : Bool := false
  /-- The shell. -/
  shell : Option Shell := none
deriving DecidableEq

/-- How reading goes on after an option. -/
inductive Step where
  /-- With the next argument. -/
  | next (given : Given)
  /-- With the value of an option. -/
  | value (given : Given) (flag : Flag)
  /-- Not at all, because the user asks for something else. -/
  | stop (request : Request)

/-- The page of help for the command that was given. -/
def Given.topic (g : Given) : Topic :=
  match g.verb with
  | some verb => .verb verb
  | none => .all

/-- Gives an option its value. -/
def Given.setValue (g : Given) (argument : String) (flag : Flag) (value : String) :
    Except Misuse Given :=
  if value.isEmpty then .error (.missingValue argument)
  else
    match flag with
    | .config =>
      if g.config.isSome then .error (.repeated argument) else .ok { g with config := some ⟨value⟩ }
    | .output =>
      if g.output.isSome then .error (.repeated argument) else .ok { g with output := some ⟨value⟩ }
    | _ => .error (.unneededValue argument)

/-- Gives an option that takes no value. -/
def Given.setFlag (g : Given) (argument : String) (flag : Flag) : Except Misuse Step :=
  match flag with
  | .verbose => .ok (.next g)
  | .help => .ok (.stop (.help g.topic))
  | .version => .ok (.stop .version)
  | .dryRun => if g.dry then .error (.repeated argument) else .ok (.next { g with dry := true })
  | .config | .output => .ok (.value g flag)

/-- The option that an argument names, if the command takes it. -/
def Given.accept (g : Given) (argument : String) (flag : Option Flag) : Except Misuse Flag :=
  match flag with
  | some flag => if flag.allowedBy g.verb then .ok flag else .error (.unexpected argument)
  | none => .error (.unexpected argument)

/-- Reads an argument that starts with two hyphens. -/
def Given.readLong (g : Given) (argument : String) (body : List Char) : Except Misuse Step := do
  let flag ← g.accept argument (Flag.ofLong? (String.ofList (body.takeWhile (· != '='))))
  match body.dropWhile (· != '=') with
  | [] => g.setFlag argument flag
  | _ :: value =>
    if flag.takesValue then .next <$> g.setValue argument flag (String.ofList value)
    else .error (.unneededValue argument)

/-- Reads the letters of an argument that starts with one hyphen. -/
def Given.readShort (g : Given) (argument : String) : List Char → Except Misuse Step
  | [] => .ok (.next g)
  | letter :: rest => do
    let flag ← g.accept argument (Flag.ofShort? letter)
    if flag.takesValue then
      match rest with
      | [] => pure (.value g flag)
      | '=' :: value => .next <$> g.setValue argument flag (String.ofList value)
      | value => .next <$> g.setValue argument flag (String.ofList value)
    else
      match ← g.setFlag argument flag with
      | .next g => g.readShort argument rest
      | step => pure step

/-- Reads an argument that is no option. -/
def Given.readWord (g : Given) (word : String) : Except Misuse Given :=
  match g.verb with
  | none =>
    match Verb.ofName? word with
    | some verb => .ok { g with verb := some verb }
    | none => .error (.unknownCommand word)
  | some .completions =>
    if g.shell.isSome then .error (.unexpected word)
    else
      match Shell.ofName? word with
      | some shell => .ok { g with shell := some shell }
      | none => .error (.unknownShell word)
  | some _ => .error (.unexpected word)

/-- Reads arguments none of which is an option or a command. -/
def Given.readPlain (g : Given) (words : List String) : Except Misuse Given :=
  words.foldlM (fun g word =>
    if g.verb = none then .error (.unexpected word) else g.readWord word) g

/-- The page of help that words after `help` name. -/
def helpTopic : List String → Except Misuse Topic
  | [] => .ok .all
  | ["help"] => .ok .help
  | [word] =>
    match Verb.ofName? word with
    | some verb => .ok (.verb verb)
    | none => .error (.unknownCommand word)
  | _ :: word :: _ => .error (.unknownCommand word)

/-- The command that was given. -/
def Given.finish (g : Given) : Except Misuse Request :=
  let config := g.config.getD ⟨Manifest.defaultFile⟩
  match g.verb with
  | none => .error .missingCommand
  | some .generate => .ok (.run (.generate config g.output g.dry))
  | some .check => .ok (.run (.check config))
  | some .clean => .ok (.run (.clean config g.output g.dry))
  | some .completions =>
    match g.shell with
    | some shell => .ok (.run (.completions shell))
    | none => .error .missingShell

/-- Whether an argument looks like an option. -/
def isOption (argument : String) : Bool :=
  match argument.toList with
  | '-' :: _ :: _ => true
  | _ => false

/-- Reads one option. -/
def Given.readOption (g : Given) (argument : String) : Except Misuse Step :=
  match argument.toList with
  | '-' :: '-' :: body => g.readLong argument body
  | _ :: letters => g.readShort argument letters
  | [] => .ok (.next g)

/-- Reads arguments after those that were given already. -/
def Given.read (g : Given) : List String → Except Misuse Request
  | [] => g.finish
  | argument :: rest =>
    if argument = "--" then (g.readPlain rest).bind Given.finish
    else if isOption argument then
      match g.readOption argument with
      | .error misuse => .error misuse
      | .ok (.next g) => g.read rest
      | .ok (.stop request) => .ok request
      | .ok (.value g flag) =>
        match rest with
        | [] => .error (.missingValue argument)
        | value :: rest =>
          if isOption value then .error (.missingValue argument)
          else (g.setValue argument flag value).bind fun g => g.read rest
    else if g.verb = none && argument = "help" then (helpTopic rest).map .help
    else
      match g.readWord argument with
      | .error misuse => .error misuse
      | .ok g => g.read rest

/-- What the arguments ask for. -/
def parse (arguments : List String) : Except Misuse Request := Given.read {} arguments

end Declgen.CommandLine
