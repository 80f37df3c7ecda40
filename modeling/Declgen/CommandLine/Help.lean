import Declgen.CommandLine.Arguments

/-!
# Help and completions

The texts that the program shows about itself, and the scripts by which shells complete its
commands.
-/

namespace Declgen.CommandLine

/-- The name of the program. -/
def programName : String := "contractgen"

/-- The version of the program. -/
def version : String := "0.3.0"

/-- What a command does. -/
def Verb.about : Verb → String
  | generate => "Generate TypeScript declarations from contractgen.toml"
  | check => "Validate contractgen.toml and the model without writing files"
  | clean => "Remove generated files from the output directory"
  | completions => "Generate shell completions"

/-- The name of a command. -/
def Verb.name : Verb → String
  | generate => "generate"
  | check => "check"
  | clean => "clean"
  | completions => "completions"

/-- The commands. -/
def verbs : List Verb := [.generate, .check, .clean, .completions]

/-- The line of help for an option. -/
def Flag.helpLine : Flag → String
  | verbose => "  -v, --verbose          Increase log verbosity (-v info, -vv debug, -vvv trace)"
  | help => "  -h, --help             Print help"
  | version => "  -V, --version          Print version"
  | config => "  -c, --config <CONFIG>  Path to contractgen.toml [default: contractgen.toml]"
  | output => "  -o, --output <OUTPUT>  Output directory (overrides the manifest's output)"
  | dryRun => "      --dry-run          Preview without changing anything"

/-- The lines of help for the options that a command takes. -/
def flagLines (verb : Option Verb) : List String :=
  ([Flag.config, .output, .dryRun, .verbose, .help, .version].filter (·.allowedBy verb)).map
    Flag.helpLine

/-- A page of help. -/
def Topic.page : Topic → List String
  | all =>
    ["Generate TypeScript contract declarations from a type model", "",
      "Usage: " ++ programName ++ " [OPTIONS] <COMMAND>", "", "Commands:"] ++
      verbs.map (fun verb => "  " ++ verb.name ++ ": " ++ verb.about) ++
      ["  help: Print this message or the help of the given command", "", "Options:"] ++
      flagLines none
  | verb .completions =>
    [Verb.completions.about, "", "Usage: " ++ programName ++ " completions [OPTIONS] <SHELL>", "",
      "Shells: bash, elvish, fish, powershell, zsh", "", "Options:"] ++
      flagLines (some .completions)
  | verb v =>
    [v.about, "", "Usage: " ++ programName ++ " " ++ v.name ++ " [OPTIONS]", "", "Options:"] ++
      flagLines (some v)
  | help =>
    ["Print this message or the help of the given command", "",
      "Usage: " ++ programName ++ " help [COMMAND]"]

/-- The names of all commands. -/
def commandNames : List String := verbs.map Verb.name ++ ["help"]

/-- The script by which a shell completes commands. -/
def Shell.script : Shell → List String
  | bash => ["complete -W '" ++ " ".intercalate commandNames ++ "' " ++ programName]
  | elvish =>
    ["set edit:completion:arg-completer[" ++ programName ++ "] = \x7b|@words| put " ++
      " ".intercalate commandNames ++ " \x7d"]
  | fish =>
    commandNames.map fun name =>
      "complete -c " ++ programName ++ " -n __fish_use_subcommand -f -a " ++ name
  | powershell =>
    ["Register-ArgumentCompleter -Native -CommandName " ++ programName ++
      " -ScriptBlock \x7b param($word) '" ++ "', '".intercalate commandNames ++
      "' | Where-Object \x7b $_ -like ($word + '*') \x7d \x7d"]
  | zsh => ["#compdef " ++ programName, "_arguments '1: :(" ++ " ".intercalate commandNames ++ ")'"]

end Declgen.CommandLine
