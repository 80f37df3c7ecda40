import Declgen.CommandLine.Help
import Declgen.Project.Summary

/-!
# Running the command line

The arguments are read and the command is run on a tree of files. The exit code is zero if all
went well, one if the run failed, and two if the arguments are wrong.
-/

namespace Declgen.CommandLine

open Files Project

/-- What the user sees of a run. -/
structure Outcome where
  /-- The exit code. -/
  code : Nat
  /-- The text on the standard output. -/
  output : String
  /-- The text on the standard error output. -/
  diagnostics : String
deriving DecidableEq

/-- Lines as a text. -/
def textOf (lines : List String) : String := String.join (lines.map fun line => line ++ "\n")

/-- The outcome of a run that shows lines. -/
def shown (lines : List String) : Outcome := ⟨0, textOf lines, ""⟩

/-- The outcome of a run that failed for these reasons. -/
def failed (reasons : List String) : Outcome := ⟨1, "", "Error: " ++ textOf reasons⟩

/-- The outcome of a run that gives a report. -/
def reported {α : Type} (report : α → List ReportLine) (run : Run α) : StateM Tree Outcome := do
  match ← run.run with
  | .ok a => pure ⟨0, terminalText (report a), ""⟩
  | .error e => pure (failed e.chain)

/-- Goes on with the settings of a manifest. -/
def withManifest (config : Path) (next : Manifest.Settings → StateM Tree Outcome) :
    StateM Tree Outcome := do
  match readManifest (← get) config with
  | .ok s => next s
  | .error e => pure (failed (e.message :: e.help.toList))

/-- Runs a command. A command that is given an output folder takes that instead of the one of the
manifest. -/
def Command.run : Command → StateM Tree Outcome
  | generate config output dry =>
    withManifest config fun s =>
      let folder := folderOf config
      reported (·.report) (generateInto s folder (output.getD (s.outputPath folder)) dry)
  | check config => withManifest config fun s => reported (·.report) (Project.check s config)
  | clean config none dry =>
    withManifest config fun s =>
      reported (·.report) (cleanOutput (s.outputPath (folderOf config)) dry)
  | clean _ (some output) dry => reported (·.report) (cleanOutput output dry)
  | completions shell => pure (shown shell.script)

/-- Runs the program with its arguments. -/
def run (arguments : List String) : StateM Tree Outcome :=
  match parse arguments with
  | .ok (.run command) => command.run
  | .ok (.help topic) => pure (shown topic.page)
  | .ok .version => pure (shown [programName ++ " " ++ version])
  | .error misuse => pure ⟨2, "", "error: " ++ misuse.message ++ "\n"⟩

end Declgen.CommandLine
