import Declgen.Manifest.Decode
import Declgen.Manifest.Span

/-!
# Reading manifests

A manifest is read from a text and then checked. Its errors point into the text where they can.
-/

namespace Declgen.Manifest

open Files Text

/-- What is wrong with settings. -/
inductive Fault where
  /-- The model has no path. -/
  | emptyModel
  /-- The output folder has no path. -/
  | emptyOutput
  /-- A root has no name. -/
  | emptyRoot
  /-- A root is listed twice. -/
  | repeatedRoot (name : String)
  /-- The layout with one file has no stem. -/
  | missingStem
  /-- The stem names another folder, or nothing. -/
  | badStem
deriving DecidableEq

/-- Why there is no manifest. -/
inductive ManifestError where
  /-- The file cannot be read as text. -/
  | unreadable (path : Path)
  /-- The text is no manifest. -/
  | malformed (cause : Malformed)
  /-- The settings of the file with this name are wrong, as this place of it shows. -/
  | invalid (file : String) (span : Option Span) (fault : Fault)
deriving DecidableEq

namespace ManifestError

/-- The report of an error. -/
def message : ManifestError → String
  | unreadable path => "failed to read '" ++ path.text ++ "'"
  | malformed _ => "failed to parse contractgen.toml"
  | invalid _ _ fault =>
    match fault with
    | .emptyModel => "model path must not be empty"
    | .emptyOutput => "output directory must not be empty"
    | .emptyRoot => "root type names must not be empty"
    | .repeatedRoot name => "root '" ++ name ++ "' is listed more than once"
    | .missingStem => "missing 'file'"
    | .badStem => "file must be a plain file stem"

/-- The diagnostic code of an error. -/
def code : ManifestError → String
  | unreadable _ => "contractgen::manifest::io"
  | malformed _ => "contractgen::manifest::parse"
  | invalid _ _ .missingStem => "contractgen::manifest::missing_key"
  | invalid .. => "contractgen::manifest::invalid"

/-- What the user can do about an error. -/
def help : ManifestError → Option String
  | unreadable _ => some "create a contractgen.toml with a [generator] section, or pass --config"
  | invalid _ _ .missingStem =>
    some "the single-file layout needs a file stem, e.g. file = \"types\""
  | _ => none

/-- The texts at the places that an error points at. -/
def labels (e : ManifestError) : List String :=
  match e with
  | invalid _ (some _) .missingStem => ["required by this setting"]
  | invalid _ (some _) _ => [e.message]
  | _ => []

end ManifestError

/-- Whether a text contains nothing but blanks. -/
def isVoid (s : String) : Bool := (trim s.toList).isEmpty

/-- What is wrong with roots, of which those in `seen` came before. -/
def rootFault? (seen : List String) : List String → Option Fault
  | [] => none
  | root :: roots =>
    if isVoid root then some .emptyRoot
    else if seen.contains root then some (.repeatedRoot root)
    else rootFault? (root :: seen) roots

/-- Whether a stem names a file without naming a folder. -/
def isPlainStem (stem : String) : Bool :=
  !stem.isEmpty && !stem.toList.any fun c => c == '/' || c == '\\'

/-- What is wrong with the stem of the only file. -/
def stemFault? (s : Settings) : Option Fault :=
  match s.file with
  | none => if s.layout = .singleFile then some .missingStem else none
  | some stem => if isPlainStem stem then none else some .badStem

/-- What is wrong with settings, if anything is. -/
def fault? (s : Settings) : Option Fault :=
  if s.model.text.isEmpty then some .emptyModel
  else if s.output.text.isEmpty then some .emptyOutput
  else (rootFault? [] s.roots).or (stemFault? s)

/-- The place in a manifest that shows a fault. -/
def Fault.span? (source : String) : Fault → Option Span
  | emptyModel => keySpan source "model"
  | emptyOutput => keySpan source "output"
  | emptyRoot => keySpan source "roots"
  | repeatedRoot name => (valueSpan source name).or (keySpan source "roots")
  | missingStem => keySpan source "layout"
  | badStem => keySpan source "file"

/-- The settings of a manifest in the file with this name. -/
def parse (source file : String) : Except ManifestError Settings :=
  match (Toml.parse? source).map documentSettings with
  | none => .error (.malformed none)
  | some (.error cause) => .error (.malformed cause)
  | some (.ok s) =>
    match fault? s with
    | some fault => .error (.invalid file (fault.span? source) fault)
    | none => .ok s

/-- The name of a manifest that is not named otherwise. -/
def defaultFile : String := "contractgen.toml"

end Declgen.Manifest
