import Declgen.Manifest.Settings
import Declgen.Toml.Parser
import Declgen.Word

/-!
# Reading settings

The settings are the entries of the only table of a manifest, `generator`. Each entry is known
and has the right kind of value; they are read in the order of their names, so that the first
fault in that order is the one reported. The table may also be written as the array of its
values, in the order in which the settings are listed.
-/

namespace Declgen.Manifest

open Files Toml

/-- Why an indentation is refused. -/
inductive IndentError where
  /-- A number of blanks outside the limits. -/
  | width (n : Int)
  /-- A word other than the one for tabs. -/
  | word (s : String)
deriving DecidableEq

/-- The report of a refused indentation. -/
def IndentError.message : IndentError → String
  | width n => "indent must be between 1 and 8 spaces, got " ++ toString n
  | word s => "unknown indent '" ++ s ++ "', expected a width or \"tab\""

/-- Why a text is no manifest: a refused indentation, or any other fault. -/
abbrev Malformed := Option IndentError

/-- A result that is there, or a fault without a report of its own. -/
def expect {α : Type} : Option α → Except Malformed α
  | some a => .ok a
  | none => .error none

/-- Reads a text. -/
def text? : Value → Option String
  | .text s => some s
  | _ => none

/-- Reads a list of texts. -/
def texts? : Value → Option (List String)
  | .array items => items.mapM text?
  | _ => none

/-- Whether a value is an array or a table without content. -/
def isEmptyValue : Value → Bool
  | .array [] => true
  | .table _ [] => true
  | _ => false

/-- Reads one of several words. A word may also be the only key of a table with an empty
value. -/
def choice? {α : Type} (words : List (String × α)) : Value → Option α
  | .text s => words.lookup s
  | .table _ [(s, value)] => if isEmptyValue value then words.lookup s else none
  | _ => none

/-- Reads an indentation. -/
def indentOf : Value → Except Malformed Layout.Indent
  | .integer n =>
    if !fitsWord n then .error none
    else if 1 ≤ n && n ≤ 8 then .ok (.spaces n.toNat)
    else .error (some (.width n))
  | .text s => if s = "tab" then .ok .tab else .error (some (.word s))
  | _ => .error none

/-- The settings with one of them read from a value. -/
def Settings.set (s : Settings) (name : String) (value : Value) : Except Malformed Settings :=
  match name with
  | "model" => do return { s with model := ⟨← expect (text? value)⟩ }
  | "output" => do return { s with output := ⟨← expect (text? value)⟩ }
  | "roots" => do return { s with roots := ← expect (texts? value) }
  | "linter" => do
    let words := [("eslint", Linter.eslint), ("tslint", .tslint)]
    return { s with linter := ← expect (choice? words value) }
  | "enums" => do
    let words := [("union", EnumStyle.union), ("declaration", .declaration)]
    return { s with enums := ← expect (choice? words value) }
  | "generics" => do
    let words := [("monomorphize", GenericStyle.monomorphize), ("preserve", .preserve)]
    return { s with generics := ← expect (choice? words value) }
  | "field_naming" => do
    let words := [("camel", FieldStyle.camel), ("preserve", .preserve)]
    return { s with fields := ← expect (choice? words value) }
  | "layout" => do
    let words := [("per-unit", LayoutChoice.perUnit), ("per-namespace", .perNamespace),
      ("single-file", .singleFile)]
    return { s with layout := ← expect (choice? words value) }
  | "file" => do return { s with file := some (← expect (text? value)) }
  | "indent" => do return { s with indent := ← indentOf value }
  | _ => .error none

/-- The names of the settings, in order. -/
def settingNames : List String :=
  ["model", "output", "roots", "linter", "enums", "generics", "field_naming", "layout", "file",
    "indent"]

/-- How many settings an array has to give at least: those up to the last one without a
default. -/
def leastSettings : Nat := 9

/-- The entries in the order of their keys. -/
def inKeyOrder (entries : Entries) : Entries := entries.mergeSort fun a b => decide (a.1 ≤ b.1)

/-- The settings that entries give in this order. -/
def Settings.ofEntries (entries : Entries) : Except Malformed Settings :=
  entries.foldlM (fun s (name, value) => s.set name value) { model := ⟨""⟩ }

/-- Reads the settings. -/
def settings : Value → Except Malformed Settings
  | .table _ entries => do
    let s ← Settings.ofEntries (inKeyOrder entries)
    if entries.any (·.1 == "model") then pure s else .error none
  | .array items => do
    let s ← Settings.ofEntries (settingNames.zip items)
    if leastSettings ≤ items.length then pure s else .error none
  | _ => .error none

/-- Reads the settings of a document, whose only entry they are. -/
def documentSettings (document : Entries) : Except Malformed Settings := do
  let found ← (inKeyOrder document).foldlM (fun (_ : Option Settings) (key, value) =>
    if key = "generator" then (settings value).map some else .error none) none
  expect found

end Declgen.Manifest
