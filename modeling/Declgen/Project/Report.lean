/-!
# Reports

What a command did is told to the user line by line. A report says what each line is; here it is
also said how a line looks on a terminal.
-/

namespace Declgen.Project

/-- A line of a report. -/
inductive ReportLine where
  /-- The heading of a list. -/
  | heading (text : String)
  /-- A value with a name. -/
  | pair (name value : String)
  /-- An item of a list. -/
  | item (text : String)
  /-- Something that was added. -/
  | added (text : String)
  /-- Something that was removed. -/
  | removed (text : String)
  /-- A divider with a label. -/
  | divider (label : String)
  /-- Text as it is, possibly of several lines. -/
  | plain (text : String)
  /-- An empty line. -/
  | blank
deriving DecidableEq

/-- How a line looks on a terminal. -/
def ReportLine.text : ReportLine → String
  | heading text => text ++ ":"
  | pair name value => name ++ ": " ++ value
  | item text => "  - " ++ text
  | added text => "  + " ++ text
  | removed text => "  - " ++ text
  | divider label => "── " ++ label ++ " ──"
  | plain text => text
  | blank => ""

/-- How a report looks on a terminal. -/
def terminalText (report : List ReportLine) : String :=
  String.join (report.map fun line => line.text ++ "\n")

/-- A number of things, given the noun for one of them. -/
def count (n : Nat) (noun : String) : String :=
  toString n ++ " " ++ noun ++ (if n = 1 then "" else "s")

/-- A list under a heading, unless it is empty. -/
def listing (heading : String) (line : String → ReportLine) (items : List String) :
    List ReportLine :=
  if items.isEmpty then [] else .blank :: .heading heading :: items.map line

end Declgen.Project
