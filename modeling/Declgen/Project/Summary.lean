import Declgen.Project.Report
import Declgen.Project.Run

/-!
# Summaries of runs

The report that the user gets of each kind of run.
-/

namespace Declgen.Project

open Files

/-- The report of a check. -/
def CheckResult.report (r : CheckResult) : List ReportLine :=
  [.plain ("✓ " ++ r.config.text ++ " is valid"), .blank,
    .plain (count r.definitions "definition" ++ ", " ++ count r.units.length "declaration" ++
      " in " ++ count r.files "file")] ++
    listing "Declarations" .item r.units

/-- The report of files that were only planned. -/
def previewReport (units : Nat) (files : List OutputFile) : List ReportLine :=
  (files.flatMap fun file => [.divider file.path, .plain file.content]) ++
    [.divider "Summary", .plain (count units "declaration" ++ " in " ++
      count files.length "file" ++ " would be generated")]

/-- The report of files that were written. -/
def writtenReport (model : Path) (units : Nat) (output : Path) (r : WriteReport) :
    List ReportLine :=
  [.pair "Model" model.text, .pair "Declarations" (toString units),
    .pair "Generated" output.text] ++
    listing "Written" .added r.written ++
    listing "Deleted" .removed (r.deleted.map (fromOutput output)) ++
    if r.unchanged.isEmpty then []
    else [.blank, .plain (count r.unchanged.length "file" ++ " unchanged")]

/-- The report of a generation. -/
def GenerateResult.report (r : GenerateResult) : List ReportLine :=
  match r.outcome with
  | .preview files => previewReport r.units files
  | .written output written => writtenReport r.model r.units output written

/-- The report of cleaning. -/
def CleanResult.report (r : CleanResult) : List ReportLine :=
  if r.files.isEmpty then [.plain "No generated files found."]
  else .heading (if r.dry then "Would delete" else "Deleted") :: r.files.map .removed

end Declgen.Project
