import Declgen.Proofs.Files.Listing
import Declgen.Proofs.Plan.Collisions

/-!
# Files below the output folder

The names and namespaces of a model are arbitrary texts, but the paths of planned files are made of
names in kebab case, which neither climb nor start anew. The stem of a single file is not converted;
there a manifest is refused unless the stem is plain. So every file stays below the output folder,
wherever that is.
-/

namespace Declgen.Manifest

variable {source name stem : String} {s : Settings}

/-- A plain stem has no slash and no backslash. -/
theorem not_mem_of_isPlainStem (h : isPlainStem stem = true) :
    '/' ∉ stem.toList ∧ '\\' ∉ stem.toList := by
  rw [isPlainStem, Bool.and_eq_true, Bool.not_eq_true', Bool.not_eq_true', List.any_eq_false] at h
  exact ⟨fun hmem => h.2 _ hmem (by decide), fun hmem => h.2 _ hmem (by decide)⟩

/-- Settings that are read from a manifest have no fault. -/
theorem fault?_of_parse (h : parse source name = .ok s) : fault? s = none := by
  unfold parse at h
  split at h
  · cases h
  · cases h
  · split at h
    · cases h
    · cases h
      assumption

/-- A manifest that has been parsed has a stem without fault. -/
theorem stemFault?_of_parse (h : parse source name = .ok s) : stemFault? s = none := by
  have hfault := fault?_of_parse h
  rw [fault?] at hfault
  split at hfault
  · cases hfault
  · split at hfault
    · cases hfault
    · exact (Option.or_eq_none_iff.mp hfault).2

/-- The stem of a single file is plain, since a manifest without a stem or with any other stem is
refused. -/
theorem isPlainStem_of_parse (h : parse source name = .ok s)
    (hlayout : s.options.layout = .singleFile stem) : isPlainStem stem = true := by
  have hfault := stemFault?_of_parse h
  have hchoice : s.layout = .singleFile ∧ s.file.getD Settings.defaultStem = stem := by
    rw [Settings.options] at hlayout
    split at hlayout
    · cases hlayout
    · cases hlayout
    case h_3 hlayout' => exact ⟨hlayout', FileLayout.singleFile.inj hlayout⟩
  rw [stemFault?] at hfault
  cases hfile : s.file with
  | none => simp [hfile, hchoice.1] at hfault
  | some given =>
    rw [hfile] at hfault hchoice
    rw [← hchoice.2]
    simpa using hfault

end Declgen.Manifest

namespace Declgen.Plan

open Model Document Walk TypeScript Files Text

variable {options : Options} {units : List Units.Completed} {file : OutputFile}

/-- A single file with a plain stem has a path with one segment. -/
theorem segments_of_isPlainStem {stem : String} (h : Manifest.isPlainStem stem = true) :
    splitAt '/' (stem ++ ".ts") = [stem ++ ".ts"] := by
  have hslash : ∀ part ∈ [stem ++ ".ts"], '/' ∉ part.toList := by
    intro part hpart
    rw [List.mem_singleton.mp hpart, String.toList_append, List.mem_append, not_or]
    exact ⟨(Manifest.not_mem_of_isPlainStem h).1, by decide⟩
  simpa using splitAt_intercalate (by simp) hslash

/-- A single file with a plain stem stays below its base, even if the stem is made of dots. -/
theorem plain_of_isPlainStem {stem : String} (h : Manifest.isPlainStem stem = true)
    (content : String) : OutputFile.Plain ⟨stem ++ ".ts", content⟩ := by
  refine ⟨?_, fun name hname => ?_⟩
  · rw [segments_of_isPlainStem h, List.getLast?_singleton, ne_eq, Option.some.injEq]
    exact append_extension_ne stem (by decide)
  · have hmem := (List.mem_filter.mp hname).1
    rw [segments_of_isPlainStem h, List.mem_singleton] at hmem
    rw [hmem]
    exact ⟨append_extension_ne stem (by decide), append_extension_ne stem (by decide)⟩

/-- Where the stem of a single file is plain, every planned file stays below its base and has no
backslash in its path. -/
theorem plain_of_planned
    (hstem : ∀ stem, options.layout = .singleFile stem → Manifest.isPlainStem stem = true)
    (hfile : file ∈ planned options units) : file.Plain ∧ '\\' ∉ file.path.toList := by
  obtain ⟨unit, -, hpath⟩ := exists_unit_of_planned hfile
  have hextension (h : '\\' ∉ (moduleOf options unit).toList) : '\\' ∉ file.path.toList := by
    rw [hpath, String.toList_append, List.mem_append, not_or]
    exact ⟨h, by decide⟩
  by_cases hlayout : ∃ stem, options.layout = .singleFile stem
  · obtain ⟨stem, hlayout⟩ := hlayout
    have hmodule : moduleOf options unit = stem := by rw [moduleOf, hlayout, modulePath]
    have hplain := plain_of_isPlainStem (hstem stem hlayout) file.content
    rw [← hmodule, ← hpath] at hplain
    exact ⟨hplain, hextension (hmodule ▸ (Manifest.not_mem_of_isPlainStem (hstem stem hlayout)).2)⟩
  · have hlayout' (stem : String) : options.layout ≠ .singleFile stem :=
      fun heq => hlayout ⟨stem, heq⟩
    obtain ⟨_, -, above, last, hpathOf⟩ := exists_pathOf hlayout' hfile
    exact ⟨hpathOf.plain file.content, hextension (not_mem_modulePath hlayout' rfl (by decide) _ _)⟩

/-- Whatever the model and the hook are, with the settings of a manifest every planned file stays
below the output folder: no segment of its path is a dot or two dots, its path has no backslash, and
its full path from a base goes through the components of the base and then through one or more
names. -/
theorem files_inside {source name : String} {s : Manifest.Settings} {hook : Hook}
    {registry : Units.Registry} {model : Arena} {roots : List TypeId} {g : Generation}
    (hparse : Manifest.parse source name = .ok s)
    (hgenerate : generate ⟨s.options, hook⟩ registry model roots = .ok g) :
    ∀ file ∈ Project.outputFiles g,
      (∀ segment ∈ splitAt '/' file.path, segment ≠ "." ∧ segment ≠ "..") ∧
      '\\' ∉ file.path.toList ∧
      file.names ≠ [] ∧ (∀ name ∈ file.names, IsName name) ∧
      ∀ base, (file.fullPath base).components = base.components ++ file.names.map .name := by
  obtain ⟨units, -, hpure⟩ := bind_eq_ok hgenerate
  cases hpure
  intro file hfile
  obtain ⟨hplain, hbackslash⟩ :=
    plain_of_planned (fun stem => Manifest.isPlainStem_of_parse hparse) hfile
  refine ⟨fun segment hsegment => ?_, hbackslash, hplain.names_ne_nil,
    fun _ => hplain.isName, fun base => ?_⟩
  · by_cases hempty : segment = ""
    · rw [hempty]
      decide
    · exact hplain.stays segment (List.mem_filter.mpr ⟨hsegment, by simpa using hempty⟩)
  · rw [hplain.components_fullPath, Path.leadComponents_eq]

/-- A record whose name and namespace try to climb. -/
def climber : ModelDocument := ⟨[], [.complex ⟨"..\\Left", some "../..", [], none, []⟩]⟩

/-- The model of this record. -/
def climberModel : LoadedModel :=
  ⟨⟨#[some (.complex ⟨"..\\Left", some "../..", [], none, []⟩)]⟩, [], [("../.....\\Left", 0)]⟩

/-- The unit of this record. -/
def climberUnit : Units.Completed :=
  ⟨0, "../.....\\Left", ⟨"Left", some "../..", []⟩, ⟨.alias "Left" [] (.object []), []⟩⟩

/-- The record goes to a file right below the output folder, although its path begins with a
slash. -/
theorem files_inside_climber :
    ∃ s m g file, Manifest.parse "[generator]\nmodel = \"m.json\"\n" "contractgen.toml" = .ok s ∧
      load climber = .ok m ∧ generate ⟨s.options, fun _ => none⟩ .empty m.model [0] = .ok g ∧
      Project.outputFiles g = [file] ∧ file.path = "/left.ts" ∧ file.names = ["left.ts"] ∧
      ∀ base, (file.fullPath base).components = base.components ++ [.name "left.ts"] := by
  have hparse : Manifest.parse "[generator]\nmodel = \"m.json\"\n" "contractgen.toml" =
      .ok { model := ⟨"m.json"⟩ } := by decide +kernel
  have hwalk : walk ⟨{}, fun _ => none⟩ .empty climberModel.model [0] = .ok [climberUnit] := by
    decide +kernel
  have hgenerate : generate ⟨{}, fun _ => none⟩ .empty climberModel.model [0] =
      .ok ⟨[climberUnit], files {} [climberUnit]⟩ := by rw [generate, hwalk]; rfl
  obtain ⟨file, hfile, hpath, hnames⟩ : ∃ file, planned {} [climberUnit] = [file] ∧
      file.path = "/left.ts" ∧ file.names = ["left.ts"] :=
    ⟨_, rfl, by decide +kernel, by decide +kernel⟩
  have hmem : file ∈ planned {} [climberUnit] := by rw [hfile, List.mem_singleton]
  obtain ⟨-, -, -, -, hfull⟩ := files_inside hparse hgenerate file hmem
  rw [hnames] at hfull
  exact ⟨_, climberModel, _, file, hparse, rfl, hgenerate, hfile, hpath, hnames, hfull⟩

end Declgen.Plan
