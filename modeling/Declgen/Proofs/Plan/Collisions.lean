import Declgen.Project.Run
import Declgen.Proofs.Files.Places
import Declgen.Proofs.Plan.SelfContained

/-!
# Files that are written to one place

The path of a planned file has an empty segment for every segment of the namespace that consists of
other characters than letters and digits. Such a segment makes a different path but not a different
place, so two planned files may be written to one place. Where namespaces have no such segments, all
planned files are written to different places and stay there.
-/

namespace Declgen.Plan

open Model Document Walk Declgen.Units TypeScript Files Text

/-! ### Segments of paths -/

/-- What is appended to joined segments is appended to the last of them. -/
theorem intercalate_concat_append (above : List String) (last rest : String) :
    "/".intercalate (above ++ [last]) ++ rest = "/".intercalate (above ++ [last ++ rest]) := by
  cases above with
  | nil => simp
  | cons first above =>
    have hne (s : String) : [s] ≠ [] := by simp
    rw [String.intercalate_append_of_ne_nil (List.cons_ne_nil _ _) (hne _),
      String.intercalate_append_of_ne_nil (List.cons_ne_nil _ _) (hne _),
      String.intercalate_singleton, String.intercalate_singleton, String.append_assoc]

/-- Characters that a stem does not allow are not in one. -/
theorem not_mem_of_stem {c : Char} (hc : isStem c = false) {s : String}
    (h : s.toList.all isStem = true) : c ∉ s.toList := by
  intro hmem
  rw [List.all_eq_true.mp h c hmem] at hc
  cases hc

/-- A name with the extension is longer than what it has to differ from. -/
theorem append_extension_ne (last : String) {s : String} (hs : s.toList.length < 3) :
    last ++ ".ts" ≠ s := by
  rintro rfl
  have hlength : (last ++ ".ts").toList.length = last.toList.length + 3 := by
    rw [String.toList_append, List.length_append]
    rfl
  omega

/-- The path of the file of a unit is made of folders of its namespace and a last name with the
extension, unless there is a single file. -/
structure PathOf (space : Option String) (path : String) (above : List String) (last : String) :
    Prop where
  /-- The folders are those of the namespace. -/
  folder : ∀ folder ∈ above, folder ∈ folders space
  /-- The last name has no dot, slash or backslash of its own. -/
  stem : last.toList.all isStem = true
  /-- The path is joined from these. -/
  joined : path = "/".intercalate (above ++ [last ++ ".ts"])

namespace PathOf

variable {space : Option String} {path last : String} {above : List String}

/-- The folders and the last name are the segments of the path. -/
theorem segments (h : PathOf space path above last) :
    splitAt '/' path = above ++ [last ++ ".ts"] := by
  rw [h.joined]
  refine splitAt_intercalate (by simp) fun part hpart => ?_
  rcases List.mem_append.mp hpart with hpart | hpart
  · exact not_mem_of_stem rfl (folders_stem (h.folder part hpart))
  · rw [List.mem_singleton.mp hpart, String.toList_append, List.mem_append, not_or]
    exact ⟨not_mem_of_stem rfl h.stem, by decide⟩

/-- A file with such a path is plain. -/
theorem plain (h : PathOf space path above last) (content : String) :
    OutputFile.Plain ⟨path, content⟩ := by
  refine ⟨?_, fun name hname => ?_⟩
  · rw [h.segments, List.getLast?_concat, ne_eq, Option.some.injEq]
    exact append_extension_ne last (by decide)
  · obtain ⟨hmem, -⟩ := List.mem_filter.mp hname
    rw [h.segments] at hmem
    rcases List.mem_append.mp hmem with hmem | hmem
    · have hdot : '.' ∉ name.toList := not_mem_of_stem rfl (folders_stem (h.folder name hmem))
      constructor <;> rintro rfl <;> exact hdot (by decide)
    · rw [List.mem_singleton.mp hmem]
      exact ⟨append_extension_ne last (by decide), append_extension_ne last (by decide)⟩

/-- If no folder is empty, the names in a path are all its segments. -/
theorem names_eq (h : PathOf space path above last) (habove : ∀ folder ∈ folders space, folder ≠ "")
    (content : String) : OutputFile.names ⟨path, content⟩ = splitAt '/' path := by
  refine List.filter_eq_self.mpr fun segment hsegment => ?_
  rw [h.segments] at hsegment
  rcases List.mem_append.mp hsegment with hsegment | hsegment
  · simpa using habove segment (h.folder segment hsegment)
  · rw [List.mem_singleton.mp hsegment]
    simp

end PathOf

/-! ### Namespaces -/

/-- Every segment of the namespaces of units that is not empty has a letter or a digit. -/
def LegibleNamespaces (units : List Completed) : Prop :=
  ∀ unit ∈ units, ∀ space, unit.header.space = some space →
    ∀ segment ∈ splitAt '.' space, segment ≠ "" → segment.toList.any isAlphanumeric = true

/-- A legible namespace has no empty folders. -/
theorem LegibleNamespaces.folder_ne {units : List Completed} (h : LegibleNamespaces units)
    {unit : Completed} (hunit : unit ∈ units) {folder : String}
    (hfolder : folder ∈ folders unit.header.space) : folder ≠ "" := by
  cases hspace : unit.header.space with
  | none =>
    rw [hspace] at hfolder
    cases hfolder
  | some space =>
    rw [hspace] at hfolder
    obtain ⟨segment, hsegment, rfl⟩ := List.mem_map.mp hfolder
    obtain ⟨hmem, hne⟩ := List.mem_filter.mp hsegment
    have halphanumeric := h unit hunit space hspace segment hmem (by simpa using hne)
    intro heq
    rw [fileName, String.ofList_eq_empty_iff, kebab_eq_nil_iff] at heq
    rw [heq] at halphanumeric
    cases halphanumeric

/-! ### Planned files -/

variable {options : Options} {units : List Completed}

/-- The files of a generation, as they are written. -/
def planned (options : Options) (units : List Completed) : List OutputFile :=
  Project.outputFiles ⟨units, files options units⟩

/-- A planned file is the file of some unit. -/
theorem exists_unit_of_planned {file : OutputFile} (hfile : file ∈ planned options units) :
    ∃ unit ∈ units, file.path = moduleOf options unit ++ ".ts" := by
  obtain ⟨f, hf, rfl⟩ := List.mem_map.mp hfile
  exact exists_unit_of_mem_files hf

/-- Every planned file has the path of a unit, unless there is a single file. -/
theorem exists_pathOf (hlayout : ∀ stem, options.layout ≠ .singleFile stem) {file : OutputFile}
    (hfile : file ∈ planned options units) :
    ∃ unit ∈ units, ∃ above last, PathOf unit.header.space file.path above last := by
  obtain ⟨unit, hunit, hpath⟩ := exists_unit_of_planned hfile
  obtain ⟨above, last, habove, hlast, hmodule⟩ :=
    exists_modulePath hlayout unit.header.name unit.header.space
  refine ⟨unit, hunit, above, last, habove, hlast, ?_⟩
  rw [hpath, moduleOf, hmodule, intercalate_concat_append]

/-- No path is planned twice. -/
theorem nodup_planned (h : Numbered units) : ((planned options units).map (·.path)).Nodup := by
  have hpaths : ((files options units).map (·.path)).Nodup := h.nodup_paths
  rwa [planned, Project.outputFiles, List.map_map]

/-- Two different planned files have paths with names, since a single file is not two. -/
theorem plain_of_ne (h : Numbered units) {file file' : OutputFile}
    (hfile : file ∈ planned options units) (hfile' : file' ∈ planned options units)
    (hne : file ≠ file') : (∀ stem, options.layout ≠ .singleFile stem) ∧ file.Plain := by
  have hlayout (stem : String) : options.layout ≠ .singleFile stem := by
    intro hstem
    obtain ⟨unit, -, hpath⟩ := exists_unit_of_planned hfile
    obtain ⟨unit', -, hpath'⟩ := exists_unit_of_planned hfile'
    rw [moduleOf, hstem] at hpath hpath'
    exact hne (List.inj_on_of_nodup_map (nodup_planned h) hfile hfile' (hpath.trans hpath'.symm))
  obtain ⟨unit, -, above, last, hpathOf⟩ := exists_pathOf hlayout hfile
  exact ⟨hlayout, hpathOf.plain file.content⟩

/-- Planned files have the same full path if and only if their paths have the same names. -/
theorem same_fullPath_iff (h : Numbered units) {file file' : OutputFile}
    (hfile : file ∈ planned options units) (hfile' : file' ∈ planned options units)
    (base : Files.Path) :
    (file.fullPath base).same (file'.fullPath base) = true ↔ file.names = file'.names := by
  by_cases heq : file = file'
  · simp [heq, Files.Path.same]
  · exact (plain_of_ne h hfile hfile' heq).2.same_iff
      (plain_of_ne h hfile' hfile (Ne.symm heq)).2 base

/-- With legible namespaces the names in the paths of planned files are different. -/
theorem LegibleNamespaces.apart (hlegible : LegibleNamespaces units) (h : Numbered units) :
    Apart (planned options units) := by
  have hpaths : (planned options units).Pairwise fun file file' => file.path ≠ file'.path :=
    List.pairwise_map.mp (nodup_planned h)
  refine hpaths.imp_of_mem fun {file file'} hfile hfile' hne hnames => hne ?_
  have hlayout := (plain_of_ne h hfile hfile' fun heq => hne (congrArg _ heq)).1
  have hsegments {file : OutputFile} (hfile : file ∈ planned options units) :
      file.names = splitAt '/' file.path := by
    obtain ⟨unit, hunit, above, last, hpathOf⟩ := exists_pathOf hlayout hfile
    exact hpathOf.names_eq (fun folder => hlegible.folder_ne hunit) file.content
  rw [← intercalate_splitAt file.path, ← intercalate_splitAt file'.path, ← hsegments hfile,
    ← hsegments hfile', hnames]

/-- Two planned files have the same full path from a base if and only if the names in their paths
are the same. With legible namespaces the names of different planned files are different. Where they
are, different planned files have different full paths, and after all of them have been written,
each path leads to the planned text, provided that no link stands inside the output folder. -/
theorem files_apart {d : ModelDocument} {m : LoadedModel} {options : Options} {roots : List TypeId}
    {g : Generation} (hload : load d = .ok m)
    (hgenerate : generate ⟨options, fun _ => none⟩ .empty m.model roots = .ok g) :
    (∀ base, ∀ file ∈ Project.outputFiles g, ∀ file' ∈ Project.outputFiles g,
      (file.fullPath base).same (file'.fullPath base) = true ↔ file.names = file'.names) ∧
    (LegibleNamespaces g.units → Apart (Project.outputFiles g)) ∧
    (Apart (Project.outputFiles g) → ∀ base,
      (Project.outputFiles g).Pairwise (fun file file' =>
        (file.fullPath base).same (file'.fullPath base) = false) ∧
      ∀ t report t',
        Disk.Runs (Disk.writeAll base (OutputSet.empty.addAll (Project.outputFiles g))) t report t' →
        t'.Linkless base →
        ∀ file ∈ Project.outputFiles g, t'.text? (file.fullPath base) = some file.content) := by
  obtain ⟨units, hwalk, hpure⟩ := bind_eq_ok hgenerate
  cases hpure
  obtain ⟨-, trees, s, hwalked⟩ := walked_of_walk hload (fun _ => rfl) hwalk
  have h := (hwalked.linked (loaded hload).wellFormed).numbered
  refine ⟨fun base file hfile file' hfile' => same_fullPath_iff h hfile hfile' base,
    fun hlegible => hlegible.apart h,
    fun hapart base => ⟨?_, fun t report t' hwrite hbase file hfile =>
      Disk.text?_of_writeAll (fun file hfile file' hfile' hne => (plain_of_ne h hfile hfile' hne).2)
        hapart hwrite hbase hfile⟩⟩
  refine hapart.imp_of_mem fun {file file'} hfile hfile' hne => ?_
  rw [← Bool.not_eq_true, same_fullPath_iff h hfile hfile' base]
  exact hne

/-- Two records in namespaces that differ by a segment without letters. -/
def twins : ModelDocument :=
  ⟨[], [
    .complex ⟨"Left", some "_.Shop", [], none, []⟩,
    .complex ⟨"Right", some "Shop", [], none, []⟩]⟩

/-- The model of these records. -/
def twinsModel : LoadedModel :=
  ⟨⟨#[some (.complex ⟨"Left", some "_.Shop", [], none, []⟩),
      some (.complex ⟨"Right", some "Shop", [], none, []⟩)]⟩,
    [], [("_.Shop.Left", 0), ("Shop.Right", 1)]⟩

/-- The document of these records loads. -/
theorem load_twins : load twins = .ok twinsModel := rfl

/-- The units of these records. -/
def twinUnits : List Completed :=
  [⟨0, "_.Shop.Left", ⟨"Left", some "_.Shop", []⟩, ⟨.alias "Left" [] (.object []), []⟩⟩,
    ⟨1, "Shop.Right", ⟨"Right", some "Shop", []⟩, ⟨.alias "Right" [] (.object []), []⟩⟩]

/-- The two records go to files with different paths, which are one and the same file below the
output folder. Whenever both have been written, the first one is lost. -/
theorem twins_collide :
    ∃ m g left right, load twins = .ok m ∧
      generate ⟨{ layout := .perNamespace }, fun _ => none⟩ .empty m.model [0, 1] = .ok g ∧
      Project.outputFiles g = [left, right] ∧
      left.path = "/shop.ts" ∧ right.path = "shop.ts" ∧
      (left.fullPath ⟨"out"⟩).same (right.fullPath ⟨"out"⟩) = true ∧
      ∀ t report t',
        Disk.Runs (Disk.writeAll ⟨"out"⟩ (OutputSet.empty.addAll [left, right])) t report t' →
        t'.text? (left.fullPath ⟨"out"⟩) ≠ some left.content := by
  have hwalk : walk ⟨{ layout := .perNamespace }, fun _ => none⟩ .empty twinsModel.model [0, 1] =
      .ok twinUnits := by
    decide +kernel
  obtain ⟨left, right, hfiles, hleft, hright, hcontent⟩ :
      ∃ left right, planned { layout := .perNamespace } twinUnits = [left, right] ∧
        left.path = "/shop.ts" ∧ right.path = "shop.ts" ∧ left.content ≠ right.content :=
    ⟨_, _, rfl, by decide +kernel, by decide +kernel, by decide +kernel⟩
  have hfull : left.fullPath ⟨"out"⟩ = right.fullPath ⟨"out"⟩ := by
    rw [OutputFile.fullPath, OutputFile.fullPath, hleft, hright]
    decide +kernel
  refine ⟨twinsModel, ⟨twinUnits, files { layout := .perNamespace } twinUnits⟩, left, right,
    load_twins, by rw [generate, hwalk]; rfl, hfiles, hleft, hright, ?_, fun t report t' hrun => ?_⟩
  · rw [hfull]
    exact decide_eq_true rfl
  · obtain ⟨t₁, hwrote⟩ := Disk.exists_wroteAll_of_writeAll hrun
    have hset : (OutputSet.empty.addAll [left, right]).files = [left, right] :=
      OutputSet.files_addAll (by simp [OutputSet.empty, hleft, hright])
    rw [hset] at hwrote
    obtain _ | ⟨-, _ | ⟨last, ⟨⟩⟩⟩ := hwrote
    rw [hfull, Tree.text?_eq last.locate last.entry]
    exact fun heq => hcontent (Option.some.inj heq).symm

/-- The records of a shop go to files that are different everywhere. -/
theorem files_apart_shop :
    ∃ m g, load shop = .ok m ∧
      generate ⟨{ layout := .perNamespace }, fun _ => none⟩ .empty m.model [0] = .ok g ∧
      (Project.outputFiles g).map (·.path) = ["shop.ts", "index.ts"] ∧
      LegibleNamespaces g.units ∧ ∀ base,
        (Project.outputFiles g).Pairwise (fun file file' =>
          (file.fullPath base).same (file'.fullPath base) = false) ∧
        ∀ t report t',
          Disk.Runs (Disk.writeAll base (OutputSet.empty.addAll (Project.outputFiles g))) t report t' →
          t'.Linkless base →
          ∀ file ∈ Project.outputFiles g, t'.text? (file.fullPath base) = some file.content := by
  have hload : load shop = .ok shopModel := rfl
  have hwalk : walk ⟨{ layout := .perNamespace }, fun _ => none⟩ .empty shopModel.model [0] =
      .ok shopUnits := by
    decide +kernel
  have hgenerate : generate ⟨{ layout := .perNamespace }, fun _ => none⟩ .empty shopModel.model
      [0] = .ok ⟨shopUnits, files { layout := .perNamespace } shopUnits⟩ := by
    rw [generate, hwalk]
    rfl
  have hlegible : LegibleNamespaces shopUnits := by
    intro unit hunit space hspace segment hsegment hne
    simp only [shopUnits, List.mem_cons, List.not_mem_nil, or_false] at hunit
    rcases hunit with rfl | rfl
    · cases hspace
      have hsegments : splitAt '.' "Shop" = ["Shop"] := by decide +kernel
      rw [hsegments, List.mem_singleton] at hsegment
      rw [hsegment]
      decide +kernel
    · cases hspace
  obtain ⟨-, hapart, hplaces⟩ := files_apart hload hgenerate
  exact ⟨shopModel, _, hload, hgenerate, by decide +kernel, hlegible, hplaces (hapart hlegible)⟩

end Declgen.Plan
