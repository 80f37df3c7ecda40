import Declgen.Proofs.Plan.Collisions
import Declgen.Proofs.Text.Humps
import Declgen.Proofs.Walk.Identifiers

/-!
# One file for each unit

With one file for each declaration, the file of a unit is told by the folders of its namespace and
by its name in kebab case. Units have different names, but names that differ in letter case only may
be the same in kebab case, and then their units share a file. This cannot happen if the definitions
of the document have names in which capitals only start words, since the names of all units are put
together from these and can be read back from their files.
-/

namespace Declgen.Document

open Text Walk

/-- In the names of all definitions, put into Pascal case, capitals only start words. -/
def ModelDocument.Humped (d : ModelDocument) : Prop :=
  ∀ definition ∈ d.definitions, Text.Humped (pascalName definition.name)

instance : DecidablePred ModelDocument.Humped := fun d =>
  inferInstanceAs <| Decidable <|
    ∀ definition ∈ d.definitions, Text.Humped (pascalName definition.name)

end Declgen.Document

namespace Declgen.Walk

open Model Document Text TypeScript Declgen.Units

/-! ### Names with humps -/

section Names

variable {d : ModelDocument} {m : LoadedModel} {t : TypeTree} {name : String}

/-- Names are joined to words that start with a capital and end in lowercase. -/
theorem humped_intercalate {parts : List String} (h : ∀ part ∈ parts, Humped part) :
    Humped ("And".intercalate parts) := by
  induction parts with
  | nil => exact ⟨by decide, by decide, by decide⟩
  | cons part parts ih =>
    rw [List.forall_mem_cons] at h
    cases parts with
    | nil =>
      rw [String.intercalate_singleton]
      exact h.1
    | cons second rest =>
      rw [String.intercalate_cons_cons]
      exact (h.1.append (by decide) (.inr (by decide))).append (ih h.2) (.inl (by simp))

/-- The name made for a type without type parameters has humps if the names of definitions do. -/
theorem TypeTree.humped_of_name? (hm : Loaded d m) (hhumped : d.Humped) (hover : t.Over m.model)
    (hclosed : t.hasParameter = false) {levels : Nat} (h : t.name? levels = some name) :
    Humped name := by
  refine name?_induction hm (fun kind => ?_) (fun definition hmem => ?_) (fun inner hinner => ?_)
    (fun element helement => ?_) (fun key value hkey hvalue => ?_)
    (fun first parts hfirst hparts => ?_) hover hclosed h
  · cases kind <;> decide +kernel
  · exact hhumped definition hmem
  · exact .append (by decide) hinner (.inl (by decide))
  · exact helement.append (by decide) (.inr (by decide))
  · have hstart := hkey.append (t := "To") (by decide) (.inr (by decide))
    exact (hstart.append hvalue (.inl (by simp))).append (by decide) (.inr (by decide))
  · have hstart := hfirst.append (t := "Of") (by decide) (.inr (by decide))
    exact hstart.append (humped_intercalate hparts) (.inl (by simp))

/-- The name of a unit can be read back from the name of its file. -/
theorem Walked.typeName_fileName {setup : Setup} {roots : List TypeId} {trees : List TypeTree}
    {s : State} {units : List Completed} (h : Walked setup m.model roots trees s units)
    (hm : Loaded d m) (hhumped : d.Humped) (hroots : ∀ id : Nat, id ∈ roots → id < m.model.size)
    {unit : Completed} (hunit : unit ∈ units) :
    typeName (fileName unit.header.name) = unit.header.name := by
  obtain ⟨i, hi⟩ := List.mem_iff_getElem?.mp hunit
  obtain ⟨-, t, ht, hunitOf⟩ := h.unit i unit hi
  obtain ⟨hover, hclosed⟩ := h.ground hm.wellFormed hroots (List.mem_of_getElem? ht)
  obtain ⟨name, hname, hheader⟩ := TypeTree.exists_name?_of_header? hunitOf.header
  rw [hheader]
  exact TypeScript.typeName_fileName (TypeTree.humped_of_name? hm hhumped hover hclosed hname)

end Names

end Declgen.Walk

namespace Declgen.Plan

open Model Document Walk Declgen.Units TypeScript Text

/-! ### Units that share a file -/

/-- Two units with the same folders whose names have the same words up to letter case. -/
def Alongside (unit other : Completed) : Prop :=
  folders unit.header.space = folders other.header.space ∧
    (words unit.header.name.toList).map lower = (words other.header.name.toList).map lower

variable {options : Options} {units : List Completed}

/-- The folders and the name of the file are the segments of a module path. -/
theorem segments_moduleOf (hlayout : options.layout = .perUnit) (unit : Completed) :
    segments (moduleOf options unit) =
      folders unit.header.space ++ [fileName unit.header.name] := by
  rw [moduleOf, hlayout, modulePath]
  refine splitAt_intercalate (by simp) fun part hpart => ?_
  rcases List.mem_append.mp hpart with hpart | hpart
  · exact not_mem_of_stem rfl (folders_stem hpart)
  · rw [List.mem_singleton.mp hpart]
    exact not_mem_of_stem rfl (fileName_stem _)

/-- With one file for each unit, modules are the same if folders and words are. -/
theorem moduleOf_eq_iff (hlayout : options.layout = .perUnit) {unit other : Completed} :
    moduleOf options unit = moduleOf options other ↔ Alongside unit other := by
  have hfileName : fileName unit.header.name = fileName other.header.name ↔
      (words unit.header.name.toList).map lower = (words other.header.name.toList).map lower := by
    rw [← kebab_eq_iff, fileName, fileName, String.ofList_inj]
  rw [Alongside, ← hfileName]
  constructor
  · intro h
    have hsegments := congrArg segments h
    rw [segments_moduleOf hlayout, segments_moduleOf hlayout] at hsegments
    obtain ⟨hfolders, hname⟩ := List.append_inj' hsegments rfl
    exact ⟨hfolders, List.singleton_inj.mp hname⟩
  · rintro ⟨hfolders, hname⟩
    rw [moduleOf, moduleOf, hlayout, modulePath, modulePath, hfolders, hname]

namespace Numbered

/-- A unit is listed in the file of its module and in no other. -/
theorem id_mem_iff (h : Numbered units) {unit : Completed} (hunit : unit ∈ units)
    {module : String} :
    unit.id ∈ (plannedFile options units module (unitsIn options units module)).units ↔
      moduleOf options unit = module := by
  rw [plannedFile, List.mem_map]
  constructor
  · rintro ⟨other, hother, hid⟩
    obtain ⟨hother, hmodule⟩ := mem_unitsIn.mp hother
    have hget := h.getElem?_id hother
    rw [hid, h.getElem?_id hunit] at hget
    rwa [Option.some.inj hget]
  · exact fun hmodule => ⟨unit, mem_unitsIn.mpr ⟨hunit, hmodule⟩, rfl⟩

/-- Two units are in one file if they go to the same module. -/
theorem same_file_iff (h : Numbered units) {unit other : Completed} (hunit : unit ∈ units)
    (hother : other ∈ units) :
    (∃ file ∈ files options units, unit.id ∈ file.units ∧ other.id ∈ file.units) ↔
      moduleOf options unit = moduleOf options other := by
  rw [h.files_eq]
  constructor
  · rintro ⟨file, hfile, hin, hin'⟩
    obtain ⟨module, -, rfl⟩ := List.mem_map.mp hfile
    exact ((h.id_mem_iff hunit).mp hin).trans ((h.id_mem_iff hother).mp hin').symm
  · intro hmodule
    have hmem := List.mem_eraseDups.mpr (List.mem_map_of_mem (f := moduleOf options) hunit)
    exact ⟨_, List.mem_map_of_mem hmem, (h.id_mem_iff hunit).mpr rfl,
      (h.id_mem_iff hother).mpr hmodule.symm⟩

/-- Every file lists a single unit exactly if no two units go to one module. -/
theorem single_files_iff (h : Numbered units) :
    (∀ file ∈ files options units, ∃ id, file.units = [id]) ↔
      (units.map (moduleOf options)).Nodup := by
  constructor
  · intro hfiles
    refine List.pairwise_map.mpr (h.pairwise.imp_of_mem fun {unit other} hunit hother hlt heq => ?_)
    obtain ⟨file, hfile, hin, hin'⟩ := (h.same_file_iff hunit hother).mpr heq
    obtain ⟨id, hid⟩ := hfiles file hfile
    rw [hid, List.mem_singleton] at hin hin'
    exact absurd (hin.trans hin'.symm) (Nat.ne_of_lt hlt)
  · intro hnodup file hfile
    rw [h.files_eq] at hfile
    obtain ⟨module, hmodule, rfl⟩ := List.mem_map.mp hfile
    obtain ⟨unit, hunit, rfl⟩ := List.mem_map.mp (List.mem_eraseDups.mp hmodule)
    have hinside : (unitsIn options units (moduleOf options unit)).Nodup := hnodup.of_map.filter _
    have hsingle : unitsIn options units (moduleOf options unit) = [unit] := by
      refine List.perm_singleton.mp ((List.perm_ext_iff_of_nodup hinside
        (List.nodup_singleton _)).mpr fun other => ?_)
      rw [mem_unitsIn, List.mem_singleton]
      constructor
      · rintro ⟨hother, heq⟩
        exact List.inj_on_of_nodup_map hnodup hother hunit heq
      · rintro rfl
        exact ⟨hunit, rfl⟩
    exact ⟨unit.id, by rw [plannedFile, hsingle, List.map_singleton]⟩

/-- There are as many files as units exactly if no two units go to one module. -/
theorem length_files_iff (h : Numbered units) :
    (files options units).length = units.length ↔ (units.map (moduleOf options)).Nodup := by
  rw [h.files_eq, List.length_map, ← length_eraseDups_iff, List.length_map]

end Numbered

/-- With one file for each declaration, two units are in one file if and only if they have the same
folders and their names have the same words up to letter case. If and only if there are no two such
units, each file lists a single unit, and only then there are as many files as units. There are
none if in the Pascal case of all names in the document capitals only start words. -/
theorem files_perUnit {d : ModelDocument} {m : LoadedModel} {options : Options}
    {roots : List TypeId} {g : Generation} (hload : load d = .ok m)
    (hlayout : options.layout = .perUnit)
    (hgenerate : generate ⟨options, fun _ => none⟩ .empty m.model roots = .ok g) :
    (∀ unit ∈ g.units, ∀ other ∈ g.units,
      (∃ file ∈ g.files, unit.id ∈ file.units ∧ other.id ∈ file.units) ↔ Alongside unit other) ∧
    ((∀ file ∈ g.files, ∃ id, file.units = [id]) ↔ g.units.Pairwise (¬ Alongside · ·)) ∧
    (g.files.length = g.units.length ↔ g.units.Pairwise (¬ Alongside · ·)) ∧
    (d.Humped → (∀ file ∈ g.files, ∃ id, file.units = [id]) ∧
      g.files.length = g.units.length) := by
  obtain ⟨units, hwalk, hpure⟩ := bind_eq_ok hgenerate
  cases hpure
  have hm := loaded hload
  obtain ⟨hroots, trees, s, hwalked⟩ := walked_of_walk hload (fun _ => rfl) hwalk
  have h := (hwalked.linked hm.wellFormed).numbered
  have hapart : (units.map (moduleOf options)).Nodup ↔ units.Pairwise (¬ Alongside · ·) := by
    rw [List.Nodup, List.pairwise_map]
    exact List.Pairwise.iff fun _ _ => not_congr (moduleOf_eq_iff hlayout)
  have hhumps (hhumped : d.Humped) : units.Pairwise (¬ Alongside · ·) := by
    -- The names are different and can be read back from the names of the files.
    refine (List.pairwise_map.mp hwalked.nodup_names).imp_of_mem
      fun {unit other} hunit hother hne halongside => hne ?_
    have hfileName : fileName unit.header.name = fileName other.header.name := by
      rw [fileName, fileName, kebab_eq_iff.mpr halongside.2]
    rw [← hwalked.typeName_fileName hm hhumped hroots hunit, hfileName,
      hwalked.typeName_fileName hm hhumped hroots hother]
  refine ⟨fun unit hunit other hother => (h.same_file_iff hunit hother).trans
    (moduleOf_eq_iff hlayout), h.single_files_iff.trans hapart, h.length_files_iff.trans hapart,
    fun hhumped => ?_⟩
  have hnodup := hapart.mpr (hhumps hhumped)
  exact ⟨h.single_files_iff.mpr hnodup, h.length_files_iff.mpr hnodup⟩

/-- Two records whose names have the same words. -/
def servers : ModelDocument :=
  ⟨[], [
    .complex ⟨"HTTPServer", none, [], none, []⟩,
    .complex ⟨"HttpServer", none, [], none, []⟩]⟩

/-- The model of these records. -/
def serversModel : LoadedModel :=
  ⟨⟨#[some (.complex ⟨"HTTPServer", none, [], none, []⟩),
      some (.complex ⟨"HttpServer", none, [], none, []⟩)]⟩,
    [], [("HTTPServer", 0), ("HttpServer", 1)]⟩

/-- The two records are declared in one and the same file. -/
theorem servers_share :
    ∃ m g, load servers = .ok m ∧
      generate ⟨{ layout := .perUnit }, fun _ => none⟩ .empty m.model [0, 1] = .ok g ∧
      g.units.map (·.header.name) = ["HTTPServer", "HttpServer"] ∧
      g.files.map (fun file => (file.path, file.units)) = [("http-server.ts", [0, 1])] := by
  have hgenerate :
      (generate ⟨{ layout := .perUnit }, fun _ => none⟩ .empty serversModel.model [0, 1]).map
        (fun g => (g.units.map (·.header.name), g.files.map fun file => (file.path, file.units))) =
      .ok (["HTTPServer", "HttpServer"], [("http-server.ts", [0, 1])]) := by
    decide +kernel
  obtain ⟨g, hgenerate, hfiles⟩ := exists_of_map_eq_ok hgenerate
  obtain ⟨hunits, hfiles⟩ := Prod.mk.inj hfiles
  exact ⟨serversModel, g, rfl, hgenerate, hunits, hfiles⟩

/-- The records that use each other are declared in a file each. -/
theorem files_perUnit_boxes :
    ∃ m g, load boxes = .ok m ∧
      generate ⟨{}, fun _ => none⟩ .empty m.model [1] = .ok g ∧
      g.files.map (·.path) = ["holder.ts", "box-of-integer.ts"] ∧
      (∀ file ∈ g.files, ∃ id, file.units = [id]) ∧ g.files.length = g.units.length := by
  have hgenerate : (generate ⟨{}, fun _ => none⟩ .empty boxesModel.model [1]).map
      (·.files.map (·.path)) = .ok ["holder.ts", "box-of-integer.ts"] := by
    decide +kernel
  obtain ⟨g, hgenerate, hpaths⟩ := exists_of_map_eq_ok hgenerate
  have hhumped : boxes.Humped := by decide +kernel
  obtain ⟨-, -, -, hfiles⟩ := files_perUnit load_boxes rfl hgenerate
  exact ⟨boxesModel, g, load_boxes, hgenerate, hpaths, hfiles hhumped⟩

end Declgen.Plan
