import Declgen.Proofs.Layout.Writer
import Declgen.Proofs.Plan.Files
import Declgen.Proofs.Plan.Imports
import Declgen.Proofs.Plan.Modules
import Declgen.Proofs.Walk.Closed
import Declgen.Proofs.Walk.Termination

/-!
# Files that stand by themselves

A file declares the units of its module and imports what these refer to: one line for every other
module, with the names that are needed from it. So whatever a declaration refers to is declared in
the same file or imported into it, once, and nothing is imported for no reason.
-/

namespace Declgen.Plan

open Declgen.Units TypeScript

/-! ### What a file consists of -/

section Definitions

variable (options : Options) (units : List Completed) (module : String)

/-- A unit of another module that some unit of the module refers to. -/
def Needed (target : Completed) : Prop :=
  moduleOf options target ≠ module ∧
    ∃ unit ∈ unitsIn options units module, target.id ∈ unit.body.references

/-- A line that imports from another module: it lists the names of the units there that the module
needs, in order. -/
structure ImportsFrom (other : String) (i : Import) : Prop where
  /-- The specifier leads from the module to the other one. -/
  source : i.source = relativeModule module other
  /-- Only types are imported. -/
  typeOnly : i.typeOnly = true
  /-- The names are in order. -/
  sorted : i.names.Pairwise (· < ·)
  /-- The names are those of the units that are needed. -/
  names : ∀ name, name ∈ i.names ↔ ∃ target ∈ units, Needed options units module target ∧
    moduleOf options target = other ∧ target.header.name = name

/-- The names that a module declares. -/
def declaredNames : List String :=
  (unitsIn options units module).map (·.body.declaration.name)

/-- The names by which a module refers to units, its own and others. -/
def usedNames : List String :=
  (unitsIn options units module).flatMap fun unit =>
    unit.body.declaration.nodes.filterMap fun node => node.link?.map (·.2)

/-- The file of a module, which imports from the modules `others` by the lines `imports`. -/
structure FileOf (others : List String) (imports : List Import) (file : PlannedFile) : Prop where
  /-- The path is the module with the extension of the language. -/
  path : file.path = module ++ ".ts"
  /-- The units are those that go to the module. -/
  ids : file.units = (unitsIn options units module).map (·.id)
  /-- The file declares something. -/
  ne_nil : unitsIn options units module ≠ []
  /-- After two lines and the imports stand the declarations. The line of an import lists its names
  and then the specifier. -/
  content : file.content =
    options.linter.directive ++ "\n" ++ marker ++ "\n" ++
      String.join (imports.map fun i =>
        "import type \x7b " ++ ", ".intercalate i.names ++ " \x7d from \"" ++ i.source ++ "\";\n") ++
      (if imports.isEmpty then "" else "\n") ++
      "\n".intercalate ((unitsIn options units module).map fun unit =>
        unit.body.declaration.toText options.indent)
  /-- Every declaration ends with a line break, so one blank line stands between two of them. -/
  line_break : ∀ unit ∈ unitsIn options units module,
    ∃ s, unit.body.declaration.toText options.indent = s ++ "\n"
  /-- No module is imported from twice. -/
  nodup_others : others.Nodup
  /-- The modules that are imported from are those with units that are needed. -/
  mem_others : ∀ other, other ∈ others ↔
    ∃ target ∈ units, Needed options units module target ∧ moduleOf options target = other
  /-- Each has its line. -/
  lines : List.Forall₂ (ImportsFrom options units module) others imports
  /-- The lines are in the order of their specifiers. -/
  sorted : (imports.map (·.source)).Pairwise (· < ·)
  /-- No name is declared or imported twice, or both declared and imported. -/
  nodup_names : (declaredNames options units module ++ imports.flatMap (·.names)).Nodup
  /-- All names that are used are declared or imported. -/
  used : ∀ name ∈ usedNames options units module,
    name ∈ declaredNames options units module ++ imports.flatMap (·.names)
  /-- All names that are imported are used. -/
  needed : ∀ name ∈ imports.flatMap (·.names), name ∈ usedNames options units module

end Definitions

/-! ### Units that refer to each other -/

/-- Units that are numbered in order, have different names and refer to each other only. -/
structure Linked (units : List Completed) : Prop where
  /-- The units are numbered in order. -/
  numbered : Numbered units
  /-- They have different names. -/
  nodup_names : (units.map (·.header.name)).Nodup
  /-- A unit declares its name. -/
  name : ∀ unit ∈ units, unit.body.declaration.name = unit.header.name
  /-- A reference has the number and the name of a unit. -/
  link : ∀ unit ∈ units, ∀ node ∈ unit.body.declaration.nodes, ∀ id name,
    node.link? = some (id, name) → ∃ target ∈ units, target.id = id ∧ target.header.name = name
  /-- The references of a unit are the other units in its declaration. -/
  references : ∀ unit ∈ units, ∀ id, id ∈ unit.body.references ↔
    id ≠ unit.id ∧ ∃ node ∈ unit.body.declaration.nodes, node.target? = some id

variable {options : Options} {units : List Completed} {module : String}

namespace Linked

/-- A unit is known by its number. -/
theorem eq_of_id (h : Linked units) {unit unit' : Completed} (hunit : unit ∈ units)
    (hunit' : unit' ∈ units) (hid : unit.id = unit'.id) : unit = unit' := by
  have hget := h.numbered.getElem?_id hunit
  rw [hid, h.numbered.getElem?_id hunit'] at hget
  exact (Option.some.inj hget).symm

/-- A unit is known by its name. -/
theorem eq_of_name (h : Linked units) {unit unit' : Completed} (hunit : unit ∈ units)
    (hunit' : unit' ∈ units) (hname : unit.header.name = unit'.header.name) : unit = unit' :=
  List.inj_on_of_nodup_map h.nodup_names hunit hunit' hname

/-- The imports of a file are collected from the units that are needed. -/
theorem mem_needed (h : Linked units) {pair : String × String} :
    pair ∈ ((unitsIn options units module).flatMap (·.body.references)).filterMap
        (importFor? options units module) ↔
      ∃ target ∈ units, Needed options units module target ∧
        pair = (relativeModule module (moduleOf options target), target.header.name) := by
  rw [List.mem_filterMap]
  constructor
  · rintro ⟨id, hid, hpair⟩
    obtain ⟨unit, hunit, hid⟩ := List.mem_flatMap.mp hid
    rw [importFor?, h.numbered.unitOf?_eq] at hpair
    cases htarget : units[id]? with
    | none =>
      rw [htarget] at hpair
      cases hpair
    | some target =>
      rw [htarget] at hpair
      have hmem := List.mem_of_getElem? htarget
      have hne : moduleOf options target ≠ module := fun heq => by simp [heq] at hpair
      rw [← h.numbered id target htarget] at hid
      exact ⟨target, hmem, ⟨hne, unit, hunit, hid⟩, by simpa [hne] using hpair.symm⟩
  · rintro ⟨target, htarget, ⟨hne, unit, hunit, hid⟩, rfl⟩
    refine ⟨target.id, List.mem_flatMap.mpr ⟨unit, hunit, hid⟩, ?_⟩
    rw [importFor?, h.numbered.unitOf?_eq, h.numbered.getElem?_id htarget]
    exact if_neg hne

/-- Modules that are needed have no dots in their paths. -/
theorem not_mem_of_needed {target : Completed} (htarget : Needed options units module target) :
    '.' ∉ (moduleOf options target).toList := by
  obtain ⟨hne, unit, hunit, -⟩ := htarget
  refine not_mem_modulePath (fun stem hstem => hne ?_) rfl (by decide) _ _
  rw [← (mem_unitsIn.mp hunit).2, moduleOf, moduleOf, hstem]
  rfl

/-- Different modules that are needed have different specifiers. -/
theorem eq_of_relativeModule {target target' : Completed}
    (htarget : Needed options units module target) (htarget' : Needed options units module target')
    (h : relativeModule module (moduleOf options target) =
      relativeModule module (moduleOf options target')) :
    moduleOf options target = moduleOf options target' :=
  relativeModule_injective (not_mem_of_needed htarget) (not_mem_of_needed htarget') h

/-- The imports of the file of a module. -/
def importLines (options : Options) (units : List Completed) (module : String) : List Import :=
  (importsOf options units module (unitsIn options units module)).entries.map
    fun (source, names) => ⟨source, names, true⟩

/-- A line comes from an entry of the set of imports, and it imports types only. -/
theorem mem_importLines {i : Import} (h : i ∈ importLines options units module) :
    (i.source, i.names) ∈
        (importsOf options units module (unitsIn options units module)).entries ∧
      i.typeOnly = true := by
  obtain ⟨⟨source, names⟩, hentry, rfl⟩ := List.mem_map.mp h
  exact ⟨hentry, rfl⟩

/-- The imports hold the specifier and the name of every unit that is needed. -/
theorem holds_importsOf :
    (importsOf options units module (unitsIn options units module)).Holds
      (((unitsIn options units module).flatMap (·.body.references)).filterMap
        (importFor? options units module)) := by
  have h := (ImportSet.holds_empty.foldl
    (((unitsIn options units module).flatMap (·.body.references)).filterMap
      (importFor? options units module))).sort
  rwa [List.nil_append] at h

/-- Every line lists a name. -/
theorem names_ne_nil {i : Import} (hi : i ∈ importLines options units module) : i.names ≠ [] := by
  obtain ⟨hentry, -⟩ := mem_importLines hi
  obtain ⟨name, hname⟩ := (holds_importsOf.modules i.source).mp (List.mem_map_of_mem hentry)
  exact List.ne_nil_of_mem ((holds_importsOf.names _ _ hentry name).mpr hname)

/-- The lines as they are written. -/
theorem map_toText_importLines :
    (importLines options units module).map (·.toText ++ "\n") =
      (importLines options units module).map fun i =>
        "import type \x7b " ++ ", ".intercalate i.names ++ " \x7d from \"" ++ i.source ++
          "\";\n" := by
  refine List.map_congr_left fun i hi => ?_
  rw [Import.toText_of_typeOnly (mem_importLines hi).2 (names_ne_nil hi), String.append_assoc]
  rfl

/-- Every line imports from a module that is needed. -/
theorem exists_importsFrom (h : Linked units) {i : Import}
    (hi : i ∈ importLines options units module) :
    ∃ other, ImportsFrom options units module other i ∧
      ∃ target ∈ units, Needed options units module target ∧ moduleOf options target = other := by
  obtain ⟨hentry, htypeOnly⟩ := mem_importLines hi
  obtain ⟨name, hname⟩ := (holds_importsOf.modules i.source).mp (List.mem_map_of_mem hentry)
  obtain ⟨target, htarget, hneeded, heq⟩ := h.mem_needed.mp hname
  have hsource : i.source = relativeModule module (moduleOf options target) := (Prod.mk.inj heq).1
  refine ⟨moduleOf options target, ⟨hsource, htypeOnly, holds_importsOf.sorted _ _ hentry,
    fun name' => ?_⟩, target, htarget, hneeded, rfl⟩
  rw [holds_importsOf.names _ _ hentry, h.mem_needed]
  constructor
  · rintro ⟨target', htarget', hneeded', heq'⟩
    obtain ⟨hsource', rfl⟩ := Prod.mk.inj heq'
    exact ⟨target', htarget', hneeded',
      eq_of_relativeModule hneeded' hneeded (hsource'.symm.trans hsource), rfl⟩
  · rintro ⟨target', htarget', hneeded', hmodule, rfl⟩
    exact ⟨target', htarget', hneeded', by rw [hsource, hmodule]⟩

/-- Every module that is needed has a line. -/
theorem exists_importLine (h : Linked units) {target : Completed} (htarget : target ∈ units)
    (hneeded : Needed options units module target) :
    ∃ i ∈ importLines options units module,
      i.source = relativeModule module (moduleOf options target) := by
  have hpair := h.mem_needed.mpr ⟨target, htarget, hneeded, rfl⟩
  obtain ⟨⟨source, names⟩, hentry, rfl⟩ :=
    List.mem_map.mp ((holds_importsOf.modules _).mpr ⟨_, hpair⟩)
  exact ⟨_, List.mem_map_of_mem hentry, rfl⟩

/-- The lines are in the order of their sources, without repetition. -/
theorem sorted_importLines :
    ((importLines options units module).map (·.source)).Pairwise (· < ·) := by
  rw [importLines, List.map_map]
  exact (ImportSet.holds_empty.foldl _).sorted_modules

/-- The names that are imported are those of the units that are needed. -/
theorem mem_imported (h : Linked units) {name : String} :
    name ∈ (importLines options units module).flatMap (·.names) ↔
      ∃ target ∈ units, Needed options units module target ∧ target.header.name = name := by
  rw [List.mem_flatMap]
  constructor
  · rintro ⟨i, hi, hname⟩
    obtain ⟨other, hfrom, -⟩ := h.exists_importsFrom hi
    obtain ⟨target, htarget, hneeded, -, rfl⟩ := (hfrom.names name).mp hname
    exact ⟨target, htarget, hneeded, rfl⟩
  · rintro ⟨target, htarget, hneeded, rfl⟩
    obtain ⟨i, hi, hsource⟩ := h.exists_importLine htarget hneeded
    obtain ⟨other, hfrom, target', htarget', hneeded', rfl⟩ := h.exists_importsFrom hi
    refine ⟨i, hi, (hfrom.names _).mpr ⟨target, htarget, hneeded, ?_, rfl⟩⟩
    exact eq_of_relativeModule hneeded hneeded' (hsource.symm.trans hfrom.source)

/-- The names that a module declares are those of its units. -/
theorem mem_declaredNames (h : Linked units) {name : String} :
    name ∈ declaredNames options units module ↔
      ∃ unit ∈ unitsIn options units module, unit.header.name = name := by
  rw [declaredNames, List.mem_map]
  refine exists_congr fun unit => and_congr_right fun hunit => ?_
  rw [h.name unit (mem_unitsIn.mp hunit).1]

/-- No name is declared or imported twice. -/
theorem nodup_declared_imported (h : Linked units) :
    (declaredNames options units module ++
      (importLines options units module).flatMap (·.names)).Nodup := by
  refine List.nodup_append'.mpr ⟨?_, List.nodup_flatMap.mpr ⟨fun i hi => ?_, ?_⟩, ?_⟩
  · have hdeclared : declaredNames options units module =
        (unitsIn options units module).map (·.header.name) :=
      List.map_congr_left fun unit hunit => h.name unit (mem_unitsIn.mp hunit).1
    rw [hdeclared]
    exact h.nodup_names.sublist (List.filter_sublist.map _)
  · obtain ⟨other, hfrom, -⟩ := h.exists_importsFrom hi
    exact hfrom.sorted.imp fun hlt => ne_of_lt hlt
  · refine (List.pairwise_map.mp sorted_importLines).imp_of_mem fun {i i'} hi hi' hlt => ?_
    intro name hname hname'
    obtain ⟨other, hfrom, -⟩ := h.exists_importsFrom hi
    obtain ⟨other', hfrom', -⟩ := h.exists_importsFrom hi'
    obtain ⟨target, htarget, -, rfl, rfl⟩ := (hfrom.names name).mp hname
    obtain ⟨target', htarget', -, rfl, heq⟩ := (hfrom'.names _).mp hname'
    rw [h.eq_of_name htarget' htarget heq] at hfrom'
    exact absurd (hfrom.source.trans hfrom'.source.symm) (ne_of_lt hlt)
  · intro name hdeclared himported
    obtain ⟨unit, hunit, rfl⟩ := h.mem_declaredNames.mp hdeclared
    obtain ⟨target, htarget, ⟨hne, -⟩, heq⟩ := h.mem_imported.mp himported
    obtain ⟨hunit, hmodule⟩ := mem_unitsIn.mp hunit
    rw [h.eq_of_name htarget hunit heq] at hne
    exact hne hmodule

/-- Every name that is used is declared or imported. -/
theorem mem_of_used (h : Linked units) {name : String}
    (hname : name ∈ usedNames options units module) :
    name ∈ declaredNames options units module ++
      (importLines options units module).flatMap (·.names) := by
  obtain ⟨unit, hunit, hname⟩ := List.mem_flatMap.mp hname
  obtain ⟨node, hnode, hshown⟩ := List.mem_filterMap.mp hname
  obtain ⟨⟨id, name⟩, hlink, rfl⟩ := Option.map_eq_some_iff.mp hshown
  obtain ⟨hmem, hmodule⟩ := mem_unitsIn.mp hunit
  obtain ⟨target, htarget, rfl, rfl⟩ := h.link unit hmem node hnode id name hlink
  by_cases hother : moduleOf options target = module
  · exact List.mem_append_left _
      (h.mem_declaredNames.mpr ⟨target, mem_unitsIn.mpr ⟨htarget, hother⟩, rfl⟩)
  · have hself : target.id ≠ unit.id := fun heq =>
      hother (h.eq_of_id htarget hmem heq ▸ hmodule)
    have htarget? : node.target? = some target.id := by
      rw [Expr.target?_eq_map_link?, hlink]
      rfl
    have hreference := (h.references unit hmem target.id).mpr ⟨hself, node, hnode, htarget?⟩
    exact List.mem_append_right _
      (h.mem_imported.mpr ⟨target, htarget, ⟨hother, unit, hunit, hreference⟩, rfl⟩)

/-- Every name that is imported is used. -/
theorem mem_usedNames (h : Linked units) {name : String}
    (hname : name ∈ (importLines options units module).flatMap (·.names)) :
    name ∈ usedNames options units module := by
  obtain ⟨target, htarget, ⟨-, unit, hunit, hreference⟩, rfl⟩ := h.mem_imported.mp hname
  have hmem := (mem_unitsIn.mp hunit).1
  obtain ⟨-, node, hnode, htarget?⟩ := (h.references unit hmem _).mp hreference
  rw [Expr.target?_eq_map_link?] at htarget?
  obtain ⟨⟨id, name⟩, hlink, rfl⟩ := Option.map_eq_some_iff.mp htarget?
  obtain ⟨target', htarget', hid, rfl⟩ := h.link unit hmem node hnode _ name hlink
  rw [← h.eq_of_id htarget' htarget hid]
  exact List.mem_flatMap.mpr ⟨unit, hunit, List.mem_filterMap.mpr ⟨node, hnode, by rw [hlink]; rfl⟩⟩

/-- The lines are those of the modules that are needed, one for each. -/
theorem exists_others (h : Linked units) (options : Options) (module : String) :
    ∃ others : List String, others.Nodup ∧
    (∀ other, other ∈ others ↔
      ∃ target ∈ units, Needed options units module target ∧ moduleOf options target = other) ∧
    List.Forall₂ (ImportsFrom options units module) others (importLines options units module) := by
  obtain ⟨others, hothers⟩ := exists_forall₂ fun i
    (hi : i ∈ importLines options units module) => h.exists_importsFrom hi
  have hlines : List.Forall₂ (ImportsFrom options units module) others
      (importLines options units module) := hothers.imp fun _ _ hfrom => hfrom.1
  have hsources : others.map (relativeModule module) =
      (importLines options units module).map (·.source) :=
    map_eq_map_of_forall₂ (hlines.imp fun _ _ hfrom => hfrom.source.symm)
  have hnodup : (others.map (relativeModule module)).Nodup :=
    hsources ▸ sorted_importLines.imp fun hlt => ne_of_lt hlt
  refine ⟨others, hnodup.of_map, fun other => ⟨fun hother => ?_, ?_⟩, hlines⟩
  · obtain ⟨i, -, -, hneeded⟩ := exists_mem_of_forall₂ hothers hother
    exact hneeded
  · rintro ⟨target, htarget, hneeded, rfl⟩
    obtain ⟨i, hi, hsource⟩ := h.exists_importLine htarget hneeded
    obtain ⟨other, hother, hfrom, target', -, hneeded', rfl⟩ :=
      exists_mem_of_forall₂ hothers.flip hi
    rwa [eq_of_relativeModule hneeded hneeded' (hsource.symm.trans hfrom.source)]

/-- A file begins with two lines and its imports and goes on with its declarations. -/
theorem content_plannedFile (hne : unitsIn options units module ≠ []) :
    (plannedFile options units module (unitsIn options units module)).content =
      options.linter.directive ++ "\n" ++ marker ++ "\n" ++
        String.join ((importLines options units module).map fun i =>
          "import type \x7b " ++ ", ".intercalate i.names ++ " \x7d from \"" ++ i.source ++
            "\";\n") ++
        (if (importLines options units module).isEmpty then "" else "\n") ++
        "\n".intercalate ((unitsIn options units module).map fun unit =>
          unit.body.declaration.toText options.indent) := by
  have hbody : ((unitsIn options units module).map fun unit =>
      unit.body.declaration.toFragments).isEmpty = false := by simpa using hne
  have hheader : String.join ([options.linter.directive, marker].map (· ++ "\n")) =
      options.linter.directive ++ "\n" ++ marker ++ "\n" := by
    simp [String.append_assoc]
  rw [plannedFile, SourceFile.toText_eq, ← map_toText_importLines]
  change String.join ([options.linter.directive, marker].map (· ++ "\n")) ++
      String.join ((importLines options units module).map (·.toText ++ "\n")) ++
      (if (importLines options units module).isEmpty || ((unitsIn options units module).map
        fun unit => unit.body.declaration.toFragments).isEmpty then "" else "\n") ++
      "\n".intercalate (((unitsIn options units module).map
        fun unit => unit.body.declaration.toFragments).map (Layout.layOut options.indent)) = _
  rw [hheader, hbody, Bool.or_false, List.map_map]
  rfl

/-- Every file is that of a module and stands by itself. -/
theorem fileOf (h : Linked units) {file : PlannedFile} (hfile : file ∈ files options units) :
    ∃ module others imports, FileOf options units module others imports file := by
  rw [h.numbered.files_eq] at hfile
  obtain ⟨module, hmodule, rfl⟩ := List.mem_map.mp hfile
  obtain ⟨unit, hunit, rfl⟩ := List.mem_map.mp (List.mem_eraseDups.mp hmodule)
  have hne : unitsIn options units (moduleOf options unit) ≠ [] :=
    List.ne_nil_of_mem (mem_unitsIn.mpr ⟨hunit, rfl⟩)
  obtain ⟨others, hnodup, hmem, hlines⟩ := h.exists_others options (moduleOf options unit)
  exact ⟨moduleOf options unit, others, importLines options units (moduleOf options unit), {
    path := rfl
    ids := rfl
    ne_nil := hne
    content := content_plannedFile hne
    line_break := fun unit _ => unit.body.declaration.exists_toText options.indent
    nodup_others := hnodup
    mem_others := hmem
    lines := hlines
    sorted := sorted_importLines
    nodup_names := h.nodup_declared_imported
    used := fun _ hname => h.mem_of_used hname
    needed := fun _ hname => h.mem_usedNames hname }⟩

end Linked

end Declgen.Plan

namespace Declgen.Walk

open Model Declgen.Units Plan TypeScript

/-- The units of a walk refer to each other. -/
theorem Walked.linked {setup : Setup} {a : Arena} {roots : List TypeId}
    {trees : List TypeTree} {s : State} {units : List Completed}
    (h : Walked setup a roots trees s units) (ha : a.WellFormed) : Linked units := by
  have hunitOf {unit : Completed} (hunit : unit ∈ units) :
      ∃ t, t.Over a ∧ UnitOf setup.options a s.progress.units t unit := by
    obtain ⟨i, hi⟩ := List.mem_iff_getElem?.mp hunit
    obtain ⟨-, t, ht, hunitOf⟩ := h.unit i unit hi
    exact ⟨t, h.tree_over (List.mem_of_getElem? ht), hunitOf⟩
  have hnumbered : Numbered units := fun i unit hi => (h.unit i unit hi).1
  have hknown {key name : String} {id : UnitId}
      (hknown : known s.progress.units key = some (id, name)) :
      ∃ target ∈ units, target.id = id ∧ target.header.name = name := by
    obtain ⟨target, htarget, -, hname⟩ := h.exists_unit hknown
    exact ⟨target, List.mem_of_getElem? htarget, hnumbered id target htarget, hname⟩
  refine ⟨hnumbered, h.nodup_names, fun unit hunit => ?_,
    fun unit hunit node hnode id name hlink => ?_, fun unit hunit id => ?_⟩
  · obtain ⟨t, -, hunitOf⟩ := hunitOf hunit
    exact TypeTree.name_declaration? hunitOf.declaration
  · obtain ⟨t, ht, hunitOf⟩ := hunitOf hunit
    have hlinks := links_declaration? ha ht hunitOf.header hunitOf.declaration node hnode
    cases node with
    | reference =>
      cases hlink
      obtain ⟨t, -, -, -, hkey⟩ := hlinks
      exact hknown hkey
    | genericReference =>
      cases hlink
      obtain ⟨t, -, -, -, hkey⟩ := hlinks
      exact hknown hkey
    | _ => cases hlink
  · obtain ⟨t, -, hunitOf⟩ := hunitOf hunit
    rw [hunitOf.references, List.mem_filter, Declaration.mem_references_iff, bne_iff_ne, and_comm]

end Declgen.Walk

namespace Declgen.Plan

open Model Document Walk Declgen.Units TypeScript

/-- The plan for the units of a walk of a loaded document is complete, and its files stand by
themselves. The units are numbered in order and each is listed in one file. Different files have
different paths, and they are in the order of their first units. Every file declares the units of
its module and imports exactly what these refer to in other modules. -/
theorem files_selfContained {d : ModelDocument} {m : LoadedModel} {options : Options}
    {roots : List TypeId} {units : List Completed} (hload : load d = .ok m)
    (hwalk : walk ⟨options, fun _ => none⟩ .empty m.model roots = .ok units) :
    units.map (·.id) = List.range units.length ∧
      ((files options units).flatMap (·.units)).Perm (units.map (·.id)) ∧
      ((files options units).map (·.path)).Nodup ∧
      (files options units).Pairwise (fun file file' =>
        ∃ id id', file.units.head? = some id ∧ file'.units.head? = some id' ∧ id < id') ∧
      ∀ file ∈ files options units, ∃ module others imports,
        FileOf options units module others imports file := by
  obtain ⟨-, trees, s, hwalked⟩ := walked_of_walk hload (fun _ => rfl) hwalk
  have hlinked := hwalked.linked (loaded hload).wellFormed
  exact ⟨hlinked.numbered.map_id, hlinked.numbered.perm_units, hlinked.numbered.nodup_paths,
    hlinked.numbered.pairwise_files, fun file hfile => hlinked.fileOf hfile⟩

/-- A record in a namespace, with an enumeration outside of it. -/
def shop : ModelDocument :=
  ⟨[], [
    .complex ⟨"Order", some "Shop", [], none, [⟨"state", .ref "State", false, false, none⟩]⟩,
    .enum ⟨"State", none, [⟨"Open", .text "Open"⟩]⟩]⟩

/-- The model of these types. -/
def shopModel : LoadedModel :=
  ⟨⟨#[some (.complex ⟨"Order", some "Shop", [], none, [⟨"state", 1, false, false, none⟩]⟩),
      some (.enum ⟨"State", none, [⟨"Open", .text "Open"⟩]⟩)]⟩,
    [], [("Shop.Order", 0), ("State", 1)]⟩

/-- The units of these types. -/
def shopUnits : List Completed :=
  [⟨0, "Shop.Order", ⟨"Order", some "Shop", []⟩,
      ⟨.alias "Order" [] (.object [⟨"state", .reference 1 "State", false, none⟩]), [1]⟩⟩,
    ⟨1, "State", ⟨"State", none, []⟩, ⟨.alias "State" [] (.literal (.text "Open")), []⟩⟩]

/-- The record is declared in the file of its namespace and imports the enumeration. -/
theorem files_selfContained_shop :
    ∃ m units, load shop = .ok m ∧
      walk ⟨{ layout := .perNamespace }, fun _ => none⟩ .empty m.model [0] = .ok units ∧
      (files { layout := .perNamespace } units).map (·.path) = ["shop.ts", "index.ts"] ∧
      units.map (·.id) = List.range units.length ∧
      ∀ file ∈ files { layout := .perNamespace } units, ∃ module others imports,
        FileOf { layout := .perNamespace } units module others imports file := by
  have hload : load shop = .ok shopModel := rfl
  have hwalk : walk ⟨{ layout := .perNamespace }, fun _ => none⟩ .empty shopModel.model [0] =
      .ok shopUnits := by
    decide +kernel
  obtain ⟨hids, -, -, -, hfiles⟩ := files_selfContained hload hwalk
  exact ⟨shopModel, shopUnits, hload, hwalk, by decide +kernel, hids, hfiles⟩

end Declgen.Plan
