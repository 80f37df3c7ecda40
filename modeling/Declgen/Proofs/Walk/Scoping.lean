import Declgen.Proofs.Walk.Closed
import Declgen.Proofs.Walk.Identifiers

/-!
# What names mean where they stand

Declarations and type parameters are both written as bare names, and where a declaration has a type
parameter, its name means this parameter and no declaration. Names of declarations are made from
those of definitions, type parameters are taken as they are given, and nothing keeps them apart. So
a name means what it was written for unless it is the name of a declaration and a type parameter of
the declaration in which it stands.
-/

namespace Declgen.Document

open Walk TypeScript

/-- No type parameter has the name that is declared for a definition or, where generic records are
not preserved, starts like the name that is made for an instantiation. -/
structure ModelDocument.ParametersApart (d : ModelDocument) (style : GenericStyle) : Prop where
  /-- No type parameter has the name of a definition. -/
  definitions : ∀ c, .complex c ∈ d.definitions → ∀ name ∈ c.typeParams,
    ∀ definition ∈ d.definitions, name ≠ typeName definition.name
  /-- No type parameter starts like the name of an instantiation. -/
  instantiations : style = .monomorphize → ∀ c, .complex c ∈ d.definitions →
    ∀ name ∈ c.typeParams, ∀ c', .complex c' ∈ d.definitions →
      ¬ (pascalName c'.name ++ "Of").toList <+: name.toList

end Declgen.Document

namespace Declgen.Walk

open Model Document TypeScript Declgen.Units

/-! ### Resolving names -/

/-- What a name can mean. -/
inductive Referent where
  /-- A type parameter of the declaration in which the name stands. -/
  | parameter (name : String)
  /-- A unit. -/
  | unit (id : UnitId)
deriving DecidableEq

/-- What a name means in the declaration of a unit: a type parameter of this declaration, and else
the unit with this name. -/
def resolve (units : List Completed) (within : Completed) (name : String) : Option Referent :=
  if within.header.typeParams.contains name then some (.parameter name)
  else (units.find? fun unit => unit.header.name == name).map fun unit => .unit unit.id

section Resolving

variable {units : List Completed} {within : Completed} {name : String}

/-- A name that is a type parameter of the declaration means this parameter. -/
theorem resolve_parameter (h : name ∈ within.header.typeParams) :
    resolve units within name = some (.parameter name) := by
  rw [resolve, if_pos (List.contains_iff_mem.mpr h)]

/-- Where names differ, the name of a unit means this unit unless it is captured. -/
theorem resolve_unit_iff (hnames : (units.map fun unit => unit.header.name).Nodup)
    {unit : Completed} (hunit : unit ∈ units) :
    resolve units within unit.header.name = some (.unit unit.id) ↔
      unit.header.name ∉ within.header.typeParams := by
  by_cases hcaptured : unit.header.name ∈ within.header.typeParams
  · rw [resolve_parameter hcaptured]
    simp [hcaptured]
  · rw [resolve, if_neg (by simpa using hcaptured), find?_of_nodup hnames hunit]
    simp [hcaptured]

end Resolving

/-! ### Names in declarations -/

section Walks

variable {d : ModelDocument} {m : LoadedModel} {setup : Setup} {roots : List TypeId}
  {units : List Completed} {trees : List TypeTree} {s : State}

/-- A reference is written as the name of the unit that it is written for. -/
theorem Walked.exists_target (h : Walked setup m.model roots trees s units) (hm : Loaded d m)
    {unit : Completed} (hunit : unit ∈ units) {node : Expr}
    (hnode : node ∈ unit.body.declaration.nodes) {target : UnitId} {name : String}
    (hlink : node.link? = some (target, name)) :
    ∃ other ∈ units, other.id = target ∧ other.header.name = name := by
  obtain ⟨i, hi⟩ := List.mem_iff_getElem?.mp hunit
  obtain ⟨-, t, ht, hunitOf⟩ := h.unit i unit hi
  have hlinks := links_declaration? hm.wellFormed (h.tree_over (List.mem_of_getElem? ht))
    hunitOf.header hunitOf.declaration node hnode
  obtain ⟨key, hknown⟩ : ∃ key, known s.progress.units key = some (target, name) := by
    cases node with
    | reference unit name =>
      cases hlink
      obtain ⟨u, -, -, -, hknown⟩ := hlinks
      exact ⟨_, hknown⟩
    | genericReference unit name arguments =>
      cases hlink
      obtain ⟨u, -, -, -, hknown⟩ := hlinks
      exact ⟨_, hknown⟩
    | _ => cases hlink
  obtain ⟨other, hother, -, hname⟩ := h.exists_unit hknown
  exact ⟨other, List.mem_of_getElem? hother, (h.unit target other hother).1, hname⟩

/-- A type parameter in a declaration is one of the unit. -/
theorem Walked.mem_typeParams (h : Walked setup m.model roots trees s units) (hm : Loaded d m)
    {unit : Completed} (hunit : unit ∈ units) {name : String}
    (hnode : .parameter name ∈ unit.body.declaration.nodes) : name ∈ unit.header.typeParams := by
  obtain ⟨i, hi⟩ := List.mem_iff_getElem?.mp hunit
  obtain ⟨-, t, ht, hunitOf⟩ := h.unit i unit hi
  exact links_declaration? hm.wellFormed (h.tree_over (List.mem_of_getElem? ht))
    hunitOf.header hunitOf.declaration _ hnode

/-- A unit with type parameters is one of a generic record of the model. -/
theorem Walked.exists_generic (h : Walked setup m.model roots trees s units) {unit : Completed}
    (hunit : unit ∈ units) (hparams : unit.header.typeParams ≠ []) :
    ∃ (id : TypeId) (c : ComplexType), m.model.get id = .ok (.complex c) ∧ c.isGeneric = true ∧
      unit.header.name = typeName c.name ∧ unit.header.typeParams = c.typeParams := by
  obtain ⟨id, -, -, -, hheader⟩ := h.exists_header hunit
  have hfor := headerFor_of_header hheader
  rcases hfor.exists_get with ⟨e, he⟩ | ⟨c, hc⟩ | ⟨definition, arguments, c, hget, hc⟩
  · rw [hfor.of_enum he] at hparams
    exact absurd rfl hparams
  · have hmodel := h.get_model hc rfl
    have hname : unit.header.name = typeName c.name := by rw [hfor.of_record hc]
    have hown : unit.header.typeParams = c.typeParams := by rw [hfor.of_record hc]
    rw [hown] at hparams
    exact ⟨id, c, hmodel, by simpa [ComplexType.isGeneric] using hparams, hname, hown⟩
  · obtain ⟨parts, -, heq⟩ := hfor.of_instantiation hget hc
    rw [heq] at hparams
    exact absurd rfl hparams

/-- What a unit may be called: like a definition or, if generic records are not preserved, like an
instantiation of a generic record. -/
theorem Walked.exists_source_name (h : Walked setup m.model roots trees s units)
    (hm : Loaded d m) {unit : Completed} (hunit : unit ∈ units) :
    (∃ definition ∈ d.definitions, unit.header.name = typeName definition.name) ∨
      setup.options.generics = .monomorphize ∧ ∃ c, .complex c ∈ d.definitions ∧
        ∃ rest, unit.header.name = pascalName c.name ++ "Of" ++ rest := by
  obtain ⟨id, hid, htree, -, hheader⟩ := h.exists_header hunit
  have hfor := headerFor_of_header hheader
  have hgraph := h.sound.graph
  rcases hfor.exists_get with ⟨e, he⟩ | ⟨c, hc⟩ | ⟨definition, arguments, c, hget, hc⟩
  · have hmodel := h.get_model he rfl
    have hname : unit.header.name = typeName e.name := by rw [hfor.of_enum he]
    exact .inl ⟨.enum e, hm.mem_of_enum hmodel, hname⟩
  · have hmodel := h.get_model hc rfl
    obtain ⟨c', hmem, hsource, -⟩ := hm.exists_complex hmodel
    have hname : unit.header.name = typeName c.name := by rw [hfor.of_record hc]
    rw [← hsource] at hname
    exact .inl ⟨.complex c', hmem, hname⟩
  · obtain ⟨parts, -, heq⟩ := hfor.of_instantiation hget hc
    rw [h.model] at hc
    obtain ⟨c', hmem, hname, -⟩ := hm.exists_complex hc
    refine .inr ⟨?_, c', hmem, "And".intercalate parts, ?_⟩
    · cases hstyle : setup.options.generics with
      | monomorphize => rfl
      | preserve =>
        have hreached := h.sound.reached _ htree
        rw [hstyle] at hreached
        rw [hgraph.tree_instantiation hget (h.model ▸ hc)] at hreached
        rcases hreached.definition with ⟨_, _, heq⟩ | ⟨_, _, heq⟩ <;> cases heq
    · simp only [heq, hname]
      exact safeName_of_mem (by simp)

/-- How the names in the declaration of a unit are read. -/
structure Scoped (a : Arena) (units : List Completed) (unit : Completed) : Prop where
  /-- Only generic records give units with type parameters, and these are taken as they are. -/
  generic : unit.header.typeParams ≠ [] → ∃ (id : TypeId) (c : ComplexType),
    a.get id = .ok (.complex c) ∧ c.isGeneric = true ∧ unit.header.name = typeName c.name ∧
      unit.header.typeParams = c.typeParams
  /-- A type parameter means itself. -/
  parameter : ∀ name, .parameter name ∈ unit.body.declaration.nodes →
    resolve units unit name = some (.parameter name)
  /-- A reference means its unit unless its name is a type parameter. -/
  reference : ∀ node ∈ unit.body.declaration.nodes, ∀ target name,
    node.link? = some (target, name) →
    (resolve units unit name = some (.unit target) ↔ name ∉ unit.header.typeParams)
  /-- So does the name of the unit itself. -/
  own : resolve units unit unit.header.name = some (.unit unit.id) ↔
    unit.header.name ∉ unit.header.typeParams

/-- In the units of a walk of a loaded document names are read in this way. -/
theorem Walked.scoped (h : Walked setup m.model roots trees s units) (hm : Loaded d m)
    {unit : Completed} (hunit : unit ∈ units) : Scoped m.model units unit where
  generic := h.exists_generic hunit
  parameter name hnode := resolve_parameter (h.mem_typeParams hm hunit hnode)
  reference node hnode target name hlink := by
    obtain ⟨other, hother, rfl, rfl⟩ := h.exists_target hm hunit hnode hlink
    exact resolve_unit_iff h.nodup_names hother
  own := resolve_unit_iff h.nodup_names hunit

/-- Where type parameters are told from names of declarations, none of them is the name of a
unit. -/
theorem Walked.notMem_typeParams (h : Walked setup m.model roots trees s units) (hm : Loaded d m)
    (hapart : d.ParametersApart setup.options.generics) {unit other : Completed}
    (hunit : unit ∈ units) (hother : other ∈ units) :
    other.header.name ∉ unit.header.typeParams := by
  intro hmem
  obtain ⟨id, c, hc, -, -, hparams⟩ := h.exists_generic hunit (List.ne_nil_of_mem hmem)
  obtain ⟨c', hc', -, hparams'⟩ := hm.exists_complex hc
  rw [hparams, ← hparams'] at hmem
  rcases h.exists_source_name hm hother with
    ⟨definition, hdefinition, hname⟩ | ⟨hstyle, c'', hc'', rest, hname⟩
  · exact hapart.definitions c' hc' _ hmem definition hdefinition hname
  · refine hapart.instantiations hstyle c' hc' _ hmem c'' hc'' ?_
    rw [hname, @String.toList_append (pascalName c''.name ++ "Of")]
    exact List.prefix_append _ _

/-- In a hookless walk of a loaded document every name means what it was written for unless a type
parameter captures it. Where type parameters are told from names of declarations, no type parameter
has the name of a unit, and so every name means what it was written for. -/
theorem walk_scoping (hload : load d = .ok m) (hhook : ∀ type, setup.hook type = none)
    (hwalk : walk setup .empty m.model roots = .ok units) :
    (∀ unit ∈ units, Scoped m.model units unit) ∧
    (d.ParametersApart setup.options.generics → ∀ unit ∈ units,
      (∀ other ∈ units, other.header.name ∉ unit.header.typeParams) ∧
      resolve units unit unit.header.name = some (.unit unit.id) ∧
      (∀ name, .parameter name ∈ unit.body.declaration.nodes →
        resolve units unit name = some (.parameter name)) ∧
      ∀ node ∈ unit.body.declaration.nodes, ∀ target name,
        node.link? = some (target, name) → resolve units unit name = some (.unit target)) := by
  have hm := loaded hload
  obtain ⟨-, trees, s, h⟩ := walked_of_walk hload hhook hwalk
  refine ⟨fun unit hunit => h.scoped hm hunit, fun hapart unit hunit => ?_⟩
  have hscoped := h.scoped hm hunit
  have hnames (other : Completed) (hother : other ∈ units) :
      other.header.name ∉ unit.header.typeParams := h.notMem_typeParams hm hapart hunit hother
  refine ⟨hnames, hscoped.own.mpr (hnames unit hunit), hscoped.parameter,
    fun node hnode target name hlink => (hscoped.reference node hnode target name hlink).mpr ?_⟩
  obtain ⟨other, hother, -, rfl⟩ := h.exists_target hm hunit hnode hlink
  exact hnames other hother

end Walks

/-- The type parameter of the generic record is told from all declared names. -/
theorem walk_scoping_boxes :
    load boxes = .ok boxesModel ∧ boxes.ParametersApart .preserve ∧
      ∃ holder box,
        walk ⟨{ generics := .preserve }, fun _ => none⟩ .empty boxesModel.model [1] =
          .ok [holder, box] ∧
        box.header.typeParams = ["T"] ∧
        resolve [holder, box] box "T" = some (.parameter "T") ∧
        resolve [holder, box] box "Box" = some (.unit box.id) ∧
        resolve [holder, box] holder "Box" = some (.unit box.id) := by
  have hapart : boxes.ParametersApart .preserve := by
    refine ⟨fun c hc => ?_, fun hstyle => by cases hstyle⟩
    simp only [boxes, List.mem_cons, List.not_mem_nil, or_false, Definition.complex.injEq] at hc
    rcases hc with rfl | rfl <;> decide +kernel
  have hwalk : walk ⟨{ generics := .preserve }, fun _ => none⟩ .empty boxesModel.model [1] =
      .ok [⟨0, "Holder", ⟨"Holder", none, []⟩,
          ⟨.alias "Holder" [] (.object [⟨"box", .genericReference 1 "Box" [.keyword .number],
            false, none⟩]), [1]⟩⟩,
        ⟨1, "Box\x601", ⟨"Box", none, ["T"]⟩,
          ⟨.alias "Box" ["T"] (.object [⟨"value", .parameter "T", false, none⟩]), []⟩⟩] := by
    decide +kernel
  obtain ⟨-, hmeans⟩ := walk_scoping load_boxes (fun _ => rfl) hwalk
  obtain ⟨-, -, -, hholder⟩ := hmeans hapart _ List.mem_cons_self
  obtain ⟨-, hown, hparameter, -⟩ := hmeans hapart _ (List.mem_cons_of_mem _ List.mem_cons_self)
  have hnode : .parameter "T" ∈ Declaration.nodes (.alias "Box" ["T"] (.object
      [⟨"value", .parameter "T", false, none⟩])) := by decide
  have hlink : .genericReference 1 "Box" [.keyword .number] ∈ Declaration.nodes (.alias "Holder" []
      (.object [⟨"box", .genericReference 1 "Box" [.keyword .number], false, none⟩])) := by decide
  exact ⟨load_boxes, hapart, _, _, hwalk, rfl, hparameter "T" hnode, hown,
    hholder _ hlink 1 "Box" rfl⟩

/-! ### A captured name -/

/-- A record, a generic record with a type parameter of the same name that refers to it too, and a
record that uses the generic one. -/
def namesakes : ModelDocument :=
  ⟨[], [
    .complex ⟨"User", none, [], none, []⟩,
    .complex ⟨"Box", none, ["User"], none,
      [⟨"value", .parameter "User", false, false, none⟩,
        ⟨"owner", .ref "User", false, false, none⟩]⟩,
    .complex ⟨"Holder", none, [], none,
      [⟨"box", .generic "Box" [.primitive .integer], false, false, none⟩]⟩]⟩

/-- The model of these records. -/
def namesakesModel : LoadedModel :=
  ⟨⟨#[some (.complex ⟨"User", none, [], none, []⟩),
      some (.complex ⟨"Box", none, ["User"], none,
        [⟨"value", 3, false, false, none⟩, ⟨"owner", 0, false, false, none⟩]⟩),
      some (.complex ⟨"Holder", none, [], none, [⟨"box", 5, false, false, none⟩]⟩),
      some (.parameter "User"), some (.primitive .integer), some (.instantiation 1 [4])]⟩,
    [], [("User", 0), ("Box", 1), ("Holder", 2)]⟩

/-- The owner of a box is a user, but where the type of a box is declared, the name of users means
its type parameter. -/
theorem namesakes_captured :
    load namesakes = .ok namesakesModel ∧
      ∃ holder box user,
        walk ⟨{ generics := .preserve }, fun _ => none⟩ .empty namesakesModel.model [2] =
          .ok [holder, box, user] ∧
        box.body.declaration.toText default =
          "export type Box<User> = \x7b\n    value: User;\n    owner: User;\n\x7d;\n" ∧
        user.body.declaration.toText default = "export type User = \x7b\x7d;\n" ∧
        .reference user.id "User" ∈ box.body.declaration.nodes ∧ user.header.name = "User" ∧
        "User" ∈ box.header.typeParams ∧
        resolve [holder, box, user] box "User" = some (.parameter "User") := by
  have hwalk : walk ⟨{ generics := .preserve }, fun _ => none⟩ .empty namesakesModel.model [2] =
      .ok [⟨0, "Holder", ⟨"Holder", none, []⟩,
          ⟨.alias "Holder" [] (.object [⟨"box", .genericReference 1 "Box" [.keyword .number],
            false, none⟩]), [1]⟩⟩,
        ⟨1, "Box\x601", ⟨"Box", none, ["User"]⟩,
          ⟨.alias "Box" ["User"] (.object [⟨"value", .parameter "User", false, none⟩,
            ⟨"owner", .reference 2 "User", false, none⟩]), [2]⟩⟩,
        ⟨2, "User", ⟨"User", none, []⟩, ⟨.alias "User" [] (.object []), []⟩⟩] := by
    decide +kernel
  exact ⟨rfl, _, _, _, hwalk, by decide +kernel, by decide +kernel, by decide, rfl, by decide,
    by decide⟩

end Declgen.Walk
