import Declgen.Proofs.Document.Names
import Declgen.Proofs.TypeScript.Nodes
import Declgen.Proofs.Walk.Documents

/-!
# Closed units

The declarations of a walk refer only to each other. A reference names a unit by its number and its
name, and it gives as many arguments as that unit has type parameters. A type parameter stands only
where the unit declares it, and the references of a unit are the other units in its declaration.

References are written with the identity of a type, so this needs that types with one identity
have equally many parameters.
-/

namespace Declgen.Walk

open Model Document TypeScript Declgen.Units

/-! ### Nodes of converted types -/

/-- What a node of a converted type may be: a reference stands for a named type with a known unit
and has as many arguments as that type has parameters, and a type parameter is in scope. -/
def Links (a : Arena) (units : Registry) (scope : List String) : Expr → Prop
  | .reference unit name =>
    ∃ t : TypeTree, t.Over a ∧ t.isNamed = true ∧ t.arity = 0 ∧
      known units t.spelling = some (unit, name)
  | .genericReference unit name arguments =>
    ∃ t : TypeTree, t.Over a ∧ t.isNamed = true ∧ t.arity = arguments.length ∧
      known units t.spelling = some (unit, name)
  | .parameter name => name ∈ scope
  | _ => True

/-- What a node of a converted type comes from. -/
inductive Origin (a : Arena) (units : Registry) (scope : List String) : Expr → Prop
  /-- A reference stands for a named type without parameters. -/
  | reference {t : TypeTree} {unit : UnitId} {name : String} (ht : t.Over a)
    (hnamed : t.isNamed = true) (harity : t.arity = 0)
    (hknown : known units t.spelling = some (unit, name)) :
    Origin a units scope (.reference unit name)
  /-- A reference with arguments stands for an instantiation, and names the unit of its record. -/
  | genericReference {definition : TypeId} {c : ComplexType} {arguments : List TypeTree}
    {unit : UnitId} {name : String} {es : List Expr}
    (ht : (TypeTree.instantiation definition c arguments).Over a)
    (hlength : arguments.length = es.length)
    (hknown : known units (recordIdentity c) = some (unit, name)) :
    Origin a units scope (.genericReference unit name es)
  /-- A type parameter is in scope. -/
  | parameter {name : String} (h : name ∈ scope) : Origin a units scope (.parameter name)
  /-- Every other node stands for itself. -/
  | other {node : Expr} (hlink : node.link? = none) (hparameter : ∀ name, node ≠ .parameter name) :
    Origin a units scope node

section Nodes

variable {a : Arena} {units : Registry} {scope : List String}

/-- A node links to known units, wherever it comes from. -/
theorem Origin.links {node : Expr} (h : Origin a units scope node) : Links a units scope node := by
  cases h with
  | @reference t _ _ ht hnamed harity hknown => exact ⟨t, ht, hnamed, harity, hknown⟩
  | @genericReference definition c _ _ _ _ ht hlength hknown =>
    cases ht with
    | instantiation hc _ hparams =>
      exact ⟨.record definition c, .record hc, rfl, hparams.trans hlength, hknown⟩
  | parameter h => exact h
  | other hlink hparameter =>
    cases node with
    | reference unit name => cases hlink
    | genericReference unit name arguments => cases hlink
    | parameter name => exact absurd rfl (hparameter name)
    | _ => trivial

/-- What a reference to a type without parameters comes from. -/
theorem origin_reference? {t : TypeTree} {e : Expr} (ht : t.Over a) (hnamed : t.isNamed = true)
    (harity : t.arity = 0) (he : reference? units t = some e) :
    ∀ node ∈ e.nodes, Origin a units scope node := by
  obtain ⟨unit, hknown, rfl⟩ := Option.map_eq_some_iff.mp he
  intro node hnode
  rw [List.mem_singleton.mp hnode]
  exact .reference ht hnamed harity hknown

/-- A type or null adds nothing to refer to. -/
theorem origin_nullable {e : Expr} (he : ∀ node ∈ e.nodes, Origin a units scope node) :
    ∀ node ∈ e.nullable.nodes, Origin a units scope node := by
  intro node hnode
  rcases Expr.mem_nodes_unionOf hnode with ⟨parts, rfl⟩ | rfl | ⟨member, hmember, hnode⟩
  · exact .other rfl (by simp)
  · exact .other rfl (by simp)
  · rcases List.mem_cons.mp hmember with rfl | hmember
    · rw [List.mem_singleton.mp hnode]
      exact .other rfl (by simp)
    · rw [List.mem_singleton.mp hmember] at hnode
      exact he node hnode

/-- What the nodes of a converted type come from. -/
theorem origin_expr? {style : GenericStyle} {t : TypeTree} {e : Expr} (ht : t.Over a)
    (he : t.expr? style units scope = some e) : ∀ node ∈ e.nodes, Origin a units scope node := by
  induction ht generalizing e with
  | primitive =>
    cases he
    intro node hnode
    rw [List.mem_singleton.mp hnode]
    exact .other rfl (by simp)
  | enum h => exact origin_reference? (.enum h) rfl rfl he
  | @record id c h =>
    rw [TypeTree.expr?] at he
    by_cases hgeneric : c.isGeneric = true
    · rw [if_pos hgeneric] at he
      cases he
    · rw [if_neg hgeneric] at he
      exact origin_reference? (.record h) rfl
        (length_typeParams_of_not_generic (Bool.not_eq_true _ ▸ hgeneric)) he
  | @parameter id name =>
    rw [TypeTree.expr?] at he
    by_cases hscope : scope.contains name = true
    · rw [if_pos hscope] at he
      cases he
      intro node hnode
      rw [List.mem_singleton.mp hnode]
      exact .parameter (by simpa using hscope)
    · rw [if_neg hscope] at he
      cases he
  | nullable _ ih =>
    obtain ⟨e', he', rfl⟩ := Option.map_eq_some_iff.mp he
    exact origin_nullable (ih he')
  | array _ ih =>
    obtain ⟨e', he', rfl⟩ := Option.map_eq_some_iff.mp he
    intro node hnode
    rcases List.mem_cons.mp hnode with rfl | hnode
    · exact .other rfl (by simp)
    · exact ih he' node hnode
  | dictionary hkey _ _ ih =>
    simp only [TypeTree.expr?, Option.bind_eq_bind, Option.bind_eq_some_iff] at he
    obtain ⟨value, hvalue, he⟩ := he
    have hindex (word : Keyword) (node : Expr)
        (hnode : node ∈ (Expr.index (.keyword word) value).nodes) : Origin a units scope node := by
      simp only [Expr.nodes, List.singleton_append, List.mem_cons] at hnode
      rcases hnode with rfl | rfl | hnode
      · exact .other rfl (by simp)
      · exact .other rfl (by simp)
      · exact ih hvalue node hnode
    split at he
    · cases he
      exact hindex _
    · cases he
      exact hindex _
    · cases he
      exact hindex _
    · cases he
      exact hindex _
    · obtain ⟨key, hkey', rfl⟩ := Option.map_eq_some_iff.mp he
      intro node hnode
      simp only [Expr.nodes, List.mem_cons, List.mem_append] at hnode
      rcases hnode with rfl | hnode | hnode
      · exact .other rfl (by simp)
      · exact origin_reference? hkey rfl rfl hkey' node hnode
      · exact ih hvalue node hnode
    · cases he
  | @instantiation definition c arguments h hinstantiates hlength harguments ih =>
    have hover := TypeTree.Over.instantiation h hinstantiates hlength harguments
    simp only [TypeTree.expr?] at he
    split at he
    · simp only [TypeTree.exprs?_eq_mapM, Option.bind_eq_bind, Option.bind_eq_some_iff] at he
      obtain ⟨unit, hunit, es, hes, he⟩ := he
      cases he
      intro node hnode
      rw [Expr.nodes, Expr.nodesList_eq_flatMap] at hnode
      rcases List.mem_cons.mp hnode with rfl | hnode
      · exact .genericReference hover (mapM_eq_some_iff.mp hes).length_eq hunit
      · obtain ⟨e', hmem, hnode⟩ := List.mem_flatMap.mp hnode
        obtain ⟨t, ht, he'⟩ := exists_of_mem_mapM hes hmem
        exact ih t ht he' node hnode
    · exact origin_reference? hover rfl rfl he

/-- What the nodes of the object type of a record or an instantiation come from. -/
theorem origin_object? (ha : a.WellFormed) {options : Options} {t : TypeTree} {e : Expr}
    (ht : t.Over a) (he : t.object? options a units scope = some e) :
    ∀ node ∈ e.nodes, Origin a units scope node := by
  simp only [TypeTree.object?, Option.bind_eq_bind, Option.bind_eq_some_iff] at he
  obtain ⟨members, hmembers, fields, hfields, he⟩ := he
  cases he
  intro node hnode
  rw [Expr.nodes, Expr.nodesFields_eq_flatMap] at hnode
  rcases List.mem_cons.mp hnode with rfl | hnode
  · exact .other rfl (by simp)
  · obtain ⟨f, hf, hnode⟩ := List.mem_flatMap.mp hnode
    obtain ⟨m, hm, hfield⟩ := exists_of_mem_mapM hfields hf
    obtain ⟨e, he, rfl⟩ := Option.map_eq_some_iff.mp hfield
    have horigin := origin_expr? (TypeTree.members?_over ha ht hmembers m hm) he
    dsimp only at hnode
    split at hnode
    · exact origin_nullable horigin node hnode
    · exact horigin node hnode

/-- An enumeration refers to nothing. -/
theorem origin_enumDeclaration {style : EnumStyle} {name : String} {members : List EnumMember} :
    ∀ node ∈ (enumDeclaration style name members).nodes, Origin a units scope node := by
  cases style with
  | union =>
    intro node hnode
    rcases Expr.mem_nodes_unionOf hnode with ⟨parts, rfl⟩ | rfl | ⟨member, hmember, hnode⟩
    · exact .other rfl (by simp)
    · exact .other rfl (by simp)
    · obtain ⟨m, -, rfl⟩ := List.mem_map.mp hmember
      rw [List.mem_singleton.mp hnode]
      exact .other rfl (by simp)
  | declaration => exact fun node hnode => absurd hnode List.not_mem_nil

/-- What the nodes of the declaration of a named type come from, with the parameters of its header
in scope. -/
theorem origin_declaration? (ha : a.WellFormed) {options : Options} {t : TypeTree} {name : String}
    {header : Header} {declaration : Declaration} (ht : t.Over a)
    (hheader : t.header? = some header)
    (hdeclaration : t.declaration? options a units name = some declaration) :
    ∀ node ∈ declaration.nodes, Origin a units header.typeParams node := by
  cases t with
  | enum id e =>
    cases hdeclaration
    exact origin_enumDeclaration
  | record id c =>
    cases hheader
    obtain ⟨e, he, rfl⟩ := Option.map_eq_some_iff.mp hdeclaration
    exact origin_object? ha ht he
  | instantiation definition c arguments =>
    obtain ⟨name, -, rfl⟩ := Option.map_eq_some_iff.mp hheader
    obtain ⟨e, he, rfl⟩ := Option.map_eq_some_iff.mp hdeclaration
    exact origin_object? ha ht he
  | _ => cases hheader

/-- All nodes of the declaration of a named type link, with the parameters of its header in
scope. -/
theorem links_declaration? (ha : a.WellFormed) {options : Options} {t : TypeTree} {name : String}
    {header : Header} {declaration : Declaration} (ht : t.Over a)
    (hheader : t.header? = some header)
    (hdeclaration : t.declaration? options a units name = some declaration) :
    ∀ node ∈ declaration.nodes, Links a units header.typeParams node :=
  fun node hnode => (origin_declaration? ha ht hheader hdeclaration node hnode).links

end Nodes

/-! ### Units -/

/-- A unit refers to the given units only, by their names and with the arguments that they ask for,
and all type parameters in its declaration are its own. -/
structure Closed (units : List Completed) (unit : Completed) : Prop where
  /-- A plain reference names a unit without type parameters. -/
  reference : ∀ target name, .reference target name ∈ unit.body.declaration.nodes →
    ∃ other, units[target]? = some other ∧ other.header.name = name ∧ other.header.typeParams = []
  /-- A reference with arguments names a unit with as many type parameters. -/
  genericReference : ∀ target name arguments,
    .genericReference target name arguments ∈ unit.body.declaration.nodes →
    ∃ other, units[target]? = some other ∧ other.header.name = name ∧
      other.header.typeParams.length = arguments.length
  /-- A type parameter is one of the unit. -/
  parameter : ∀ name, .parameter name ∈ unit.body.declaration.nodes → name ∈ unit.header.typeParams
  /-- The references are the other units in the declaration. -/
  references : ∀ target, target ∈ unit.body.references ↔
    target ≠ unit.id ∧ ∃ node ∈ unit.body.declaration.nodes, node.target? = some target
  /-- No reference is repeated. -/
  nodup : unit.body.references.Nodup

variable {setup : Setup} {a : Arena} {roots : List TypeId} {trees : List TypeTree} {s : State}
  {units : List Completed}

/-- The unit of a named type has as many parameters as the type. -/
theorem Walked.length_typeParams (h : Walked setup a roots trees s units) (ha : NoBacktick a)
    {t : TypeTree} (ht : t.Over a) (hnamed : t.isNamed = true) {id : Nat} {unit : Completed}
    (hunit : units[id]? = some unit) (hkey : unit.key = t.spelling) :
    unit.header.typeParams.length = t.arity := by
  obtain ⟨-, u, hu, hunitOf⟩ := h.unit id unit hunit
  rw [TypeTree.length_typeParams_of_header? hunitOf.header]
  refine arity_eq_of_spelling_eq ha (h.tree_over (List.mem_of_getElem? hu)) ht
    (TypeTree.isNamed_of_header? hunitOf.header) hnamed ?_
  rw [← hunitOf.key, hkey]

/-- All units of a walk are closed. -/
theorem Walked.closed (h : Walked setup a roots trees s units) (ha : a.WellFormed)
    (hnames : NoBacktick a) {unit : Completed} (hunit : unit ∈ units) : Closed units unit := by
  obtain ⟨i, hi⟩ := List.mem_iff_getElem?.mp hunit
  obtain ⟨-, t, ht, hunitOf⟩ := h.unit i unit hi
  have hlinks := links_declaration? ha (h.tree_over (List.mem_of_getElem? ht)) hunitOf.header
    hunitOf.declaration
  have htarget {u : TypeTree} (hu : u.Over a) (hnamed : u.isNamed = true) {target : UnitId}
      {name : String} (hknown : known s.progress.units u.spelling = some (target, name)) :
      ∃ other, units[target]? = some other ∧ other.header.name = name ∧
        other.header.typeParams.length = u.arity := by
    obtain ⟨other, hother, hkey, hname⟩ := h.exists_unit hknown
    exact ⟨other, hother, hname, h.length_typeParams hnames hu hnamed hother hkey⟩
  constructor
  · intro target name hnode
    obtain ⟨u, hu, hnamed, harity, hknown⟩ := hlinks _ hnode
    obtain ⟨other, hother, hname, hlength⟩ := htarget hu hnamed hknown
    exact ⟨other, hother, hname, List.length_eq_zero_iff.mp (hlength.trans harity)⟩
  · intro target name arguments hnode
    obtain ⟨u, hu, hnamed, harity, hknown⟩ := hlinks _ hnode
    obtain ⟨other, hother, hname, hlength⟩ := htarget hu hnamed hknown
    exact ⟨other, hother, hname, hlength.trans harity⟩
  · exact fun name hnode => hlinks _ hnode
  · intro target
    rw [hunitOf.references, List.mem_filter, Declaration.mem_references_iff, bne_iff_ne,
      and_comm]
  · rw [hunitOf.references]
    exact (Declaration.nodup_references _).filter _

/-- Walking a loaded document whose names have no backtick gives closed units, numbered in order,
with different keys and different names. Where an instantiation has a unit of its own, no type
parameter occurs in its declaration. -/
theorem walk_closed {d : ModelDocument} {m : LoadedModel} {options : Options}
    (hload : load d = .ok m)
    (hplain : ∀ definition ∈ d.definitions, '\x60' ∉ definition.qualifiedName.toList)
    (hroots : ∀ id : Nat, id ∈ roots → id < d.definitions.length)
    (hwalk : walk ⟨options, fun _ => none⟩ .empty m.model roots = .ok units) :
    (∀ (i : Nat) (unit : Completed), units[i]? = some unit → unit.id = i) ∧
      (units.map fun unit => unit.key).Nodup ∧ (units.map fun unit => unit.header.name).Nodup ∧
      (∀ unit ∈ units, Closed units unit) ∧
      ∃ s, explore ⟨options, fun _ => none⟩ .empty m.model roots = .ok s ∧
        ∀ (id definition : TypeId) (arguments : List TypeId) (unit : Completed),
          s.graph.get id = .ok (.instantiation definition arguments) → unit ∈ units →
          identity s.graph id = .ok unit.key →
          unit.header.typeParams = [] ∧ ∀ name, .parameter name ∉ unit.body.declaration.nodes := by
  have hloaded := loaded hload
  have hnames := noBacktick_of_loaded hloaded hplain
  obtain ⟨trees, s, h⟩ := exists_walked hload (fun _ => rfl) hroots hwalk
  have hclosed : ∀ unit ∈ units, Closed units unit :=
    fun unit hunit => h.closed hloaded.wellFormed hnames hunit
  refine ⟨fun i unit hunit => (h.unit i unit hunit).1, h.nodup_keys, h.nodup_names, hclosed, s,
    h.explored, ?_⟩
  intro id definition arguments unit hget hunit hidentity
  obtain ⟨i, hi⟩ := List.mem_iff_getElem?.mp hunit
  have hgraph := h.sound.graph
  obtain ⟨c, hc, -⟩ := hgraph.definition hget
  have hid := Graph.get_lt hget
  have htree := hgraph.tree_instantiation hget hc
  have hover : (s.graph.tree id).Over m.model := h.model ▸ hgraph.tree_over hid
  rw [identity_eq hgraph hid, Except.ok.injEq] at hidentity
  have hnamed : (s.graph.tree id).isNamed = true := by rw [htree]; rfl
  have hlength := h.length_typeParams hnames hover hnamed hi hidentity.symm
  rw [htree] at hlength
  have hparams := List.length_eq_zero_iff.mp hlength
  refine ⟨hparams, fun name hnode => ?_⟩
  have hmem := (hclosed unit hunit).parameter name hnode
  rw [hparams] at hmem
  exact absurd hmem List.not_mem_nil

/-- A generic record, and a record that uses it. -/
def boxes : ModelDocument :=
  ⟨[], [
    .complex ⟨"Box", none, ["T"], none, [⟨"value", .parameter "T", false, false, none⟩]⟩,
    .complex ⟨"Holder", none, [], none,
      [⟨"box", .generic "Box" [.primitive .integer], false, false, none⟩]⟩]⟩

/-- The model of these records. -/
def boxesModel : LoadedModel :=
  ⟨⟨#[some (.complex ⟨"Box", none, ["T"], none, [⟨"value", 2, false, false, none⟩]⟩),
      some (.complex ⟨"Holder", none, [], none, [⟨"box", 4, false, false, none⟩]⟩),
      some (.parameter "T"), some (.primitive .integer), some (.instantiation 0 [3])]⟩,
    [], [("Box", 0), ("Holder", 1)]⟩

/-- The document of boxes loads. -/
theorem load_boxes : load boxes = .ok boxesModel := rfl

/-- The generic record and the one that uses it give two closed units. -/
theorem walk_closed_boxes :
    ∃ m holder box, load boxes = .ok m ∧
      walk ⟨{}, fun _ => none⟩ .empty m.model [1] = .ok [holder, box] ∧
      box.key = "Box\x601[integer]" ∧
      Closed [holder, box] holder ∧ Closed [holder, box] box := by
  have hwalk : walk ⟨{}, fun _ => none⟩ .empty boxesModel.model [1] =
      .ok [⟨0, "Holder", ⟨"Holder", none, []⟩,
          ⟨.alias "Holder" [] (.object [⟨"box", .reference 1 "BoxOfInteger", false, none⟩]), [1]⟩⟩,
        ⟨1, "Box\x601[integer]", ⟨"BoxOfInteger", none, []⟩,
          ⟨.alias "BoxOfInteger" [] (.object [⟨"value", .keyword .number, false, none⟩]),
            []⟩⟩] := by
    decide +kernel
  have hplain : ∀ definition ∈ boxes.definitions, '\x60' ∉ definition.qualifiedName.toList := by
    decide
  have hroots : ∀ id : Nat, id ∈ [1] → id < boxes.definitions.length := by decide
  obtain ⟨-, -, -, hclosed, -⟩ := walk_closed load_boxes hplain hroots hwalk
  exact ⟨_, _, _, load_boxes, hwalk, rfl, hclosed _ (by simp), hclosed _ (by simp)⟩

end Declgen.Walk
