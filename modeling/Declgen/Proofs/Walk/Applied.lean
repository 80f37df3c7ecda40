import Declgen.Proofs.Document.Faithful
import Declgen.Proofs.Walk.Closed
import Declgen.Proofs.Walk.Naming
import Declgen.Proofs.Walk.Termination

/-!
# Instantiations without arguments

Loading compares the number of arguments of a generic expression with the number of type parameters
of its record, but it does not ask whether there are any. So a record without type parameters can
be applied to nothing, and then it is written with empty angle brackets or gets a name that ends
where the names of arguments should follow. Where every generic expression of a document has an
argument, neither happens, in the types that are made during a walk as little as in the document.
-/

namespace Declgen.Document

open Model

/-- Every generic expression of a document has an argument. -/
def ModelDocument.Applied (d : ModelDocument) : Prop :=
  ∀ definition ∈ d.definitions, 0 ∉ definition.counts

instance : DecidablePred ModelDocument.Applied := fun d =>
  inferInstanceAs (Decidable (∀ definition ∈ d.definitions, 0 ∉ definition.counts))

/-! ### Instantiations of a loaded model -/

section Written

variable {names : List String} {a : Arena} {owner : String} {count : Nat}

/-- There are as many types as there are expressions. -/
theorem AllWritten.length_eq {es : List TypeExpr} {ids : List TypeId}
    (h : AllWritten names a owner es ids) : ids.length = es.length := by
  induction es generalizing ids with
  | nil =>
    cases ids with
    | nil => rfl
    | cons id ids => cases h
  | cons e es ih =>
    cases ids with
    | nil => cases h
    | cons id ids => exact congrArg (· + 1) (ih h.2)

/-- The model has an instantiation with a given number of arguments. -/
def HasInstantiation (a : Arena) (count : Nat) : Prop :=
  ∃ (id definition : TypeId) (arguments : List TypeId),
    a.get id = .ok (.instantiation definition arguments) ∧ arguments.length = count

mutual

/-- Every generic expression within an expression stands for an instantiation. -/
theorem Written.hasInstantiation : ∀ {e : TypeExpr} {id : TypeId}, Written names a owner e id →
    count ∈ e.counts → HasInstantiation a count
  | .primitive _, _, _, hcount => absurd hcount List.not_mem_nil
  | .ref _, _, _, hcount => absurd hcount List.not_mem_nil
  | .parameter _, _, _, hcount => absurd hcount List.not_mem_nil
  | .nullable _, _, ⟨_, _, he⟩, hcount => he.hasInstantiation hcount
  | .array _, _, ⟨_, _, he⟩, hcount => he.hasInstantiation hcount
  | .dictionary _ _, _, ⟨_, _, _, hkey, hvalue⟩, hcount =>
    (List.mem_append.mp hcount).elim hkey.hasInstantiation hvalue.hasInstantiation
  | .generic _ _, id, ⟨definition, arguments, hid, _, hes⟩, hcount =>
    (List.mem_cons.mp hcount).elim
      (fun heq => ⟨id, definition, arguments, hid, hes.length_eq.trans heq.symm⟩)
      hes.hasInstantiation

/-- So do generic expressions within a list. -/
theorem AllWritten.hasInstantiation : ∀ {es : List TypeExpr} {ids : List TypeId},
    AllWritten names a owner es ids → count ∈ TypeExpr.allCounts es → HasInstantiation a count
  | [], [], _, hcount => absurd hcount List.not_mem_nil
  | _ :: _, _ :: _, ⟨he, hes⟩, hcount =>
    (List.mem_append.mp hcount).elim he.hasInstantiation hes.hasInstantiation

end

/-- So does every generic expression of a definition. -/
theorem Definition.Carried.hasInstantiation {definition : Definition} {type : Descriptor}
    (h : definition.Carried names a type) (hcount : count ∈ definition.counts) :
    HasInstantiation a count := by
  cases h with
  | enum e => cases hcount
  | @complex c c' hc =>
    rcases List.mem_append.mp hcount with hcount | hcount
    · have hbase := hc.base
      generalize c.base = base at hbase hcount
      generalize c'.base = base' at hbase
      cases hbase with
      | some he => exact he.hasInstantiation hcount
      | none => cases hcount
    · obtain ⟨m, hm, hcount⟩ := List.mem_flatMap.mp hcount
      obtain ⟨m', -, hcarried⟩ := exists_mem_of_forall₂ hc.members hm
      exact hcarried.type.hasInstantiation hcount

end Written

variable {d : ModelDocument} {m : LoadedModel}

/-- The instantiations of a model have as many arguments as the generic expressions of its
document. -/
theorem hasInstantiation_iff (hload : load d = .ok m) {count : Nat} :
    HasInstantiation m.model count ↔ ∃ definition ∈ d.definitions, count ∈ definition.counts := by
  constructor
  · rintro ⟨id, definition, arguments, hget, rfl⟩
    exact (loaded hload).counted id definition arguments hget
  · rintro ⟨definition, hdefinition, hcount⟩
    obtain ⟨i, hi⟩ := List.mem_iff_getElem?.mp hdefinition
    obtain ⟨type, -, hcarried⟩ := (load_faithful hload).definitions i definition hi
    exact hcarried.hasInstantiation hcount

/-- Every instantiation of a model is one of a generic record exactly if every generic expression of
the document has an argument. -/
theorem isGeneric_iff_applied (hload : load d = .ok m) :
    (∀ (id definition : TypeId) (arguments : List TypeId),
      m.model.get id = .ok (.instantiation definition arguments) →
      ∃ c, m.model.get definition = .ok (.complex c) ∧ c.isGeneric = true) ↔ d.Applied := by
  have hgeneric (c : ComplexType) : c.isGeneric = true ↔ c.typeParams.length ≠ 0 := by
    simp [ComplexType.isGeneric]
  have hrecord := (load_faithful hload).instantiations
  constructor
  · intro h definition hdefinition hcount
    obtain ⟨id, definition, arguments, hget, hlength⟩ :=
      (hasInstantiation_iff hload).mpr ⟨definition, hdefinition, hcount⟩
    obtain ⟨c, hc, hparams⟩ := hrecord id definition arguments hget
    obtain ⟨c', hc', hgeneric'⟩ := h id definition arguments hget
    cases hc.symm.trans hc'
    exact (hgeneric c).mp hgeneric' (hparams.trans hlength)
  · intro h id definition arguments hget
    obtain ⟨c, hc, hparams⟩ := hrecord id definition arguments hget
    refine ⟨c, hc, (hgeneric c).mpr fun hnone => ?_⟩
    obtain ⟨other, hother, hcount⟩ :=
      (hasInstantiation_iff hload).mp ⟨id, definition, arguments, hget, hparams.symm.trans hnone⟩
    exact h other hother hcount

end Declgen.Document

namespace Declgen.Walk

open Model Document TypeScript Declgen.Units

/-! ### Instantiations of a walk -/

/-- No type that is made from the model of such a document is applied to nothing. -/
theorem TypeTree.Over.arguments_ne_nil {d : ModelDocument} {m : LoadedModel}
    (hload : load d = .ok m) (happlied : d.Applied) {definition : TypeId} {c : ComplexType}
    {arguments : List TypeTree}
    (h : (TypeTree.instantiation definition c arguments).Over m.model) : arguments ≠ [] := by
  cases h with
  | instantiation hc hinstantiates hlength =>
    obtain ⟨id, arguments', hget⟩ := hinstantiates
    obtain ⟨c', hc', hparams⟩ := (load_faithful hload).instantiations id definition arguments' hget
    cases hc.symm.trans hc'
    obtain ⟨other, hother, hcount⟩ := (loaded hload).counted id definition arguments' hget
    rintro rfl
    rw [← hparams, hlength] at hcount
    exact happlied other hother hcount

/-- The units of a walk that ended with the graph `g` have been given arguments wherever they are
written or named with some. -/
structure Saturated (g : Graph) (units : List Completed) : Prop where
  /-- No reference has an empty list of arguments. -/
  references : ∀ unit ∈ units, ∀ target name,
    .genericReference target name [] ∉ unit.body.declaration.nodes
  /-- No instantiation has, and so no name is made for such a one. -/
  instantiations : ∀ (id definition : TypeId) (arguments : List TypeId),
    g.get id = .ok (.instantiation definition arguments) → arguments ≠ []
  /-- Every unit has the identity and the header of a type. If this is an instantiation, the name of
  its record is followed by a name for each argument. -/
  names : ∀ unit ∈ units, ∃ id : TypeId, identity g id = .ok unit.key ∧
    header g id = .ok unit.header ∧
    ∀ (definition : TypeId) (arguments : List TypeId),
      g.get id = .ok (.instantiation definition arguments) →
      ∃ (c : ComplexType) (parts : List String),
        g.model.get definition = .ok (.complex c) ∧ parts.length = arguments.length ∧
        unit.header.name = safeName (pascalName c.name ++ "Of" ++ "And".intercalate parts)

/-- Loading gives a model all of whose instantiations are of generic records exactly if every
generic expression of the document has an argument. Then no walk writes a reference with an empty
list of arguments, and the name of every instantiation holds the name of at least one argument. -/
theorem walk_applied {d : ModelDocument} {m : LoadedModel} (hload : load d = .ok m) :
    ((∀ (id definition : TypeId) (arguments : List TypeId),
        m.model.get id = .ok (.instantiation definition arguments) →
        ∃ c, m.model.get definition = .ok (.complex c) ∧ c.isGeneric = true) ↔ d.Applied) ∧
    (d.Applied → ∀ (setup : Setup) (roots : List TypeId) (units : List Completed),
      (∀ type, setup.hook type = none) → walk setup .empty m.model roots = .ok units →
      ∃ s, explore setup .empty m.model roots = .ok s ∧ Saturated s.graph units) := by
  refine ⟨isGeneric_iff_applied hload, fun happlied setup roots units hhook hwalk => ?_⟩
  obtain ⟨-, trees, s, h⟩ := walked_of_walk hload hhook hwalk
  have hgraph := h.sound.graph
  refine ⟨s, h.explored, fun unit hunit target name hnode => ?_, ?_, fun unit hunit => ?_⟩
  · obtain ⟨i, hi⟩ := List.mem_iff_getElem?.mp hunit
    obtain ⟨-, t, ht, hunitOf⟩ := h.unit i unit hi
    have horigin := origin_declaration? (loaded hload).wellFormed
      (h.tree_over (List.mem_of_getElem? ht)) hunitOf.header hunitOf.declaration _ hnode
    cases horigin with
    | genericReference hover hlength =>
      exact hover.arguments_ne_nil hload happlied (List.length_eq_zero_iff.mp hlength)
    | other hlink => cases hlink
  · intro id definition arguments hget
    obtain ⟨c, hc, -⟩ := hgraph.definition hget
    have hover := h.model ▸ hgraph.tree_over (Graph.get_lt hget)
    rw [hgraph.tree_instantiation hget hc] at hover
    have hne := hover.arguments_ne_nil hload happlied
    rwa [ne_eq, List.map_eq_nil_iff] at hne
  · obtain ⟨id, -, -, hidentity, hheader⟩ := h.exists_header hunit
    refine ⟨id, hidentity, hheader, fun definition arguments hget => ?_⟩
    obtain ⟨c, hc, -⟩ := hgraph.definition hget
    obtain ⟨parts, hlength, heq⟩ := (headerFor_of_header hheader).of_instantiation hget hc
    exact ⟨c, parts, hc, hlength, by rw [heq]⟩

/-- A generic record that is applied to a number, in both styles. -/
theorem walk_applied_boxes :
    load boxes = .ok boxesModel ∧ boxes.Applied ∧
      ∀ style, ∃ units s,
        walk ⟨{ generics := style }, fun _ => none⟩ .empty boxesModel.model [1] = .ok units ∧
        explore ⟨{ generics := style }, fun _ => none⟩ .empty boxesModel.model [1] = .ok s ∧
        units.length = 2 ∧ Saturated s.graph units := by
  refine ⟨load_boxes, by decide, fun style => ?_⟩
  have hwalk : (walk ⟨{ generics := style }, fun _ => none⟩ .empty boxesModel.model [1]).map
      List.length = .ok 2 := by
    cases style <;> decide +kernel
  obtain ⟨units, hwalk, hlength⟩ := exists_of_map_eq_ok hwalk
  obtain ⟨s, hexplore, hsaturated⟩ :=
    (walk_applied load_boxes).2 (by decide) _ _ _ (fun _ => rfl) hwalk
  exact ⟨units, s, hwalk, hexplore, hlength, hsaturated⟩

/-- A record without type parameters, and a record that applies it to nothing. -/
def plains : ModelDocument :=
  ⟨[], [
    .complex ⟨"Plain", none, [], none, []⟩,
    .complex ⟨"Holder", none, [], none, [⟨"thing", .generic "Plain" [], false, false, none⟩]⟩]⟩

/-- The model of these records. -/
def plainsModel : LoadedModel :=
  ⟨⟨#[some (.complex ⟨"Plain", none, [], none, []⟩),
      some (.complex ⟨"Holder", none, [], none, [⟨"thing", 2, false, false, none⟩]⟩),
      some (.instantiation 0 [])]⟩,
    [], [("Plain", 0), ("Holder", 1)]⟩

/-- The record is not generic, and yet the document loads. What is generated for it is an empty list
of arguments, or a name without the name of an argument. -/
theorem plains_applied_to_nothing :
    load plains = .ok plainsModel ∧
      plainsModel.model.get 2 = .ok (.instantiation 0 []) ∧
      (∃ c, plainsModel.model.get 0 = .ok (.complex c) ∧ c.isGeneric = false) ∧
      (walk ⟨{ generics := .preserve }, fun _ => none⟩ .empty plainsModel.model [1]).map
          (·.map fun unit => unit.body.declaration.toText default) =
        .ok ["export type Holder = \x7b\n    thing: Plain<>;\n\x7d;\n",
          "export type Plain = \x7b\x7d;\n"] ∧
      (walk ⟨{}, fun _ => none⟩ .empty plainsModel.model [1]).map
          (·.map fun unit => unit.header.name) = .ok ["Holder", "PlainOf"] :=
  ⟨rfl, rfl, ⟨_, rfl, rfl⟩, by decide +kernel, by decide +kernel⟩

end Declgen.Walk
