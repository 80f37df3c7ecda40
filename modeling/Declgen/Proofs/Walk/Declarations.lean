import Declgen.Proofs.Types.Members
import Declgen.Proofs.Walk.Expressions
import Declgen.Walk.Build

/-!
# What a declaration is made of

The declaration of a unit is a function of the tree of its type and of the registry: a record or an
instantiation becomes the object type of its members, an enumeration is written out. Building a
declaration gives this one and meets the units that its members need.
-/

namespace Declgen.Walk

open Model TypeScript Declgen.Units

/-- The field of a member, when all units that it needs are known. -/
def TreeMember.field? (options : Options) (units : Registry) (scope : List String)
    (m : TreeMember) : Option (TypeScript.Field Expr) :=
  (m.type.expr? options.generics units scope).map fun e =>
    ⟨memberField options.fields m.name, if m.nullable then e.nullable else e, m.optional, m.doc⟩

namespace TypeTree

/-- The object type of a record or an instantiation. -/
def object? (options : Options) (a : Arena) (units : Registry) (scope : List String)
    (t : TypeTree) : Option Expr := do
  let members ← t.members? a
  let fields ← members.mapM (TreeMember.field? options units scope)
  some (.object fields)

/-- The declaration of a named type. -/
def declaration? (options : Options) (a : Arena) (units : Registry) (name : String) :
    TypeTree → Option Declaration
  | .enum _ e => some (enumDeclaration options.enums name e.members)
  | .record id c =>
    (object? options a units c.typeParams (.record id c)).map (.alias name c.typeParams)
  | .instantiation definition c arguments =>
    (object? options a units [] (.instantiation definition c arguments)).map (.alias name [])
  | _ => none

/-- A declaration declares the name that it is given. -/
theorem name_declaration? {options : Options} {a : Arena} {units : Registry} {name : String}
    {t : TypeTree} {declaration : Declaration}
    (h : t.declaration? options a units name = some declaration) : declaration.name = name := by
  cases t with
  | enum id e =>
    cases h
    cases options.enums <;> rfl
  | record id c =>
    obtain ⟨e, -, rfl⟩ := Option.map_eq_some_iff.mp h
    rfl
  | instantiation definition c arguments =>
    obtain ⟨e, -, rfl⟩ := Option.map_eq_some_iff.mp h
    rfl
  | _ => cases h

/-- The type parameters that the declaration of a type has in scope. -/
def scope : TypeTree → List String
  | .record _ c => c.typeParams
  | _ => []

/-- The declaration of a record or an instantiation has a field for each of its members. -/
theorem exists_fields {options : Options} {a : Arena} {units : Registry} {name : String}
    {t : TypeTree} {declaration : Declaration} (henum : ∀ id e, t ≠ .enum id e)
    (h : t.declaration? options a units name = some declaration) :
    ∃ members fields, t.members? a = some members ∧
      members.mapM (TreeMember.field? options units t.scope) = some fields ∧
      declaration = .alias name t.scope (.object fields) := by
  have hobject {scope : List String} {e : Expr} (he : t.object? options a units scope = some e) :
      ∃ members fields, t.members? a = some members ∧
        members.mapM (TreeMember.field? options units scope) = some fields ∧
        e = .object fields := by
    simp only [object?, Option.bind_eq_bind, Option.bind_eq_some_iff, Option.some.injEq] at he
    obtain ⟨members, hmembers, fields, hfields, rfl⟩ := he
    exact ⟨members, fields, hmembers, hfields, rfl⟩
  cases t with
  | enum id e => exact absurd rfl (henum id e)
  | record id c =>
    obtain ⟨e, he, rfl⟩ := Option.map_eq_some_iff.mp h
    obtain ⟨members, fields, hmembers, hfields, rfl⟩ := hobject he
    exact ⟨members, fields, hmembers, hfields, rfl⟩
  | instantiation definition c arguments =>
    obtain ⟨e, he, rfl⟩ := Option.map_eq_some_iff.mp h
    obtain ⟨members, fields, hmembers, hfields, rfl⟩ := hobject he
    exact ⟨members, fields, hmembers, hfields, rfl⟩
  | _ => cases h

/-- The named types that the declaration of a type needs, in the order of their use. -/
def dependencies (style : GenericStyle) (a : Arena) (t : TypeTree) : List TypeTree :=
  ((t.members? a).getD []).flatMap fun m => m.type.needs style

end TypeTree

section Growing

variable {units units' : Registry} {options : Options} {scope : List String} {a : Arena}

/-- The field of a member stays the same when more units are known. -/
theorem TreeMember.field?_extends (h : units.Extends units') {m : TreeMember}
    {f : TypeScript.Field Expr} (hf : m.field? options units scope = some f) :
    m.field? options units' scope = some f := by
  obtain ⟨e, he, rfl⟩ := Option.map_eq_some_iff.mp hf
  rw [field?, TypeTree.expr?_extends h he, Option.map_some]

/-- So does the object type of a record or an instantiation. -/
theorem TypeTree.object?_extends (h : units.Extends units') {t : TypeTree} {e : Expr}
    (he : t.object? options a units scope = some e) :
    t.object? options a units' scope = some e := by
  simp only [object?, Option.bind_eq_bind, Option.bind_eq_some_iff] at he ⊢
  obtain ⟨members, hmembers, fields, hfields, he⟩ := he
  exact ⟨members, hmembers, fields,
    mapM_mono (fun m _ f => TreeMember.field?_extends h) hfields, he⟩

/-- The declaration of a type does not change when units are added. -/
theorem TypeTree.declaration?_extends (h : units.Extends units') {t : TypeTree} {name : String}
    {declaration : Declaration} (hd : t.declaration? options a units name = some declaration) :
    t.declaration? options a units' name = some declaration := by
  cases t with
  | enum id e => exact hd
  | record id c =>
    obtain ⟨e, he, rfl⟩ := Option.map_eq_some_iff.mp hd
    rw [declaration?, object?_extends h he, Option.map_some]
  | instantiation definition c arguments =>
    obtain ⟨e, he, rfl⟩ := Option.map_eq_some_iff.mp hd
    rw [declaration?, object?_extends h he, Option.map_some]
  | _ => cases hd

end Growing

variable {ctx : Context} {g : Graph}

/-- Converting a member meets the units that its type needs and gives its field. -/
theorem convertMember_outcome (hg : ctx.graph.WellFormed) (hhook : ∀ d, ctx.hook d = none)
    {m : Member} (hm : (m.type : Nat) < ctx.graph.size) (p : Progress) :
    Outcome (fun r => Meets ctx.graph ((ctx.graph.member m).type.needs ctx.options.generics) p r.2 ∧
        (ctx.graph.member m).field? ctx.options r.2.units ctx.scope = some r.1)
      GenerateError.Possible ((convertMember ctx m).run p) := by
  refine (convert_outcome hg hhook hm p).run_bind fun e p' h => ?_
  refine ⟨h.1, ?_⟩
  rw [TreeMember.field?, Graph.member, h.2]
  rfl

/-- Converting members gives their fields in order, or two of them have the same name. -/
theorem convertMembers_outcome (hg : ctx.graph.WellFormed) (hhook : ∀ d, ctx.hook d = none)
    {unit : String} {taken : List (String × String)} {members : List Member}
    (hmembers : ctx.graph.HoldsMembers members) (p : Progress) :
    Outcome (fun r => Meets ctx.graph ((members.map ctx.graph.member).flatMap fun m =>
          m.type.needs ctx.options.generics) p r.2 ∧
        (members.map ctx.graph.member).mapM
          (TreeMember.field? ctx.options r.2.units ctx.scope) = some r.1)
      GenerateError.Possible ((convertMembers ctx unit taken members).run p) := by
  induction members generalizing taken p with
  | nil => exact ⟨.nil p, rfl⟩
  | cons m members ih =>
    simp only [Graph.HoldsMembers, List.map_cons, List.mem_cons, forall_eq_or_imp] at hmembers
    refine (convertMember_outcome hg hhook hmembers.1 p).run_bind fun f p₁ h => ?_
    obtain ⟨hmeets, hfield⟩ := h
    split
    · trivial
    · refine (ih hmembers.2 p₁).run_bind fun fs p' h => ?_
      obtain ⟨hmeets', hfields⟩ := h
      refine ⟨hmeets.append hmeets', ?_⟩
      simp [List.mapM_cons, TreeMember.field?_extends hmeets'.extends hfield, hfields]

section Building

variable {setup : Setup} {s : State} {id : Nat}

/-- What building a declaration does to a state: the graph may grow, and the units that the type
needs are met. -/
def Builds (setup : Setup) (t : TypeTree) (s s' : State) : Prop :=
  s.graph.Grows s'.graph ∧
    Meets s'.graph (t.dependencies setup.options.generics s.graph.model) s.progress s'.progress

/-- An object type is that of the tree, and it meets the units that the tree needs. -/
theorem objectType_outcome (hg : s.graph.WellFormed) (hhook : ∀ d, setup.hook d = none)
    (hid : id < s.graph.size) (scope : List String) (unit : String) :
    Outcome (fun r => Builds setup (s.graph.tree id) s r.2 ∧
        (s.graph.tree id).object? setup.options s.graph.model r.2.progress.units scope = some r.1)
      GenerateError.Possible (objectType setup s scope unit id) := by
  refine (membersOf_outcome hg hid).bind fun r h => ?_
  obtain ⟨members, g⟩ := r
  obtain ⟨hgrow, hholds, hmembers⟩ := h
  have hconvert : Outcome _ _ ((convertMembers ⟨g, setup.options, setup.hook, scope⟩ unit []
      members).run s.progress) := convertMembers_outcome hgrow.wellFormed hhook hholds s.progress
  refine hconvert.bind fun r h => ?_
  obtain ⟨hmeets, hfields⟩ := h
  refine ⟨⟨hgrow, ?_⟩, ?_⟩
  · rw [TypeTree.dependencies, hmembers]
    exact hmeets
  · simp only [TypeTree.object?, hmembers, Option.bind_eq_bind, Option.bind_some]
    exact Option.bind_eq_some_iff.mpr ⟨r.1, hfields, rfl⟩

/-- Building a declaration gives what the tree of its type says, and never stops at a type that
cannot be declared. -/
theorem buildDeclaration_outcome (hg : s.graph.WellFormed) (hhook : ∀ d, setup.hook d = none)
    (hid : id < s.graph.size) (hnamed : (s.graph.tree id).isNamed = true) {name : String} :
    Outcome (fun r => Builds setup (s.graph.tree id) s r.2 ∧
        (s.graph.tree id).declaration? setup.options s.graph.model r.2.progress.units name =
          some r.1)
      GenerateError.Possible (buildDeclaration setup s name id) := by
  obtain ⟨d, hd, hfits⟩ := hg.exists_get hid
  have htree := hg.tree_eq hd
  have hobject (scope : List String) := objectType_outcome hg hhook hid scope name
  rw [htree] at hnamed hobject ⊢
  unfold buildDeclaration
  rw [hd]
  cases d with
  | primitive kind => cases hnamed
  | nullable inner => cases hnamed
  | array element => cases hnamed
  | dictionary key value => cases hnamed
  | parameter name => cases hnamed
  | enum e => exact ⟨⟨hg.grows_refl, .nil _⟩, rfl⟩
  | complex c =>
    refine (hobject c.typeParams).bind fun r h => ?_
    refine ⟨h.1, ?_⟩
    exact Option.map_eq_some_iff.mpr ⟨r.1, h.2, rfl⟩
  | instantiation definition arguments =>
    obtain ⟨c, hc, -⟩ := hg.definition hd
    simp only [treeOf, hc] at hobject ⊢
    refine (hobject []).bind fun r h => ?_
    refine ⟨h.1, ?_⟩
    exact Option.map_eq_some_iff.mpr ⟨r.1, h.2, rfl⟩

end Building

end Declgen.Walk
