import Declgen.Proofs.Units.Renumbering
import Declgen.Proofs.Walk.Declarations

/-!
# Declarations under other numbers

The type expression of a type asks a registry for the numbers and the names of units only. Where
another registry has the same units under other numbers, the type has the same expression under
these numbers, and so has the declaration of a named type.
-/

namespace Declgen.Walk

open Model TypeScript Declgen.Units

/-- Two registries have the same keys with the same names, under numbers that `f` relates. -/
def Renumbered (f : UnitId → UnitId) (units units' : Registry) : Prop :=
  ∀ key, known units' key = (known units key).map fun unit => (f unit.1, unit.2)

/-- Registries with the same entries are renumbered by key. -/
theorem renumbered_of_sameEntries {units units' : Registry} (h : units.SameEntries units')
    (hunits : units.Distinct) (hunits' : units'.Distinct) :
    Renumbered (h.equiv hunits hunits') units units' := by
  intro key
  cases hlookup : units.lookup key with
  | none =>
    have hnone : units'.lookup key = none :=
      Registry.lookup_eq_none_iff.mpr fun entry hentry =>
        Registry.lookup_eq_none_iff.mp hlookup entry ((h entry).mpr hentry)
    rw [known, known, hlookup, hnone]
    rfl
  | some unit =>
    obtain ⟨header, hentry⟩ := Registry.exists_entry hlookup
    obtain ⟨unit', hentry', hlookup', heq⟩ := h.exists_lookup hunits' hentry
    rw [known, known, hlookup, hlookup', Option.map_some, Option.map_some, Option.map_some,
      unitName_of_entry hentry, unitName_of_entry hentry']
    exact congrArg (fun number => some (number, header.name)) heq.symm

variable {f : UnitId → UnitId} {units units' : Registry} {style : GenericStyle}
  {scope : List String} {options : Options} {a : Arena}

/-- A reference has the new number of its unit. -/
theorem reference?_renumbered (h : Renumbered f units units') (t : TypeTree) :
    reference? units' t = (reference? units t).map (Expr.renumber f) := by
  rw [reference?, reference?, h, Option.map_map, Option.map_map]
  rfl

namespace TypeTree

/-- A type has the same expression under the other numbers. -/
theorem expr?_renumbered (hf : Function.Injective f) (h : Renumbered f units units')
    (t : TypeTree) :
    t.expr? style units' scope = (t.expr? style units scope).map (Expr.renumber f) := by
  induction t with
  | primitive kind => rfl
  | enum id e => exact reference?_renumbered h _
  | record id c =>
    simp only [expr?]
    by_cases hgeneric : c.isGeneric = true
    · rw [if_pos hgeneric, if_pos hgeneric]
      rfl
    · rw [if_neg hgeneric, if_neg hgeneric]
      exact reference?_renumbered h _
  | parameter name =>
    simp only [expr?]
    by_cases hscope : scope.contains name = true
    · rw [if_pos hscope]
      rfl
    · rw [if_neg hscope]
      rfl
  | nullable inner ih =>
    rw [expr?, expr?, ih, Option.map_map, Option.map_map]
    exact congrArg (Option.map · _) (funext fun e => (Expr.renumber_nullable hf e).symm)
  | array element ih =>
    rw [expr?, expr?, ih, Option.map_map, Option.map_map]
    rfl
  | dictionary key value _ ih =>
    rw [expr?, expr?, ih]
    cases value.expr? style units scope with
    | none => rfl
    | some e =>
      -- Only text, numbers and enumerations are keys, and only enumerations have units.
      cases key with
      | primitive kind => cases kind <;> rfl
      | enum id type =>
        simp only [Option.map_some, Option.bind_eq_bind, Option.bind_some,
          reference?_renumbered h]
        cases reference? units (.enum id type) <;> rfl
      | _ => rfl
  | instantiation definition c arguments ih =>
    simp only [expr?]
    by_cases hpreserved : style = .preserve ∨ anyHasParameter arguments = true
    · have harguments : arguments.mapM (expr? style units' scope) =
          (arguments.mapM (expr? style units scope)).map (List.map (Expr.renumber f)) :=
        (mapM_congr_left ih).trans (mapM_option_map _ _ _)
      rw [if_pos hpreserved, if_pos hpreserved, exprs?_eq_mapM, exprs?_eq_mapM, harguments, h]
      cases known units (recordIdentity c) with
      | none => rfl
      | some unit => cases arguments.mapM (expr? style units scope) <;> simp
    · rw [if_neg hpreserved, if_neg hpreserved]
      exact reference?_renumbered h _

end TypeTree

/-- The field of a member has the new numbers. -/
theorem TreeMember.field?_renumbered (hf : Function.Injective f) (h : Renumbered f units units')
    (m : TreeMember) : m.field? options units' scope =
      (m.field? options units scope).map fun field =>
        { field with type := field.type.renumber f } := by
  rw [field?, field?, TypeTree.expr?_renumbered hf h]
  cases m.type.expr? options.generics units scope with
  | none => rfl
  | some e =>
    simp only [Option.map_some]
    cases m.nullable with
    | false => rfl
    | true => simp [Expr.renumber_nullable hf]

/-- So has an object type. -/
theorem TypeTree.object?_renumbered (hf : Function.Injective f) (h : Renumbered f units units')
    (t : TypeTree) :
    t.object? options a units' scope = (t.object? options a units scope).map (Expr.renumber f) := by
  rw [object?, object?]
  cases t.members? a with
  | none => rfl
  | some members =>
    have hfield (m : TreeMember) (_ : m ∈ members) : m.field? options units' scope =
        (m.field? options units scope).map fun field =>
          { field with type := field.type.renumber f } := m.field?_renumbered hf h
    have hfields := (mapM_congr_left hfield).trans (mapM_option_map _ _ _)
    simp only [Option.bind_eq_bind, Option.bind_some, hfields]
    cases members.mapM (TreeMember.field? options units scope) <;> simp

/-- An enumeration refers to no units. -/
theorem renumber_enumDeclaration (hf : Function.Injective f) (style : EnumStyle) (name : String)
    (members : List EnumMember) :
    (enumDeclaration style name members).renumber f = enumDeclaration style name members := by
  cases style with
  | declaration => rfl
  | union =>
    rw [enumDeclaration, Declaration.renumber, Expr.renumber_unionOf hf, List.map_map]
    rfl

/-- A named type has the same declaration under the other numbers. -/
theorem TypeTree.declaration?_renumbered (hf : Function.Injective f)
    (h : Renumbered f units units') (name : String) (t : TypeTree) :
    t.declaration? options a units' name =
      (t.declaration? options a units name).map (Declaration.renumber f) := by
  cases t with
  | enum id e =>
    exact congrArg some (renumber_enumDeclaration hf options.enums name e.members).symm
  | record id c =>
    rw [declaration?, declaration?, object?_renumbered hf h, Option.map_map, Option.map_map]
    rfl
  | instantiation definition c arguments =>
    rw [declaration?, declaration?, object?_renumbered hf h, Option.map_map, Option.map_map]
    rfl
  | _ => rfl

end Declgen.Walk
