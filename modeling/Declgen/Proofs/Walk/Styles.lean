import Declgen.Proofs.TypeScript.Comparison
import Declgen.Proofs.Types.Instances
import Declgen.Proofs.Walk.Declarations
import Mathlib.Data.List.Nodup

/-!
# Two styles of generic records

A generic record becomes one declaration with type parameters, or one declaration for every list of
arguments. Either way a type is written as the same expression, once the unit of an instantiation
is read as its record applied to its arguments: putting arguments in for parameters before a type is
converted is the same as putting their expressions in afterwards.
-/

namespace Declgen.Walk

open Model TypeScript Declgen.Units

namespace TypeTree

/-- What a generation writes for a named type: a reference to its unit, or the expression of an
instantiation. -/
def meaning? (style : GenericStyle) (units : Registry) : TypeTree → Option Expr
  | .instantiation definition c arguments =>
    (instantiation definition c arguments).expr? style units []
  | t => reference? units t

section Needs

variable {style : GenericStyle} {units : Registry} {scope : List String} {a : Arena}

/-- An expression needs enumerations, records, and instantiations that are not preserved. -/
theorem cases_of_mem_needs {t u : TypeTree} (h : u ∈ t.needs style) :
    (∃ id e, u = .enum id e) ∨ (∃ id c, u = .record id c) ∨
      ∃ definition c arguments, u = .instantiation definition c arguments ∧
        style ≠ .preserve ∧ anyHasParameter arguments = false := by
  induction t with
  | primitive kind => cases h
  | parameter name => cases h
  | enum id e => exact .inl ⟨id, e, List.mem_singleton.mp h⟩
  | record id c => exact .inr (.inl ⟨id, c, List.mem_singleton.mp h⟩)
  | nullable inner ih => exact ih h
  | array element ih => exact ih h
  | dictionary key value _ ih =>
    rcases List.mem_append.mp h with h | h
    · exact ih h
    · cases key with
      | enum id e => exact .inl ⟨id, e, List.mem_singleton.mp h⟩
      | _ => cases h
  | instantiation definition c arguments ih =>
    rw [needs] at h
    by_cases hpreserved : style = .preserve ∨ anyHasParameter arguments = true
    · rw [if_pos hpreserved, needsAll_eq_flatMap] at h
      rcases List.mem_cons.mp h with rfl | h
      · exact .inr (.inl ⟨definition, c, rfl⟩)
      · obtain ⟨t, ht, hu⟩ := List.mem_flatMap.mp h
        exact ih t ht hu
    · rw [if_neg hpreserved] at h
      rw [not_or, Bool.not_eq_true] at hpreserved
      exact .inr (.inr ⟨definition, c, arguments, List.mem_singleton.mp h, hpreserved⟩)

/-- No type parameter occurs in a named type that an expression needs. -/
theorem closed_of_mem_needs {t u : TypeTree} (h : u ∈ t.needs style) : u.hasParameter = false := by
  rcases cases_of_mem_needs h with ⟨id, e, rfl⟩ | ⟨id, c, rfl⟩ |
    ⟨definition, c, arguments, rfl, -, hclosed⟩
  · rfl
  · rfl
  · exact hclosed

/-- Where generic records are preserved, only enumerations and records are needed. -/
theorem definition_of_mem_needs {t u : TypeTree} (h : u ∈ t.needs .preserve) :
    (∃ id e, u = .enum id e) ∨ ∃ id c, u = .record id c := by
  rcases cases_of_mem_needs h with henum | hrecord | ⟨_, _, _, -, hstyle, -⟩
  · exact .inl henum
  · exact .inr hrecord
  · exact absurd rfl hstyle

/-- The named types that a type of a model needs are types of the model. -/
theorem Over.of_mem_needs {t u : TypeTree} (ht : t.Over a) (h : u ∈ t.needs style) : u.Over a := by
  induction ht with
  | primitive => cases h
  | parameter => cases h
  | enum he =>
    rw [List.mem_singleton.mp h]
    exact .enum he
  | record hc =>
    rw [List.mem_singleton.mp h]
    exact .record hc
  | nullable _ ih => exact ih h
  | array _ ih => exact ih h
  | dictionary hkey _ _ ih =>
    rcases List.mem_append.mp h with h | h
    · exact ih h
    · split at h
      · rw [List.mem_singleton.mp h]
        exact hkey
      · cases h
  | instantiation hc hinstantiates hlength harguments ih =>
    rw [needs] at h
    split at h
    · rw [needsAll_eq_flatMap] at h
      rcases List.mem_cons.mp h with rfl | h
      · exact .record hc
      · obtain ⟨t, ht, hu⟩ := List.mem_flatMap.mp h
        exact ih t ht hu
    · rw [List.mem_singleton.mp h]
      exact .instantiation hc hinstantiates hlength harguments

/-- Where a type has been converted, all named types that it needs are known, and its expression
refers to them. -/
theorem exists_link_of_expr? {t u : TypeTree} {e : Expr}
    (he : t.expr? style units scope = some e) (hu : u ∈ t.needs style) :
    ∃ unit, known units u.spelling = some unit ∧ ∃ node ∈ e.nodes, node.link? = some unit := by
  have hreference {t : TypeTree} {e : Expr} (he : reference? units t = some e) :
      ∃ unit, known units t.spelling = some unit ∧
        ∃ node ∈ e.nodes, node.link? = some unit := by
    obtain ⟨unit, hunit, rfl⟩ := Option.map_eq_some_iff.mp he
    exact ⟨unit, hunit, _, List.mem_singleton_self _, rfl⟩
  induction t generalizing e with
  | primitive kind => cases hu
  | parameter name => cases hu
  | enum id type =>
    rw [List.mem_singleton.mp hu]
    exact hreference he
  | record id c =>
    rw [List.mem_singleton.mp hu]
    rw [expr?] at he
    by_cases hgeneric : c.isGeneric = true
    · rw [if_pos hgeneric] at he
      cases he
    · rw [if_neg hgeneric] at he
      exact hreference he
  | nullable inner ih =>
    obtain ⟨e', he', rfl⟩ := Option.map_eq_some_iff.mp he
    obtain ⟨unit, hunit, node, hnode, hlink⟩ := ih he' hu
    exact ⟨unit, hunit, node, Expr.mem_nodes_unionOf_of_link (by simp) hnode hlink, hlink⟩
  | array element ih =>
    obtain ⟨e', he', rfl⟩ := Option.map_eq_some_iff.mp he
    obtain ⟨unit, hunit, node, hnode, hlink⟩ := ih he' hu
    exact ⟨unit, hunit, node, List.mem_cons_of_mem _ hnode, hlink⟩
  | dictionary key value _ ih =>
    simp only [expr?, Option.bind_eq_bind, Option.bind_eq_some_iff] at he
    obtain ⟨value', hvalue, he⟩ := he
    rcases List.mem_append.mp hu with hu | hu
    · -- Whatever the key, the expression of the value is a part of the whole.
      obtain ⟨unit, hunit, node, hnode, hlink⟩ := ih hvalue hu
      refine ⟨unit, hunit, node, ?_, hlink⟩
      split at he
      case h_5 =>
        obtain ⟨key', -, rfl⟩ := Option.map_eq_some_iff.mp he
        simp [Expr.nodes, hnode]
      case h_6 => cases he
      all_goals
        cases he
        simp [Expr.nodes, hnode]
    · cases key with
      | enum id type =>
        rw [List.mem_singleton.mp hu]
        obtain ⟨key', hkey, rfl⟩ := Option.map_eq_some_iff.mp he
        obtain ⟨unit, hunit, node, hnode, hlink⟩ := hreference hkey
        exact ⟨unit, hunit, node, by simp [Expr.nodes, hnode], hlink⟩
      | _ => cases hu
  | instantiation definition c arguments ih =>
    simp only [expr?, needs] at he hu
    by_cases hpreserved : style = .preserve ∨ anyHasParameter arguments = true
    · simp only [if_pos hpreserved, exprs?_eq_mapM, Option.bind_eq_bind,
        Option.bind_eq_some_iff] at he
      obtain ⟨unit, hunit, es, hes, he⟩ := he
      cases he
      rw [if_pos hpreserved, needsAll_eq_flatMap] at hu
      rcases List.mem_cons.mp hu with rfl | hu
      · exact ⟨unit, hunit, _, List.mem_cons_self, rfl⟩
      · obtain ⟨t, ht, hu⟩ := List.mem_flatMap.mp hu
        obtain ⟨e', hmem, he'⟩ := exists_mem_of_mapM hes ht
        obtain ⟨unit', hunit', node, hnode, hlink⟩ := ih t ht he' hu
        refine ⟨unit', hunit', node, ?_, hlink⟩
        rw [Expr.nodes, Expr.nodesList_eq_flatMap]
        exact List.mem_cons_of_mem _ (List.mem_flatMap.mpr ⟨e', hmem, hnode⟩)
    · rw [if_neg hpreserved] at he hu
      rw [List.mem_singleton.mp hu]
      exact hreference he

end Needs

/-! ### Early and late arguments -/

section Replace

variable {units : Registry} {scope : List String} {bindings : List (String × TypeTree)}
  {exprs : List (String × Expr)}

/-- Parameters are bound to the arguments and to the expressions of these. -/
theorem exists_lookup_zip {parameters : List String} {arguments : List TypeTree} {es : List Expr}
    (hnodup : parameters.Nodup) (hlength : parameters.length = arguments.length)
    (hes : arguments.mapM (expr? .preserve units []) = some es) {name : String}
    (hname : name ∈ parameters) :
    ∃ u e, (parameters.zip arguments).reverse.lookup name = some u ∧
      (parameters.zip es).lookup name = some e ∧ u.expr? .preserve units [] = some e := by
  rw [mapM_eq_some_iff] at hes
  obtain ⟨i, hi, rfl⟩ := List.mem_iff_getElem.mp hname
  have hi' : i < arguments.length := hlength ▸ hi
  have hi'' : i < es.length := hes.length_eq ▸ hi'
  have hmem : (parameters[i], arguments[i]) ∈ parameters.zip arguments :=
    List.mem_iff_getElem.mpr ⟨i, by rw [List.length_zip]; omega, List.getElem_zip⟩
  have hmem' : (parameters[i], es[i]) ∈ parameters.zip es :=
    List.mem_iff_getElem.mpr ⟨i, by rw [List.length_zip]; omega, List.getElem_zip⟩
  refine ⟨arguments[i], es[i], lookup_of_mem ?_ (List.mem_reverse.mpr hmem),
    lookup_of_mem ?_ hmem', hes.get hi' hi''⟩
  · rw [List.map_reverse, List.nodup_reverse, List.map_fst_zip (Nat.le_of_eq hlength)]
    exact hnodup
  · rw [List.map_fst_zip (Nat.le_of_eq (hlength.trans hes.length_eq))]
    exact hnodup

end Replace

/-! ### Reading the units of one generation in the other -/

section Reading

variable {units units' : Registry} {scope : List String} {reading : UnitId → Expr}

/-- The unit that the first registry has for a type is read as what a reference to the type says
in the second one. -/
def Reads (units units' : Registry) (reading : UnitId → Expr) (t : TypeTree) : Prop :=
  ∀ ⦃unit e⦄, known units t.spelling = some unit → t.meaning? .preserve units' = some e →
    reading unit.1 = e

/-- A reference to a type is read as what it says. -/
theorem Reads.reference {t : TypeTree} (h : t.Reads units units' reading) {e e' : Expr}
    (he : reference? units t = some e) (he' : t.meaning? .preserve units' = some e') :
    e.readAs reading = e' := by
  obtain ⟨unit, hunit, rfl⟩ := Option.map_eq_some_iff.mp he
  exact h hunit he'

end Reading

end TypeTree

end Declgen.Walk
