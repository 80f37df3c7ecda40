import Declgen.Proofs.Types.Members

/-!
# The members of instances

The members of an instantiation are those of its record with the arguments put in for the
parameters. Both are gathered along the same chain of bases, but with other bindings: for the
instantiation the arguments are known from the start, for the record they are put in at the end.
Where the first way leaves no parameter over, both give the same types.
-/

namespace Declgen.Walk

open Model

/-- Replacing by `whole` is replacing by `first` and then by `rest`, unless a parameter is left
over. -/
def Factors (whole first rest : List (String × TypeTree)) : Prop :=
  ∀ t : TypeTree, (t.replace whole).hasParameter = false →
    t.replace whole = (t.replace first).replace rest

section Factors

variable {whole first rest : List (String × TypeTree)}

/-- It is enough to look at the parameters themselves. -/
theorem factors_of_parameter
    (h : ∀ name, ((TypeTree.parameter name).replace whole).hasParameter = false →
      (TypeTree.parameter name).replace whole =
        ((TypeTree.parameter name).replace first).replace rest) : Factors whole first rest := by
  intro t ht
  induction t with
  | primitive kind => rfl
  | enum id e => rfl
  | record id c => rfl
  | parameter name => exact h name ht
  | nullable inner ih => exact congrArg TypeTree.nullable (ih ht)
  | array element ih => exact congrArg TypeTree.array (ih ht)
  | dictionary key value ihkey ihvalue =>
    simp only [TypeTree.replace, TypeTree.hasParameter, Bool.or_eq_false_iff] at ht ⊢
    rw [ihkey ht.1, ihvalue ht.2]
  | instantiation definition c arguments ih =>
    simp only [TypeTree.replace, TypeTree.replaceAll_eq_map, TypeTree.hasParameter,
      TypeTree.anyHasParameter_eq_any, List.any_map, List.any_eq_false, Function.comp_apply,
      Bool.not_eq_true, List.map_map] at ht ⊢
    rw [List.map_congr_left fun t hmem => ih t hmem (ht t hmem)]
    rfl

/-- Bindings to arguments factor if the replacements in the arguments do. -/
theorem Factors.arguments (h : Factors whole first rest) (parameters : List String)
    (arguments : List TypeTree) :
    Factors (parameters.zip (arguments.map (TypeTree.replace whole))).reverse
      (parameters.zip (arguments.map (TypeTree.replace first))).reverse rest := by
  refine factors_of_parameter fun name hclosed => ?_
  have hzip (f : TypeTree → TypeTree) : (parameters.zip (arguments.map f)).reverse =
      (parameters.zip arguments).reverse.map fun binding => (binding.1, f binding.2) := by
    rw [List.map_reverse, List.zip_map_right]
    rfl
  simp only [TypeTree.replace, hzip, lookup_map_snd] at hclosed ⊢
  cases hlookup : (parameters.zip arguments).reverse.lookup name with
  | none =>
    rw [hlookup] at hclosed
    cases hclosed
  | some t =>
    rw [hlookup] at hclosed
    exact h t hclosed

end Factors

/-- A member of an instantiation and the member of its record from which it comes. -/
structure TreeMember.Instance (rest : List (String × TypeTree)) (m m' : TreeMember) : Prop where
  /-- The names agree. -/
  name : m.name = m'.name
  /-- Both may be left out, or none. -/
  optional : m.optional = m'.optional
  /-- Both may be null, or none. -/
  nullable : m.nullable = m'.nullable
  /-- The documentation is the same. -/
  doc : m.doc = m'.doc
  /-- The type of the instantiation is that of the record with parameters replaced, unless a
  parameter is left over. -/
  type : m.type.hasParameter = false → m.type = m'.type.replace rest

variable {a : Arena} {whole first rest bindings bindings' : List (String × TypeTree)}

/-- Members take the same places. -/
theorem TreeMember.Instance.place {m m' : TreeMember} (h : m.Instance rest m')
    {members members' : List TreeMember}
    (hmembers : List.Forall₂ (TreeMember.Instance rest) members members') :
    List.Forall₂ (TreeMember.Instance rest) (m.place members) (m'.place members') := by
  induction hmembers with
  | nil => exact .cons h .nil
  | @cons other other' members members' head tail ih =>
    rw [TreeMember.place, TreeMember.place, ← head.name, ← h.name]
    split
    · exact .cons h tail
    · exact .cons head ih

/-- A base names the same record with bindings that factor again. -/
theorem Factors.record? (h : Factors whole first rest) {t : TypeTree} {c c' : ComplexType}
    (ht : t.record? whole = some (c, bindings)) (ht' : t.record? first = some (c', bindings')) :
    c = c' ∧ Factors bindings bindings' rest := by
  cases t with
  | record id c =>
    cases ht
    cases ht'
    exact ⟨rfl, h⟩
  | instantiation definition c arguments =>
    cases ht
    cases ht'
    exact ⟨rfl, h.arguments c.typeParams arguments⟩
  | _ => cases ht

end Declgen.Walk
