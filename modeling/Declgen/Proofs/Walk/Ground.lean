import Declgen.Proofs.Types.Readable
import Declgen.Proofs.Walk.Documents
import Declgen.Proofs.Walk.Styles

/-!
# Types that a walk reaches

Whatever a walk reaches belongs to the model, and no type parameter occurs in it. In a readable
model such a type is told by its identity, so a unit with this identity belongs to the type.
-/

namespace Declgen.Walk

open Model TypeScript Declgen.Units

/-! ### Reached types -/

section Reached

variable {style : GenericStyle} {a : Arena} {roots : List TypeId} {t u : TypeTree}

/-- What a declaration needs, a member of its type needs. -/
theorem exists_member_of_mem_dependencies (hu : u ∈ t.dependencies style a) :
    ∃ members, t.members? a = some members ∧ ∃ m ∈ members, u ∈ m.type.needs style := by
  obtain ⟨m, hm, hu⟩ := List.mem_flatMap.mp hu
  cases hmembers : t.members? a with
  | none =>
    rw [hmembers] at hm
    cases hm
  | some members =>
    rw [hmembers] at hm
    exact ⟨members, rfl, m, hm, hu⟩

/-- A type that can be reached belongs to the model and has no type parameters. -/
theorem Reached.ground (ha : a.WellFormed) (hroots : ∀ id : Nat, id ∈ roots → id < a.size)
    (h : Reached style a roots t) : TypeTree.Ground a t := by
  have hneeds {r u : TypeTree} (hr : r.Over a) (hu : u ∈ r.needs style) : TypeTree.Ground a u :=
    ⟨hr.of_mem_needs hu, TypeTree.closed_of_mem_needs hu⟩
  induction h with
  | @root id t hid ht =>
    have hover := modelTree_over ha (hroots id hid)
    generalize modelTree a id = r at hover ht
    cases r with
    | enum id e =>
      rw [List.mem_singleton.mp ht]
      exact ⟨hover, rfl⟩
    | record id c =>
      rw [List.mem_singleton.mp ht]
      exact ⟨hover, rfl⟩
    | _ => exact hneeds hover ht
  | dependency _ hu ih =>
    obtain ⟨members, hmembers, m, hm, hu⟩ := exists_member_of_mem_dependencies hu
    exact hneeds (TypeTree.members?_over ha ih.inModel hmembers m hm) hu

/-- Where generic records are preserved, only enumerations and records are reached. -/
theorem Reached.definition (h : Reached .preserve a roots t) :
    (∃ id e, t = .enum id e) ∨ ∃ id c, t = .record id c := by
  cases h with
  | @root id _ hid ht =>
    generalize modelTree a id = r at ht
    cases r with
    | enum id e => exact .inl ⟨id, e, List.mem_singleton.mp ht⟩
    | record id c => exact .inr ⟨id, c, List.mem_singleton.mp ht⟩
    | _ => exact TypeTree.definition_of_mem_needs ht
  | dependency _ hu =>
    obtain ⟨members, -, m, -, hu⟩ := exists_member_of_mem_dependencies hu
    exact TypeTree.definition_of_mem_needs hu

end Reached

/-! ### Units of reached types -/

section Units

variable {setup : Setup} {a : Arena} {roots : List TypeId} {trees : List TypeTree} {s : State}
  {units : List Completed} {t : TypeTree}

/-- The type of a unit belongs to the model and has no type parameters. -/
theorem Walked.ground (h : Walked setup a roots trees s units) (ha : a.WellFormed)
    (hroots : ∀ id : Nat, id ∈ roots → id < a.size) (ht : t ∈ trees) : TypeTree.Ground a t :=
  (h.model ▸ h.sound.reached t ht).ground ha hroots

/-- In a readable model the unit with the identity of a type belongs to this type. -/
theorem Walked.unitOf (h : Walked setup a roots trees s units) (ha : a.WellFormed)
    (hreadable : Readable a) (hroots : ∀ id : Nat, id ∈ roots → id < a.size)
    (ht : TypeTree.Ground a t) {unit : UnitId × String}
    (hknown : known s.progress.units t.spelling = some unit) :
    trees[unit.1]? = some t ∧ ∃ u, units[unit.1]? = some u ∧ u.id = unit.1 ∧
      u.header.name = unit.2 ∧ UnitOf setup.options a s.progress.units t u := by
  obtain ⟨u, hu, hkey, hname⟩ := h.exists_unit hknown
  obtain ⟨hid, t', ht', hunitOf⟩ := h.unit unit.1 u hu
  have hground := h.ground ha hroots (List.mem_of_getElem? ht')
  have heq := TypeTree.spelling_injective hreadable hground ht (hunitOf.key.symm.trans hkey)
  subst heq
  exact ⟨ht', u, hu, hid, hname, hunitOf⟩

/-- The types of all members have expressions where a unit has been declared. -/
theorem UnitOf.exists_expr? {options : Options} {registry : Registry} {unit : Completed}
    (h : UnitOf options a registry t unit) {members : List TreeMember}
    (hmembers : t.members? a = some members) {m : TreeMember} (hm : m ∈ members) :
    ∃ e, m.type.expr? options.generics registry t.scope = some e := by
  have henum : ∀ id e, t ≠ .enum id e := by
    rintro id e rfl
    cases hmembers
  obtain ⟨members', fields, hmembers', hfields, -⟩ := TypeTree.exists_fields henum h.declaration
  cases hmembers.symm.trans hmembers'
  obtain ⟨f, -, hf⟩ := exists_mem_of_mapM hfields hm
  obtain ⟨e, he, -⟩ := Option.map_eq_some_iff.mp hf
  exact ⟨e, he⟩

/-- Every unit belongs to a named type of the graph. -/
theorem Walked.exists_source (h : Walked setup a roots trees s units) {unit : Completed}
    (hunit : unit ∈ units) : ∃ (id : Nat) (d : Descriptor), s.graph.get id = .ok d ∧
      d.isNamed = true ∧ id < s.graph.size ∧ s.graph.tree id ∈ trees ∧
      identity s.graph id = .ok unit.key := by
  obtain ⟨i, hi⟩ := List.mem_iff_getElem?.mp hunit
  obtain ⟨-, t, ht, hunitOf⟩ := h.unit i unit hi
  have hmem := List.mem_of_getElem? ht
  obtain ⟨id, hid, rfl⟩ := h.sound.source t hmem
  obtain ⟨d, hd, -⟩ := h.sound.graph.exists_get hid
  have htree := h.sound.graph.tree_eq hd
  have hnamed := TypeTree.isNamed_of_header? hunitOf.header
  refine ⟨id, d, hd, ?_, hid, hmem, ?_⟩
  · rw [htree] at hnamed
    cases d with
    | enum e => rfl
    | complex c => rfl
    | instantiation definition arguments => rfl
    | _ => cases hnamed
  · rw [identity_eq h.sound.graph hid, hunitOf.key]

end Units

end Declgen.Walk
