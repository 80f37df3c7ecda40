import Declgen.Proofs.TypeScript.Comparison
import Mathlib.Logic.Function.Basic

/-!
# Other numbers for units

The numbers of units say in which order a walk has met them. Giving the units other numbers changes
the references of an expression and nothing else. A renumbering that tells units apart also keeps
which alternatives of a union are repetitions, so it does not matter whether a union is made before
or after it.
-/

namespace Declgen.TypeScript

namespace Expr

/-- The expression in which units have other numbers. -/
def renumber (f : UnitId → UnitId) (e : Expr) : Expr :=
  e.rewrite ⟨.parameter, fun unit => .reference (f unit), fun unit => .genericReference (f unit)⟩

variable {f g : UnitId → UnitId}

/-- A keyword has no units in it. -/
@[simp] theorem renumber_keyword (word : Keyword) : (keyword word).renumber f = .keyword word := rfl

/-- A constant has no units in it. -/
@[simp] theorem renumber_literal (value : Literal) : (literal value).renumber f = .literal value :=
  rfl

/-- A verbatim text has no units in it. -/
@[simp] theorem renumber_verbatim (text : String) : (verbatim text).renumber f = .verbatim text :=
  rfl

/-- A reference gets the new number of its unit. -/
@[simp] theorem renumber_reference (unit : UnitId) (name : String) :
    (reference unit name).renumber f = .reference (f unit) name := rfl

/-- So does an applied reference, and its arguments are renumbered. -/
@[simp] theorem renumber_genericReference (unit : UnitId) (name : String) (arguments : List Expr) :
    (genericReference unit name arguments).renumber f =
      .genericReference (f unit) name (arguments.map (renumber f)) := by
  rw [renumber, rewrite, rewriteList_eq_map]
  rfl

/-- A type parameter has no units in it. -/
@[simp] theorem renumber_parameter (name : String) :
    (parameter name).renumber f = .parameter name := rfl

/-- An array is renumbered in its elements. -/
@[simp] theorem renumber_array (element : Expr) :
    (array element).renumber f = .array (element.renumber f) := rfl

/-- A union is renumbered in its members. -/
@[simp] theorem renumber_union (members : List Expr) :
    (union members).renumber f = .union (members.map (renumber f)) := by
  rw [renumber, rewrite, rewriteList_eq_map]
  rfl

/-- An object is renumbered in the types of its fields. -/
@[simp] theorem renumber_object (fields : List (Field Expr)) : (object fields).renumber f =
    .object (fields.map fun field => { field with type := field.type.renumber f }) := by
  rw [renumber, rewrite, rewriteFields_eq_map]
  rfl

/-- An index signature is renumbered in its key and its value. -/
@[simp] theorem renumber_index (key value : Expr) :
    (index key value).renumber f = .index (key.renumber f) (value.renumber f) := rfl

/-- So is a mapped type. -/
@[simp] theorem renumber_mapped (key value : Expr) (optional : Bool) :
    (mapped key value optional).renumber f =
      .mapped (key.renumber f) (value.renumber f) optional := rfl

/-- Renumbering back and forth changes nothing. -/
theorem renumber_leftInverse (h : Function.LeftInverse g f) :
    Function.LeftInverse (renumber g) (renumber f) := by
  intro e
  induction e with
  | reference unit name => simp [h unit]
  | genericReference unit name arguments ih =>
    have harguments : arguments.map (renumber g ∘ renumber f) = arguments :=
      (List.map_congr_left ih).trans (List.map_id' arguments)
    simp [h unit, harguments]
  | array element ih => simp [ih]
  | union members ih =>
    have hmembers : members.map (renumber g ∘ renumber f) = members :=
      (List.map_congr_left ih).trans (List.map_id' members)
    simp [hmembers]
  | object fields ih =>
    have hfields : fields.map (fun field =>
        { field with type := (field.type.renumber f).renumber g }) = fields :=
      (List.map_congr_left fun field hfield => by rw [ih field hfield]).trans (List.map_id' fields)
    rw [renumber_object, renumber_object, List.map_map]
    exact congrArg object hfields
  | index key value ihkey ihvalue => simp [ihkey, ihvalue]
  | mapped key value optional ihkey ihvalue => simp [ihkey, ihvalue]
  | _ => rfl

/-- A renumbering that tells units apart tells expressions apart. -/
theorem renumber_injective (hf : Function.Injective f) : Function.Injective (renumber f) := by
  obtain ⟨g, hg⟩ := hf.hasLeftInverse
  exact (renumber_leftInverse hg).injective

/-! ### Unions -/

/-- The alternatives are renumbered one by one. -/
theorem alternatives_renumber (e : Expr) :
    (e.renumber f).alternatives = e.alternatives.map (renumber f) := by
  cases e <;> simp [alternatives]

/-- A type is made of renumbered alternatives as of the old ones. -/
theorem renumber_ofAlternatives (parts : List Expr) :
    (ofAlternatives parts).renumber f = ofAlternatives (parts.map (renumber f)) := by
  match parts with
  | [] => rfl
  | [part] => rfl
  | first :: second :: rest => simp [ofAlternatives]

/-- If distinct numbers stay distinct, repetitions are found as before. -/
theorem renumber_unionOf (hf : Function.Injective f) (members : List Expr) :
    (unionOf members).renumber f = unionOf (members.map (renumber f)) := by
  have halternatives : (members.map (renumber f)).flatMap alternatives =
      (members.flatMap alternatives).map (renumber f) := by
    rw [List.flatMap_map, List.map_flatMap]
    exact List.flatMap_congr fun member _ => alternatives_renumber member
  rw [unionOf_eq, unionOf_eq, renumber_ofAlternatives, halternatives,
    eraseDups_map fun _ _ _ _ heq => renumber_injective hf heq]

/-- Making a type nullable does not depend on numbers that stay distinct. -/
theorem renumber_nullable (hf : Function.Injective f) (e : Expr) :
    e.nullable.renumber f = (e.renumber f).nullable :=
  renumber_unionOf hf _

/-! ### References -/

/-- The units that are mentioned have the new numbers. -/
theorem mentions_renumber (e : Expr) : (e.renumber f).mentions = e.mentions.map f := by
  induction e with
  | genericReference unit name arguments ih =>
    simp only [renumber_genericReference, mentions, mentionsList_eq_flatMap, List.map_cons,
      List.flatMap_map, List.map_flatMap]
    exact congrArg _ (List.flatMap_congr ih)
  | array element ih => simpa only [renumber_array, mentions] using ih
  | union members ih =>
    simp only [renumber_union, mentions, mentionsList_eq_flatMap, List.flatMap_map,
      List.map_flatMap]
    exact List.flatMap_congr ih
  | object fields ih =>
    simp only [renumber_object, mentions, mentionsFields_eq_flatMap, List.flatMap_map,
      List.map_flatMap]
    exact List.flatMap_congr ih
  | index key value ihkey ihvalue => simp [mentions, ihkey, ihvalue]
  | mapped key value optional ihkey ihvalue => simp [mentions, ihkey, ihvalue]
  | _ => rfl

/-- So have the units that an expression refers to, if distinct numbers stay distinct. -/
theorem references_renumber (hf : Function.Injective f) (e : Expr) :
    (e.renumber f).references = e.references.map f := by
  rw [references, references, mentions_renumber, eraseDups_map fun _ _ _ _ heq => hf heq]

end Expr

namespace Declaration

/-- The declaration in which units have other numbers. -/
def renumber (f : UnitId → UnitId) : Declaration → Declaration
  | .alias name typeParams type => .alias name typeParams (type.renumber f)
  | .enum name members => .enum name members

/-- The units that a declaration refers to have the new numbers, if distinct numbers stay distinct.
-/
theorem references_renumber {f : UnitId → UnitId} (hf : Function.Injective f) :
    ∀ declaration : Declaration, (declaration.renumber f).references = declaration.references.map f
  | .alias _ _ type => type.references_renumber hf
  | .enum _ _ => rfl

end Declaration

end Declgen.TypeScript
