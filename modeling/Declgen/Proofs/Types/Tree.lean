import Declgen.Walk.Identity
import Mathlib.Data.List.Forall2

/-!
# Types written out in full

A walk holds types as numbers in a graph. Written out in full, a type is a tree whose leaves are
primitive types, type parameters, and the records and enumerations of the model. Two types have
the same tree exactly if they have the same structure, however the graph numbers their parts, so
trees are what the statements about a walk speak of.
-/

namespace Declgen.Walk

open Model Declgen.Units

/-- A type written out in full, down to the records and enumerations of the model. -/
inductive TypeTree where
  /-- A type without parts. -/
  | primitive (kind : Primitive)
  /-- An enumeration with its number in the model. -/
  | enum (id : TypeId) (type : EnumType)
  /-- A record with its number in the model. -/
  | record (id : TypeId) (type : ComplexType)
  /-- A type parameter. -/
  | parameter (name : String)
  /-- Another type or null. -/
  | nullable (inner : TypeTree)
  /-- A list. -/
  | array (element : TypeTree)
  /-- A map from keys to values. -/
  | dictionary (key value : TypeTree)
  /-- A generic record, with its number in the model, applied to type arguments. -/
  | instantiation (definition : TypeId) (type : ComplexType) (arguments : List TypeTree)

/-- Looking up a name after all values have been mapped. -/
theorem lookup_map_snd {α β : Type} (f : α → β) (bindings : List (String × α)) (name : String) :
    (bindings.map fun binding => (binding.1, f binding.2)).lookup name =
      (bindings.lookup name).map f := by
  induction bindings with
  | nil => rfl
  | cons binding bindings ih =>
    obtain ⟨other, value⟩ := binding
    simp only [List.map_cons, List.lookup_cons]
    cases name == other
    · exact ih
    · rfl

/-- Where no name is bound twice, looking up a name gives what it is bound to. -/
theorem lookup_of_mem {α : Type} {bindings : List (String × α)}
    (hnodup : (bindings.map fun binding => binding.1).Nodup) {name : String} {value : α}
    (h : (name, value) ∈ bindings) : bindings.lookup name = some value := by
  obtain ⟨before, after, rfl⟩ := List.append_of_mem h
  refine List.lookup_eq_some_iff.mpr ⟨before, after, rfl, fun binding hbinding => ?_⟩
  rw [List.map_append, List.map_cons, List.nodup_append] at hnodup
  rw [bne_iff_ne]
  exact (hnodup.2.2 binding.1 (List.mem_map_of_mem hbinding) name List.mem_cons_self).symm

namespace TypeTree

/-- Induction over the parts of a type. The arguments of an instantiation come all at once. -/
@[induction_eliminator]
theorem induct {motive : TypeTree → Prop} (primitive : ∀ kind, motive (.primitive kind))
    (enum : ∀ id e, motive (.enum id e)) (record : ∀ id c, motive (.record id c))
    (parameter : ∀ name, motive (.parameter name))
    (nullable : ∀ inner, motive inner → motive (.nullable inner))
    (array : ∀ element, motive element → motive (.array element))
    (dictionary : ∀ key value, motive key → motive value → motive (.dictionary key value))
    (instantiation : ∀ definition c arguments, (∀ t ∈ arguments, motive t) →
      motive (.instantiation definition c arguments)) (t : TypeTree) : motive t :=
  @TypeTree.rec motive (fun ts => ∀ t ∈ ts, motive t) primitive enum record parameter nullable
    array dictionary instantiation (fun _ h => absurd h List.not_mem_nil)
    (fun _ _ head tail _ h => (List.mem_cons.mp h).elim (fun eq => eq ▸ head) (tail _)) t

/-! ### Spelling -/

mutual

/-- The identity of a type, spelled from its tree. -/
def spelling : TypeTree → String
  | .primitive kind => kind.name
  | .enum _ e => e.qualifiedName
  | .record _ c => recordIdentity c
  | .parameter name => "!" ++ name
  | .nullable inner => spelling inner ++ "?"
  | .array element => spelling element ++ "[]"
  | .dictionary key value => "Dictionary[" ++ spelling key ++ "," ++ spelling value ++ "]"
  | .instantiation _ c arguments =>
    recordIdentity c ++ "[" ++ String.intercalate "," (spellings arguments) ++ "]"

/-- The identities of several types. -/
def spellings : List TypeTree → List String
  | [] => []
  | t :: ts => spelling t :: spellings ts

end

/-- Several identities are spelled one by one. -/
@[simp] theorem spellings_eq_map (ts : List TypeTree) : spellings ts = ts.map spelling := by
  induction ts with
  | nil => rfl
  | cons t ts ih => rw [spellings, ih, List.map_cons]

/-! ### Type parameters -/

mutual

/-- Whether a type parameter occurs in a type. -/
def hasParameter : TypeTree → Bool
  | .primitive _ | .enum .. | .record .. => false
  | .parameter _ => true
  | .nullable inner => hasParameter inner
  | .array element => hasParameter element
  | .dictionary key value => hasParameter key || hasParameter value
  | .instantiation _ _ arguments => anyHasParameter arguments

/-- Whether a type parameter occurs in one of several types. -/
def anyHasParameter : List TypeTree → Bool
  | [] => false
  | t :: ts => hasParameter t || anyHasParameter ts

end

/-- Parameters of several types are looked for one by one. -/
@[simp] theorem anyHasParameter_eq_any (ts : List TypeTree) :
    anyHasParameter ts = ts.any hasParameter := by
  induction ts with
  | nil => rfl
  | cons t ts ih => rw [anyHasParameter, ih, List.any_cons]

mutual

/-- The type in which parameters are replaced by the types bound to them. -/
def replace (bindings : List (String × TypeTree)) : TypeTree → TypeTree
  | .parameter name => (bindings.lookup name).getD (.parameter name)
  | .nullable inner => .nullable (replace bindings inner)
  | .array element => .array (replace bindings element)
  | .dictionary key value => .dictionary (replace bindings key) (replace bindings value)
  | .instantiation definition c arguments =>
    .instantiation definition c (replaceAll bindings arguments)
  | t => t

/-- Several types in which parameters are replaced. -/
def replaceAll (bindings : List (String × TypeTree)) : List TypeTree → List TypeTree
  | [] => []
  | t :: ts => replace bindings t :: replaceAll bindings ts

end

/-- Parameters of several types are replaced one by one. -/
@[simp] theorem replaceAll_eq_map (bindings : List (String × TypeTree)) (ts : List TypeTree) :
    replaceAll bindings ts = ts.map (replace bindings) := by
  induction ts with
  | nil => rfl
  | cons t ts ih => rw [replaceAll, ih, List.map_cons]

/-- Without bindings nothing changes. -/
@[simp] theorem replace_nil (t : TypeTree) : replace [] t = t := by
  induction t with
  | instantiation definition c arguments ih =>
    simp only [replace, replaceAll_eq_map, List.map_congr_left ih, List.map_id_fun', id]
  | _ => simp_all [replace]

/-! ### Names and headers -/

/-- The name made for a type of at most `levels` levels. -/
def name? : Nat → TypeTree → Option String
  | 0, _ => none
  | levels + 1, t =>
    match t with
    | .primitive kind => some (pascalName kind.name)
    | .enum _ e => some (pascalName e.name)
    | .record _ c => some (pascalName c.name)
    | .parameter name => some (pascalName name)
    | .nullable inner => return "Nullable" ++ (← name? levels inner)
    | .array element => return (← name? levels element) ++ "Array"
    | .dictionary key value =>
      return (← name? levels key) ++ "To" ++ (← name? levels value) ++ "Dictionary"
    | .instantiation definition c arguments =>
      return (← name? levels (.record definition c)) ++ "Of" ++
        String.intercalate "And" (← arguments.mapM (name? levels))

/-- The header of the unit for a type, if it is named and its name has an end. -/
def header? : TypeTree → Option Header
  | .record _ c => some ⟨TypeScript.typeName c.name, c.space, c.typeParams⟩
  | .enum _ e => some ⟨TypeScript.typeName e.name, e.space, []⟩
  | .instantiation definition c arguments =>
    (name? nameLevels (.instantiation definition c arguments)).map fun name =>
      ⟨TypeScript.safeName name, c.space, []⟩
  | _ => none

/-- Whether a type becomes a declaration of its own. -/
def isNamed : TypeTree → Bool
  | .enum .. | .record .. | .instantiation .. => true
  | _ => false

/-- A type with a header is named. -/
theorem isNamed_of_header? {t : TypeTree} {header : Header} (h : t.header? = some header) :
    t.isNamed = true := by
  cases t <;> simp_all [header?, isNamed]

end TypeTree

end Declgen.Walk
