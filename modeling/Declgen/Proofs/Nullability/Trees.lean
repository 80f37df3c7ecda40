import Declgen.Proofs.Alike.Types
import Declgen.Proofs.Types.Tree

/-!
# Types up to repeated nullability

A type that may be null says no more if it is said once more that it may be null. Two types agree up
to repeated nullability if they differ in such repetitions only. Whether they may differ within the
arguments of instantiations, too, is a matter of choice: these arguments show in identities and in
names, and there every repetition is written down.
-/

namespace Declgen.Walk

open Model Declgen.Units

/-- Two types agree up to repeated nullability. They may differ where `here` says so, and in the
arguments of instantiations where `inside` says so. Definitions are those of two models, in which
they have the same numbers. -/
inductive TypeTree.Agrees (inside : Bool) : Bool → TypeTree → TypeTree → Prop
  /-- The same primitive type. -/
  | primitive {here : Bool} (kind : Primitive) :
    Agrees inside here (.primitive kind) (.primitive kind)
  /-- The same enumeration. -/
  | enum {here : Bool} (id : TypeId) (e : EnumType) : Agrees inside here (.enum id e) (.enum id e)
  /-- Records with the same number. -/
  | record {here : Bool} (id : TypeId) {c c' : ComplexType} (h : c.SameHead c') :
    Agrees inside here (.record id c) (.record id c')
  /-- The same type parameter. -/
  | parameter {here : Bool} (name : String) : Agrees inside here (.parameter name) (.parameter name)
  /-- Types that agree, or null. -/
  | nullable {here : Bool} {t u : TypeTree} (h : Agrees inside here t u) :
    Agrees inside here (.nullable t) (.nullable u)
  /-- The first type repeats that it may be null. -/
  | left {t u : TypeTree} (h : Agrees inside true (.nullable t) u) :
    Agrees inside true (.nullable (.nullable t)) u
  /-- The second type repeats that it may be null. -/
  | right {t u : TypeTree} (h : Agrees inside true t (.nullable u)) :
    Agrees inside true t (.nullable (.nullable u))
  /-- Lists of types that agree. -/
  | array {here : Bool} {t u : TypeTree} (h : Agrees inside here t u) :
    Agrees inside here (.array t) (.array u)
  /-- Maps between types that agree. -/
  | dictionary {here : Bool} {key key' value value' : TypeTree} (hkey : Agrees inside here key key')
    (hvalue : Agrees inside here value value') :
    Agrees inside here (.dictionary key value) (.dictionary key' value')
  /-- Records with the same number, applied to arguments that agree one by one. -/
  | instantiation {here : Bool} (definition : TypeId) {c c' : ComplexType}
    {arguments arguments' : List TypeTree} (h : c.SameHead c')
    (hlength : arguments.length = arguments'.length)
    (harguments : ∀ t u, (t, u) ∈ arguments.zip arguments' → Agrees inside inside t u) :
    Agrees inside here (.instantiation definition c arguments)
      (.instantiation definition c' arguments')

namespace TypeTree.Agrees

variable {inside here : Bool} {t u : TypeTree}

/-- Types agree in both directions. -/
theorem symm (h : t.Agrees inside here u) : u.Agrees inside here t := by
  induction h with
  | primitive kind => exact .primitive kind
  | enum id e => exact .enum id e
  | record id h => exact .record id h.symm
  | parameter name => exact .parameter name
  | nullable _ ih => exact .nullable ih
  | left _ ih => exact .right ih
  | right _ ih => exact .left ih
  | array _ ih => exact .array ih
  | dictionary _ _ ihkey ihvalue => exact .dictionary ihkey ihvalue
  | @instantiation _ definition _ _ arguments arguments' h hlength _ ih =>
    have hall : List.Forall₂ (fun t u => u.Agrees inside inside t) arguments arguments' :=
      List.forall₂_iff_zip.mpr ⟨hlength, fun {_ _} => ih _ _⟩
    exact .instantiation definition h.symm hlength.symm fun _ _ =>
      (List.forall₂_iff_zip.mp hall.flip).2

/-- Types that agree where nothing may differ agree anyway. -/
theorem weaken (h : t.Agrees inside here u) : t.Agrees inside true u := by
  induction h with
  | primitive kind => exact .primitive kind
  | enum id e => exact .enum id e
  | record id h => exact .record id h
  | parameter name => exact .parameter name
  | nullable _ ih => exact .nullable ih
  | left h _ => exact .left h
  | right h _ => exact .right h
  | array _ ih => exact .array ih
  | dictionary _ _ ihkey ihvalue => exact .dictionary ihkey ihvalue
  | instantiation definition h hlength harguments _ =>
    exact .instantiation definition h hlength harguments

/-- Types that agree are named together. -/
theorem isNamed_eq (h : t.Agrees inside here u) : t.isNamed = u.isNamed := by
  induction h with
  | left _ ih => exact ih
  | right _ ih => exact ih
  | _ => rfl

/-- A type that agrees with one that may be null may be null. -/
theorem exists_nullable (h : t.Agrees inside here (.nullable u)) : ∃ t', t = .nullable t' := by
  generalize hv : TypeTree.nullable u = v at h
  induction h generalizing u with
  | nullable => exact ⟨_, rfl⟩
  | left => exact ⟨_, rfl⟩
  | right _ ih => exact ih rfl
  | _ => cases hv

/-- Types that agree have parameters in them both, or none has. -/
theorem hasParameter_eq (h : t.Agrees inside here u) : t.hasParameter = u.hasParameter := by
  induction h with
  | nullable _ ih => exact ih
  | left _ ih => exact ih
  | right _ ih => exact ih
  | array _ ih => exact ih
  | dictionary _ _ ihkey ihvalue => rw [hasParameter, hasParameter, ihkey, ihvalue]
  | instantiation definition h hlength _ ih =>
    have hmap := map_eq_map_of_forall₂ (List.forall₂_iff_zip.mpr ⟨hlength, fun {_ _} => ih _ _⟩)
    have hany {ts : List TypeTree} : ts.any hasParameter = (ts.map hasParameter).any id := by
      rw [List.any_map]
      rfl
    rw [hasParameter, hasParameter, anyHasParameter_eq_any, anyHasParameter_eq_any, hany, hany,
      hmap]
  | _ => rfl

/-! ### Replacing parameters -/

/-- Two parameters are bound that have the same name, to arguments that agree. -/
def Binding (inside : Bool) (b b' : String × TypeTree) : Prop :=
  b.1 = b'.1 ∧ b.2.Agrees inside inside b'.2

/-- A parameter is bound to arguments that agree, or it is not bound at all. -/
theorem lookup {bindings bindings' : List (String × TypeTree)}
    (h : List.Forall₂ (Binding inside) bindings bindings') (name : String) :
    Option.Rel (Agrees inside inside) (bindings.lookup name) (bindings'.lookup name) := by
  induction h with
  | nil => exact .none
  | @cons b b' bindings bindings' head _ ih =>
    obtain ⟨parameter, argument⟩ := b
    obtain ⟨parameter', argument'⟩ := b'
    obtain ⟨rfl, hargument⟩ := head
    rw [List.lookup_cons, List.lookup_cons]
    cases name == parameter with
    | true => exact .some hargument
    | false => exact ih

/-- Parameters are bound one by one to arguments that agree. -/
theorem binding_zip {parameters : List String} {arguments arguments' : List TypeTree}
    (h : List.Forall₂ (Agrees inside inside) arguments arguments') :
    List.Forall₂ (Binding inside) (parameters.zip arguments) (parameters.zip arguments') := by
  induction h generalizing parameters with
  | nil => simp
  | cons head _ ih =>
    cases parameters with
    | nil => exact .nil
    | cons parameter parameters => exact .cons ⟨rfl, head⟩ ih

/-- Replacing parameters by types that agree gives types that agree. -/
theorem replace (h : t.Agrees inside here u) (hhere : here = true ∨ here = inside)
    {bindings bindings' : List (String × TypeTree)}
    (hb : List.Forall₂ (Binding inside) bindings bindings') :
    (t.replace bindings).Agrees inside here (u.replace bindings') := by
  induction h with
  | primitive kind => exact .primitive kind
  | enum id e => exact .enum id e
  | record id h => exact .record id h
  | parameter name =>
    have hlookup := lookup hb name
    rw [TypeTree.replace, TypeTree.replace]
    generalize bindings.lookup name = found, bindings'.lookup name = found' at hlookup
    cases hlookup with
    | none => exact .parameter name
    | some h =>
      rcases hhere with rfl | rfl
      · exact h.weaken
      · exact h
  | nullable _ ih => exact .nullable (ih hhere)
  | left _ ih => exact .left (ih (.inl rfl))
  | right _ ih => exact .right (ih (.inl rfl))
  | array _ ih => exact .array (ih hhere)
  | dictionary _ _ ihkey ihvalue => exact .dictionary (ihkey hhere) (ihvalue hhere)
  | @instantiation _ definition _ _ arguments arguments' h hlength _ ih =>
    rw [TypeTree.replace, TypeTree.replace, replaceAll_eq_map, replaceAll_eq_map]
    refine .instantiation definition h (by simpa using hlength) fun t u htu => ?_
    rw [List.zip_map, List.mem_map] at htu
    obtain ⟨⟨t, u⟩, htu, heq⟩ := htu
    cases heq
    exact ih t u htu (.inr rfl)

/-! ### Identities and names -/

/-- Where nothing may differ, identities are the same. -/
theorem spelling_eq (h : t.Agrees inside here u) (hinside : inside = false) (hhere : here = false) :
    t.spelling = u.spelling := by
  induction h with
  | record id h => exact h.recordIdentity_eq
  | nullable _ ih => rw [spelling, spelling, ih hhere]
  | left => cases hhere
  | right => cases hhere
  | array _ ih => rw [spelling, spelling, ih hhere]
  | dictionary _ _ ihkey ihvalue => rw [spelling, spelling, ihkey hhere, ihvalue hhere]
  | instantiation definition h hlength _ ih =>
    have hmap := map_eq_map_of_forall₂
      (List.forall₂_iff_zip.mpr ⟨hlength, fun {_ _} hmem => ih _ _ hmem hinside⟩)
    rw [spelling, spelling, spellings_eq_map, spellings_eq_map, hmap, h.recordIdentity_eq]
  | _ => rfl

/-- Where nothing may differ, the names made for types are the same. -/
theorem name?_eq (h : t.Agrees inside here u) (hinside : inside = false) (hhere : here = false)
    (levels : Nat) : t.name? levels = u.name? levels := by
  induction h generalizing levels with
  | left => cases hhere
  | right => cases hhere
  | record id h =>
    cases levels with
    | zero => rfl
    | succ levels => rw [name?, name?, h.name]
  | nullable _ ih =>
    cases levels with
    | zero => rfl
    | succ levels => rw [name?, name?, ih hhere]
  | array _ ih =>
    cases levels with
    | zero => rfl
    | succ levels => rw [name?, name?, ih hhere]
  | dictionary _ _ ihkey ihvalue =>
    cases levels with
    | zero => rfl
    | succ levels => rw [name?, name?, ihkey hhere, ihvalue hhere]
  | @instantiation _ definition c c' _ _ h hlength _ ih =>
    cases levels with
    | zero => rfl
    | succ levels =>
      have hrest := mapM_eq_mapM_of_forall₂
        (List.forall₂_iff_zip.mpr ⟨hlength, fun {_ _} hmem => ih _ _ hmem hinside levels⟩)
      have hfirst : (TypeTree.record definition c).name? levels =
          (TypeTree.record definition c').name? levels := by
        cases levels with
        | zero => rfl
        | succ levels => rw [name?, name?, h.name]
      rw [name?, name?, hfirst, hrest]
  | _ => rfl

/-- Named types that agree have the same identity and the same header, unless they are
instantiations with arguments that differ. -/
theorem unit_eq (h : t.Agrees inside here u) (hnamed : t.isNamed = true)
    (harguments : inside = false ∨
      ∀ definition c arguments, t ≠ .instantiation definition c arguments) :
    t.spelling = u.spelling ∧ t.header? = u.header? := by
  cases h with
  | enum id e => exact ⟨rfl, rfl⟩
  | record id h =>
    exact ⟨h.recordIdentity_eq, by rw [header?, header?, h.name, h.space, h.typeParams]⟩
  | right h =>
    rw [h.isNamed_eq] at hnamed
    cases hnamed
  | instantiation definition h hlength hagree =>
    rcases harguments with rfl | hnot
    · have hsame : Agrees false false _ _ := .instantiation definition h hlength hagree
      exact ⟨hsame.spelling_eq rfl rfl, by rw [header?, header?, hsame.name?_eq rfl rfl, h.space]⟩
    · exact absurd rfl (hnot _ _ _)
  | _ => cases hnamed

end TypeTree.Agrees

end Declgen.Walk
