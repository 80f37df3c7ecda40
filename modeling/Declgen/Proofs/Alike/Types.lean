import Declgen.Proofs.Follows
import Declgen.Proofs.Room
import Declgen.Proofs.Types.Unfolding

/-!
# Types that say the same

Two models may number the same types differently, and one of them may hold a type once that the
other one repeats, even along a circle. What the types say is compared by a relation between their
numbers: related types have the same form and the same data, and their parts are related in turn.
Two types are alike if any such relation holds between them.
-/

namespace Declgen.Model

variable {same same' : TypeId → TypeId → Prop}

/-- Two members agree, and their types are related. -/
structure Member.Matches (same : TypeId → TypeId → Prop) (m m' : Member) : Prop where
  /-- The names agree. -/
  name : m.name = m'.name
  /-- The types are related. -/
  type : same m.type m'.type
  /-- Both may be left out, or none. -/
  optional : m.optional = m'.optional
  /-- Both may be null, or none. -/
  nullable : m.nullable = m'.nullable
  /-- The documentation agrees. -/
  doc : m.doc = m'.doc

/-- Two records agree, and the types that they refer to are related. -/
structure ComplexType.Matches (same : TypeId → TypeId → Prop) (c c' : ComplexType) : Prop where
  /-- The names agree. -/
  name : c.name = c'.name
  /-- The namespaces agree. -/
  space : c.space = c'.space
  /-- The type parameters agree. -/
  typeParams : c.typeParams = c'.typeParams
  /-- The bases are related. -/
  base : Option.Rel same c.base c'.base
  /-- The members agree one by one. -/
  members : List.Forall₂ (Member.Matches same) c.members c'.members

/-- Two records have the same name, namespace and type parameters. -/
structure ComplexType.SameHead (c c' : ComplexType) : Prop where
  /-- The names agree. -/
  name : c.name = c'.name
  /-- The namespaces agree. -/
  space : c.space = c'.space
  /-- The type parameters agree. -/
  typeParams : c.typeParams = c'.typeParams

/-- Having the same head is symmetric. -/
theorem ComplexType.SameHead.symm {c c' : ComplexType} (h : c.SameHead c') : c'.SameHead c :=
  ⟨h.name.symm, h.space.symm, h.typeParams.symm⟩

/-- Records with the same head are generic together. -/
theorem ComplexType.SameHead.isGeneric_eq {c c' : ComplexType} (h : c.SameHead c') :
    c.isGeneric = c'.isGeneric := by
  unfold ComplexType.isGeneric
  rw [h.typeParams]

/-- Records with the same head have the same identity. -/
theorem ComplexType.SameHead.recordIdentity_eq {c c' : ComplexType} (h : c.SameHead c') :
    Walk.recordIdentity c = Walk.recordIdentity c' := by
  unfold Walk.recordIdentity ComplexType.isGeneric ComplexType.qualifiedName
  rw [h.name, h.space, h.typeParams]

/-- Records that match have the same head. -/
theorem ComplexType.Matches.sameHead {c c' : ComplexType} (h : c.Matches same c') : c.SameHead c' :=
  ⟨h.name, h.space, h.typeParams⟩

namespace Descriptor

/-- Two types have the same form and the same data, and their parts are related. -/
inductive Matches (same : TypeId → TypeId → Prop) : Descriptor → Descriptor → Prop
  /-- The same primitive type. -/
  | primitive (kind : Primitive) : Matches same (.primitive kind) (.primitive kind)
  /-- The same enumeration. -/
  | enum (e : EnumType) : Matches same (.enum e) (.enum e)
  /-- The same type parameter. -/
  | parameter (name : String) : Matches same (.parameter name) (.parameter name)
  /-- Records that agree. -/
  | complex {c c' : ComplexType} (h : c.Matches same c') : Matches same (.complex c) (.complex c')
  /-- Related types, or null. -/
  | nullable {inner inner' : TypeId} (h : same inner inner') :
    Matches same (.nullable inner) (.nullable inner')
  /-- Lists of related types. -/
  | array {element element' : TypeId} (h : same element element') :
    Matches same (.array element) (.array element')
  /-- Maps between related types. -/
  | dictionary {key key' value value' : TypeId} (hkey : same key key')
    (hvalue : same value value') : Matches same (.dictionary key value) (.dictionary key' value')
  /-- Related records applied to related arguments. -/
  | instantiation {definition definition' : TypeId} {arguments arguments' : List TypeId}
    (hdefinition : same definition definition')
    (harguments : List.Forall₂ same arguments arguments') :
    Matches same (.instantiation definition arguments) (.instantiation definition' arguments')

/-- The types that a type is put together from. -/
def parts : Descriptor → List TypeId
  | .primitive _ | .enum _ | .complex _ | .parameter _ => []
  | .nullable inner => [inner]
  | .array element => [element]
  | .dictionary key value => [key, value]
  | .instantiation definition arguments => definition :: arguments

end Descriptor

/-- Members that match do so for every weaker relation between their types. -/
theorem Member.Matches.mono {m m' : Member} (h : m.Matches same m')
    (himp : ∀ i j, same i j → same' i j) : m.Matches same' m' :=
  ⟨h.name, himp _ _ h.type, h.optional, h.nullable, h.doc⟩

/-- Members match in both directions. -/
theorem Member.Matches.flip {m m' : Member} (h : m.Matches same m') :
    m'.Matches (flip same) m :=
  ⟨h.name.symm, h.type, h.optional.symm, h.nullable.symm, h.doc.symm⟩

/-- Records that match do so for every weaker relation between their types. -/
theorem ComplexType.Matches.mono {c c' : ComplexType} (h : c.Matches same c')
    (himp : ∀ i j, same i j → same' i j) : c.Matches same' c' where
  name := h.name
  space := h.space
  typeParams := h.typeParams
  base := by
    have hbase := h.base
    generalize c.base = base, c'.base = base' at hbase
    cases hbase with
    | some hbase => exact .some (himp _ _ hbase)
    | none => exact .none
  members := h.members.imp fun _ _ hm => hm.mono himp

/-- Records match in both directions. -/
theorem ComplexType.Matches.flip {c c' : ComplexType} (h : c.Matches same c') :
    c'.Matches (flip same) c where
  name := h.name.symm
  space := h.space.symm
  typeParams := h.typeParams.symm
  base := by
    have hbase := h.base
    generalize c.base = base, c'.base = base' at hbase
    cases hbase with
    | some hbase => exact .some hbase
    | none => exact .none
  members := (h.members.imp fun _ _ hm => hm.flip).flip

namespace Descriptor.Matches

variable {d d' : Descriptor}

/-- Descriptors that match do so for every weaker relation between their types. -/
theorem mono (h : d.Matches same d') (himp : ∀ i j, same i j → same' i j) :
    d.Matches same' d' := by
  cases h with
  | primitive kind => exact .primitive kind
  | enum e => exact .enum e
  | parameter name => exact .parameter name
  | complex h => exact .complex (h.mono himp)
  | nullable h => exact .nullable (himp _ _ h)
  | array h => exact .array (himp _ _ h)
  | dictionary hkey hvalue => exact .dictionary (himp _ _ hkey) (himp _ _ hvalue)
  | instantiation hdefinition harguments =>
    exact .instantiation (himp _ _ hdefinition) (harguments.imp himp)

/-- Descriptors match in both directions. -/
theorem flip (h : d.Matches same d') : d'.Matches (flip same) d := by
  cases h with
  | primitive kind => exact .primitive kind
  | enum e => exact .enum e
  | parameter name => exact .parameter name
  | complex h => exact .complex h.flip
  | nullable h => exact .nullable h
  | array h => exact .array h
  | dictionary hkey hvalue => exact .dictionary hkey hvalue
  | instantiation hdefinition harguments => exact .instantiation hdefinition harguments.flip

/-- Descriptors that match are put together from others together. -/
theorem isComposite_eq (h : d.Matches same d') : d.isComposite = d'.isComposite := by
  cases h <;> rfl

/-- The parts are related one by one. -/
theorem parts (h : d.Matches same d') : List.Forall₂ same d.parts d'.parts := by
  cases h with
  | nullable h => exact .cons h .nil
  | array h => exact .cons h .nil
  | dictionary hkey hvalue => exact .cons hkey (.cons hvalue .nil)
  | instantiation hdefinition harguments => exact .cons hdefinition harguments
  | _ => exact .nil

end Descriptor.Matches

/-- Types of two models correspond: related types are defined in their models and match, so that
all types to be reached from them are defined too, and only records are instantiated. -/
structure Arena.Corresponds (a a' : Arena) (same : TypeId → TypeId → Prop) : Prop where
  /-- Related types match. -/
  matching : ∀ i j, same i j →
    ∃ d d', a.get i = .ok d ∧ a'.get j = .ok d' ∧ d.Matches same d'
  /-- What an instantiation applies is a record. -/
  record : ∀ i j definition arguments, same i j →
    a.get i = .ok (.instantiation definition arguments) →
    ∃ c, a.get definition = .ok (.complex c)

/-- Where types correspond, they do so from either side. -/
theorem Arena.Corresponds.flip {a a' : Arena} (h : a.Corresponds a' same) :
    a'.Corresponds a (flip same) where
  matching i j hij := by
    obtain ⟨d, d', hd, hd', hmatch⟩ := h.matching j i hij
    exact ⟨d', d, hd', hd, hmatch.flip⟩
  record i j definition' arguments' hij hi := by
    obtain ⟨d, d', hd, hd', hmatch⟩ := h.matching j i hij
    cases hi.symm.trans hd'
    cases hmatch with
    | @instantiation definition _ arguments _ hdefinition _ =>
      obtain ⟨c, hc⟩ := h.record j i definition arguments hij hd
      obtain ⟨e, e', he, he', hmatch⟩ := h.matching definition definition' hdefinition
      cases hc.symm.trans he
      cases hmatch with
      | @complex _ c' _ => exact ⟨c', he'⟩

end Declgen.Model

namespace Declgen.Walk

open Model

namespace Graph

/-- One type is a part of another one. -/
def Part (g : Graph) (p id : TypeId) : Prop := ∃ d, g.get id = .ok d ∧ p ∈ d.parts

/-- The parts of a type are those of its descriptor. -/
theorem part_iff {g : Graph} {p id : TypeId} {d : Descriptor} (hd : g.get id = .ok d) :
    g.Part p id ↔ p ∈ d.parts := by
  constructor
  · rintro ⟨d', hd', hp⟩
    cases hd.symm.trans hd'
    exact hp
  · exact fun hp => ⟨d, hd, hp⟩

/-- Where every descent from the parts of a type ends, so does every descent from the type. -/
theorem acc_of_parts {g : Graph} {id : TypeId} {d : Descriptor} (hd : g.get id = .ok d)
    (h : ∀ p ∈ d.parts, Acc g.Part p) : Acc g.Part id :=
  .intro id fun p hp => h p ((part_iff hd).mp hp)

/-- A descent that is at a type can go on to its parts. -/
theorem room_part {g : Graph} {depth : Nat} {above : List TypeId} {id p : TypeId} {d : Descriptor}
    (h : Room g.Part (List.range g.size) (depth + 1) above id) (hd : g.get id = .ok d)
    (hp : p ∈ d.parts) : Room g.Part (List.range g.size) depth (id :: above) p :=
  h.descend (List.mem_range.mpr (get_lt hd)) ((part_iff hd).mpr hp)

/-- What a record extends is in the model, and what an instantiation applies is a record of it. -/
structure Admits (g : Graph) (d : Descriptor) : Prop where
  /-- The base of a record is in the model. -/
  base : ∀ c (base : Nat), d = .complex c → c.base = some base → base < g.model.size
  /-- The definition of an instantiation is a record of the model. -/
  record : ∀ definition arguments, d = .instantiation definition arguments →
    ∃ c, g.model.get definition = .ok (.complex c)

/-- What a graph admits it admits after it has grown, as its model stays. -/
theorem Admits.extends {g g₁ : Graph} {d : Descriptor} (h : g.Admits d) (hext : g.Extends g₁) :
    g₁.Admits d := by
  constructor
  · rw [hext.model]
    exact h.base
  · rw [hext.model]
    exact h.record

/-- What a relation between the types of two graphs must satisfy: related types match, and refer to
their models where they have to. -/
def Mirrors (g g' : Graph) (same : TypeId → TypeId → Prop) : Prop :=
  ∀ i j, same i j → ∃ d d', g.get i = .ok d ∧ g'.get j = .ok d' ∧ d.Matches same d' ∧
    g.Admits d ∧ g'.Admits d'

end Graph

/-- Whatever a related type has to find in its model is there. -/
theorem admits_of_corresponds {a a' : Arena} {same : TypeId → TypeId → Prop}
    (h : a.Corresponds a' same) {i j : TypeId} (hij : same i j) {d : Descriptor}
    (hd : a.get i = .ok d) : (Graph.ofModel a).Admits d where
  base c base hc hbase := by
    subst hc
    obtain ⟨e, e', he, -, hmatch⟩ := h.matching i j hij
    cases hd.symm.trans he
    cases hmatch with
    | @complex _ c' hmatch =>
      have hrel := hmatch.base
      rw [hbase] at hrel
      generalize c'.base = base' at hrel
      cases hrel with
      | some hrel =>
        obtain ⟨f, -, hf, -⟩ := h.matching _ _ hrel
        exact Arena.get_lt hf
  record definition arguments hdefinition := by
    subst hdefinition
    exact h.record i j definition arguments hij hd

/-- A type of one graph says the same as a type of the other. -/
def Alike (g g' : Graph) (i j : TypeId) : Prop := ∃ same, g.Mirrors g' same ∧ same i j

/-- The types that models relate are alike. -/
theorem alike_of_corresponds {a a' : Arena} {same : TypeId → TypeId → Prop}
    (h : a.Corresponds a' same) {i j : TypeId} (hij : same i j) :
    Alike (.ofModel a) (.ofModel a') i j := by
  refine ⟨same, fun i j hij => ?_, hij⟩
  obtain ⟨d, d', hd, hd', hmatch⟩ := h.matching i j hij
  exact ⟨d, d', Graph.get_model hd, Graph.get_model hd', hmatch, admits_of_corresponds h hij hd,
    admits_of_corresponds h.flip hij hd'⟩

namespace Alike

variable {g g' g₁ g₁' : Graph} {i j : TypeId} {d d' : Descriptor}

/-- Descriptors that match by one relation between the graphs match by being alike. -/
theorem mono_matches {same : TypeId → TypeId → Prop} (h : g.Mirrors g' same)
    (hmatch : d.Matches same d') : d.Matches (Alike g g') d' :=
  hmatch.mono fun _ _ hij => ⟨same, h, hij⟩

/-- Types that are alike are there and match. -/
theorem exists_get (h : Alike g g' i j) :
    ∃ d d', g.get i = .ok d ∧ g'.get j = .ok d' ∧ d.Matches (Alike g g') d' := by
  obtain ⟨same, hmirrors, hij⟩ := h
  obtain ⟨d, d', hd, hd', hmatch, -⟩ := hmirrors i j hij
  exact ⟨d, d', hd, hd', mono_matches hmirrors hmatch⟩

/-- What the second of two types that are alike has to find in its model is there. -/
theorem admits (h : Alike g g' i j) (hd' : g'.get j = .ok d') : g'.Admits d' := by
  obtain ⟨same, hmirrors, hij⟩ := h
  obtain ⟨e, e', -, he', -, -, hadmits'⟩ := hmirrors i j hij
  cases hd'.symm.trans he'
  exact hadmits'

/-- Instantiations that are alike apply records of the models that match. -/
theorem exists_record {definition definition' : TypeId} {arguments arguments' : List TypeId}
    (h : Alike g g' i j) (hd : g.get i = .ok (.instantiation definition arguments))
    (hd' : g'.get j = .ok (.instantiation definition' arguments')) :
    ∃ c c', g.model.get definition = .ok (.complex c) ∧
      g'.model.get definition' = .ok (.complex c') ∧ c.Matches (Alike g g') c' := by
  obtain ⟨same, hmirrors, hij⟩ := h
  obtain ⟨e, e', he, he', hmatch, hadmits, hadmits'⟩ := hmirrors i j hij
  cases hd.symm.trans he
  cases hd'.symm.trans he'
  obtain ⟨c, hc⟩ := hadmits.record definition arguments rfl
  obtain ⟨c', hc'⟩ := hadmits'.record definition' arguments' rfl
  cases hmatch with
  | instantiation hdefinition _ =>
    obtain ⟨f, f', hf, hf', hmatch, -⟩ := hmirrors definition definition' hdefinition
    cases (Graph.get_model hc).symm.trans hf
    cases (Graph.get_model hc').symm.trans hf'
    cases mono_matches hmirrors hmatch with
    | complex hmatch => exact ⟨c, c', hc, hc', hmatch⟩

/-- Types are alike if they match and their parts are alike. -/
theorem of_get (hd : g.get i = .ok d) (hd' : g'.get j = .ok d')
    (hmatch : d.Matches (Alike g g') d') (hadmits : g.Admits d) (hadmits' : g'.Admits d') :
    Alike g g' i j := by
  -- The two types are related on top of all that are alike already.
  refine ⟨fun a b => Alike g g' a b ∨ a = i ∧ b = j, fun a b hab => ?_, .inr ⟨rfl, rfl⟩⟩
  rcases hab with ⟨same, hmirrors, hab⟩ | ⟨rfl, rfl⟩
  · obtain ⟨e, e', he, he', hmatch, hboth⟩ := hmirrors a b hab
    exact ⟨e, e', he, he', (mono_matches hmirrors hmatch).mono fun _ _ => .inl, hboth⟩
  · exact ⟨d, d', hd, hd', hmatch.mono fun _ _ => .inl, hadmits, hadmits'⟩

/-- Adding types does not change what a type says. -/
theorem grow (h : Alike g g' i j) (hg : g.Extends g₁) (hg' : g'.Extends g₁') :
    Alike g₁ g₁' i j := by
  obtain ⟨same, hmirrors, hij⟩ := h
  refine ⟨same, fun a b hab => ?_, hij⟩
  obtain ⟨d, d', hd, hd', hmatch, hadmits, hadmits'⟩ := hmirrors a b hab
  exact ⟨d, d', hg.get hd, hg'.get hd', hmatch, hadmits.extends hg, hadmits'.extends hg'⟩

/-- Where one type ends, so does a type that is alike. -/
theorem acc (h : Alike g g' i j) (hi : Acc g.Part i) : Acc g'.Part j := by
  induction hi generalizing j with
  | intro i _ ih =>
    obtain ⟨d, d', hd, hd', hmatch⟩ := h.exists_get
    refine .intro j fun q hq => ?_
    rw [Graph.part_iff hd'] at hq
    obtain ⟨p, hp, hpq⟩ := exists_mem_of_forall₂ hmatch.parts.flip hq
    exact ih p ((Graph.part_iff hd).mpr hp) hpq

end Alike

end Declgen.Walk
