import Declgen.Proofs.Alike.Types
import Declgen.Proofs.Types.Replacement

/-!
# Types place by place

A type that contains itself has no tree, and neither has one that refers to a number without a type.
Place by place both can still be written out: a place is a way down through the types that stand
inside a type, and what is found there does not depend on how far the type goes on elsewhere.
Replacing parameters is an operation on types written out in this way, and it replaces all of them
at once.
-/

namespace Declgen.Model.Descriptor

/-- The types that stand inside a type. Records and enumerations are not looked into, and what an
instantiation applies does not stand inside it. -/
def inside : Descriptor → List TypeId
  | .primitive _ | .enum _ | .complex _ | .parameter _ => []
  | .nullable inner => [inner]
  | .array element => [element]
  | .dictionary key value => [key, value]
  | .instantiation _ arguments => arguments

/-- Only in types that are put together from others does something stand inside. -/
theorem inside_eq_nil {d : Descriptor} (h : d.isComposite = false) : d.inside = [] := by
  cases d with
  | primitive _ | enum _ | complex _ | parameter _ => rfl
  | _ => cases h

end Declgen.Model.Descriptor

namespace Declgen.Walk

open Model

/-- What stands at one place of a type. -/
inductive Head where
  /-- A type without parts. -/
  | primitive (kind : Primitive)
  /-- An enumeration with its number. -/
  | enum (id : TypeId) (type : EnumType)
  /-- A record with its number. -/
  | record (id : TypeId) (type : ComplexType)
  /-- A type parameter. -/
  | parameter (name : String)
  /-- Another type or null. -/
  | nullable
  /-- A list. -/
  | array
  /-- A map from keys to values. -/
  | dictionary
  /-- What has the number `definition`, applied to so many arguments. -/
  | instantiation (definition : TypeId) (count : Nat)
deriving DecidableEq

/-- What a type is at its first place. -/
def head (id : TypeId) : Descriptor → Head
  | .primitive kind => .primitive kind
  | .enum e => .enum id e
  | .complex c => .record id c
  | .parameter name => .parameter name
  | .nullable _ => .nullable
  | .array _ => .array
  | .dictionary .. => .dictionary
  | .instantiation definition arguments => .instantiation definition arguments.length

/-- A type written out place by place. A place says which of the types inside to go to at each
step; where there is no such place, or no type at it, nothing stands. -/
abbrev Unrolled := List Nat → Option Head

namespace Unrolled

/-- A parameter occurs. -/
def Mentions (u : Unrolled) (name : String) : Prop := ∃ place, u place = some (.parameter name)

/-- What is bound to a type that is itself a parameter. -/
def bound? (bound : String → Option Unrolled) (u : Unrolled) : Option Unrolled :=
  match u [] with
  | some (.parameter name) => bound name
  | _ => none

/-- The type in which every bound parameter has given way to what is bound to it. What has been put
in stays as it is. -/
def replace (bound : String → Option Unrolled) : Unrolled → Unrolled
  | u, [] => match u.bound? bound with
    | some v => v []
    | none => u []
  | u, i :: place => match u.bound? bound with
    | some v => v (i :: place)
    | none => replace bound (fun rest => u (i :: rest)) place

variable {bound : String → Option Unrolled} {u v : Unrolled}

/-- A bound parameter gives way to what is bound to it. -/
theorem replace_of_bound (h : u.bound? bound = some v) : u.replace bound = v := by
  funext place
  cases place <;> rw [replace, h]

/-- What is no bound parameter stays as it is at its first place. -/
theorem replace_nil (h : u.bound? bound = none) : u.replace bound [] = u [] := by
  rw [replace, h]

/-- Further inside, parameters give way in each of the types. -/
theorem replace_cons (h : u.bound? bound = none) (i : Nat) (place : List Nat) :
    u.replace bound (i :: place) = replace bound (fun rest => u (i :: rest)) place := by
  rw [replace, h]

/-- Where no parameter is bound, nothing is replaced. -/
theorem replace_of_unbound (h : ∀ name, bound name = none) (u : Unrolled) :
    u.replace bound = u := by
  have hnone (u : Unrolled) : u.bound? bound = none := by
    unfold bound?
    split
    · exact h _
    · rfl
  funext place
  induction place generalizing u with
  | nil => exact replace_nil (hnone u)
  | cons i place ih => rw [replace_cons (hnone u), ih]

/-- In nothing there is nothing to replace. -/
theorem replace_nothing (place : List Nat) :
    replace bound (fun _ => none) place = none := by
  induction place with
  | nil => rfl
  | cons i place ih => exact ih

end Unrolled

namespace Graph

/-- A type of a graph written out place by place. -/
def unrolled (g : Graph) : TypeId → Unrolled
  | id, [] => match g.get id with
    | .ok d => some (head id d)
    | .error _ => none
  | id, i :: place => match g.get id with
    | .ok d => (d.inside[i]?).bind fun p => g.unrolled p place
    | .error _ => none

/-- One type stands inside another one. -/
def Inside (g : Graph) (p id : TypeId) : Prop := ∃ d, g.get id = .ok d ∧ p ∈ d.inside

/-- No type inside a type, at any depth, has a number that is too large. -/
def InRange (g : Graph) (id : TypeId) : Prop :=
  ∀ p : Nat, Relation.ReflTransGen g.Inside p id → p < g.size

/-- A type that is written out in finitely many places, with a type at each of them. -/
structure Complete (g : Graph) (id : TypeId) : Prop where
  /-- Every way down through the types inside ends. -/
  ends : Acc g.Inside id
  /-- There is a type wherever it leads. -/
  found : ∀ p, Relation.ReflTransGen g.Inside p id → ∃ d, g.get p = .ok d

/-- The types that have been made refer back: the numbers `refs` of each are smaller than its
own. -/
def RefersBack (refs : Descriptor → List TypeId) (g : Graph) : Prop :=
  ∀ (i : Nat) (d : Descriptor), g.made[i]? = some d → ∀ p : Nat, p ∈ refs d → p < g.model.size + i

/-- Something holds at every place of a type. -/
def Everywhere (g : Graph) (P : Head → Prop) (id : TypeId) : Prop :=
  ∀ place h, g.unrolled id place = some h → P h

variable {g g' : Graph} {id : Nat} {p : TypeId} {d : Descriptor}

/-! ### Writing out -/

/-- The first place of a type holds what the type is. -/
theorem unrolled_nil (hd : g.get id = .ok d) : g.unrolled id [] = some (head id d) := by
  rw [unrolled, hd]

/-- Further places are those of the types inside. -/
theorem unrolled_cons (hd : g.get id = .ok d) (i : Nat) (place : List Nat) :
    g.unrolled id (i :: place) = (d.inside[i]?).bind fun p => g.unrolled p place := by
  rw [unrolled, hd]

/-- What is inside a type at some place is inside the type at another one. -/
theorem exists_unrolled_eq (hd : g.get id = .ok d) (hp : p ∈ d.inside) :
    ∃ i : Nat, ∀ place, g.unrolled id (i :: place) = g.unrolled p place := by
  obtain ⟨i, hi⟩ := List.mem_iff_getElem?.mp hp
  exact ⟨i, fun place => by rw [unrolled_cons hd, hi, Option.bind_some]⟩

/-- What holds at every place of a type holds at its first place. -/
theorem Everywhere.head {P : Head → Prop} (h : g.Everywhere P id) (hd : g.get id = .ok d) :
    P (head id d) := h [] _ (unrolled_nil hd)

/-- What holds at every place of a type holds at every place of the types inside it. -/
theorem Everywhere.inside {P : Head → Prop} (h : g.Everywhere P id) (hd : g.get id = .ok d)
    (hp : p ∈ d.inside) : g.Everywhere P p := by
  obtain ⟨i, hi⟩ := exists_unrolled_eq hd hp
  exact fun place x hx => h (i :: place) x ((hi place).trans hx)

/-- A parameter that occurs inside a type occurs in it. -/
theorem mentions_of_inside (hd : g.get id = .ok d) (hp : p ∈ d.inside) {name : String}
    (h : (g.unrolled p).Mentions name) : (g.unrolled id).Mentions name := by
  obtain ⟨i, hi⟩ := exists_unrolled_eq hd hp
  obtain ⟨place, hplace⟩ := h
  exact ⟨i :: place, (hi place).trans hplace⟩

/-- A parameter occurs in a type exactly if the type is one or there is one inside. -/
theorem exists_mentions_iff (hd : g.get id = .ok d) : (∃ name, (g.unrolled id).Mentions name) ↔
    (∃ name, d = .parameter name) ∨ ∃ p ∈ d.inside, ∃ name, (g.unrolled p).Mentions name := by
  constructor
  · rintro ⟨name, _ | ⟨i, place⟩, hplace⟩
    · rw [unrolled_nil hd, Option.some.injEq] at hplace
      refine .inl ⟨name, ?_⟩
      cases d with
      | parameter other =>
        cases hplace
        rfl
      | _ => cases hplace
    · rw [unrolled_cons hd, Option.bind_eq_some_iff] at hplace
      obtain ⟨p, hp, hplace⟩ := hplace
      exact .inr ⟨p, List.mem_of_getElem? hp, name, place, hplace⟩
  · rintro (⟨name, rfl⟩ | ⟨p, hp, name, hname⟩)
    · exact ⟨name, [], unrolled_nil hd⟩
    · exact ⟨name, mentions_of_inside hd hp hname⟩

/-! ### Complete types -/

/-- A complete type is defined. -/
theorem Complete.exists_get (h : g.Complete id) : ∃ d, g.get id = .ok d := h.found id .refl

/-- The types inside a complete type are complete. -/
theorem Complete.inside (h : g.Complete id) (hd : g.get id = .ok d) (hp : p ∈ d.inside) :
    g.Complete p where
  ends := h.ends.inv ⟨d, hd, hp⟩
  found q hq := h.found q (hq.tail ⟨d, hd, hp⟩)

/-- A type is complete if all types inside it are. -/
theorem complete_of_inside (hd : g.get id = .ok d) (h : ∀ p ∈ d.inside, g.Complete p) :
    g.Complete id where
  ends := by
    refine .intro id fun p hp => ?_
    obtain ⟨e, he, hp⟩ := hp
    cases hd.symm.trans he
    exact (h p hp).ends
  found q hq := by
    obtain rfl | ⟨p, hqp, e, he, hp⟩ := Relation.ReflTransGen.cases_tail hq
    · exact ⟨d, hd⟩
    · cases hd.symm.trans he
      exact (h p hp).found q hqp

/-- What holds of a type if it holds of all types inside it holds of every complete type. -/
theorem Complete.induct {motive : TypeId → Prop} (h : g.Complete id)
    (step : ∀ id d, g.Complete id → g.get id = .ok d → (∀ p ∈ d.inside, motive p) → motive id) :
    motive id := by
  have hends := h.ends
  induction hends with
  | intro id _ ih =>
    obtain ⟨d, hd⟩ := h.exists_get
    exact step id d h hd fun p hp => ih p ⟨d, hd, hp⟩ (h.inside hd hp)

/-- The numbers inside a complete type are in range. -/
theorem Complete.inRange (h : g.Complete id) : g.InRange id := by
  intro p hp
  obtain ⟨d, hd⟩ := h.found p hp
  exact get_lt hd

/-! ### Adding types -/

/-- What a number stands for stays the same, even if it stands for nothing. -/
theorem Extends.get_eq (h : g.Extends g') (hid : id < g.size) : g'.get id = g.get id := by
  by_cases hmodel : id < g.model.size
  · rw [Graph.get, Graph.get, h.model, if_pos hmodel, if_pos hmodel]
  · have hmade : id - g.model.size < g.made.size := by
      unfold size at hid
      omega
    have hget : g.get id = .ok g.made[id - g.model.size] := by
      rw [Graph.get, if_neg hmodel, Array.getElem?_eq_getElem hmade]
    rw [hget, h.get hget]

/-- A type is written out the same in a larger graph. -/
theorem Extends.unrolled_eq (h : g.Extends g') (hid : g.InRange id) :
    g'.unrolled id = g.unrolled id := by
  funext place
  induction place generalizing id with
  | nil => rw [unrolled, unrolled, h.get_eq (hid id .refl)]
  | cons i place ih =>
    cases hd : g.get id with
    | error e => rw [unrolled, unrolled, h.get_eq (hid id .refl), hd]
    | ok d =>
      rw [unrolled_cons hd, unrolled_cons (h.get hd)]
      cases hp : d.inside[i]? with
      | none => rfl
      | some p => exact ih fun q hq => hid q (hq.tail ⟨d, hd, List.mem_of_getElem? hp⟩)

/-- A complete type stays complete in a larger graph. -/
theorem Complete.extends (hid : g.Complete id) (h : g.Extends g') : g'.Complete id :=
  hid.induct fun _ _ _ hd ih => complete_of_inside (h.get hd) ih

/-- The types that have been made refer back if the added one does. -/
theorem RefersBack.add {refs : Descriptor → List TypeId} (h : g.RefersBack refs)
    (hd : ∀ p : Nat, p ∈ refs d → p < g.size) : (g.add d).1.RefersBack refs := by
  intro i e he p hp
  simp only [Graph.add, Array.getElem?_push] at he
  split at he
  · rename_i hi
    cases he
    exact hi ▸ hd p hp
  · exact h i e he p hp

/-! ### Looking for parameters -/

/-- A descent that is at a type can go on to what is inside. -/
theorem room_inside {depth : Nat} {above : List TypeId}
    (h : Room g.Inside (List.range g.size) (depth + 1) above id) (hd : g.get id = .ok d)
    (hp : p ∈ d.inside) : Room g.Inside (List.range g.size) depth (id :: above) p :=
  h.descend (List.mem_range.mpr (get_lt hd)) ⟨d, hd, hp⟩

end Graph

/-- One of several answers is positive exactly if what is asked holds somewhere. -/
theorem any_iff_of_forall₂ {α : Type} {asked : α → Prop} {as : List α} {answers : List Bool}
    (h : List.Forall₂ (fun a answer => answer = true ↔ asked a) as answers) :
    (answers.any fun answer => answer) = true ↔ ∃ a ∈ as, asked a := by
  induction h with
  | nil => simp
  | cons head _ ih => simp only [List.any_cons, Bool.or_eq_true, ih, head, List.exists_mem_cons_iff]

/-- Looking for parameters in a type finds one exactly if one occurs there, and it does not fail
in a type that is complete. -/
theorem mentionsParameterWithin_outcome {g : Graph} (depth : Nat) (above : List TypeId)
    (id : TypeId) :
    Outcome (fun found => found = true ↔ ∃ name, (g.unrolled id).Mentions name)
      (fun _ => ¬ (g.Complete id ∧ Room g.Inside (List.range g.size) depth above id))
      (mentionsParameterWithin g depth above id) := by
  induction depth generalizing above id with
  | zero =>
    rintro ⟨-, hroom⟩
    obtain ⟨k, hk⟩ := hroom.exists_depth
    cases hk
  | succ depth ih =>
    rw [mentionsParameterWithin]
    split
    · rename_i hcontains
      exact fun h => h.2.contains_eq_false hcontains
    cases hd : g.get id with
    | error e =>
      rintro ⟨hid, -⟩
      obtain ⟨d, hd'⟩ := hid.exists_get
      cases hd.symm.trans hd'
    | ok d =>
      rw [ok_bind]
      have hpart (p : TypeId) (hp : p ∈ d.inside) := (ih (id :: above) p).mono (fun _ h => h)
        (fun _ hnot (h : g.Complete id ∧ Room g.Inside (List.range g.size) (depth + 1) above id) =>
          hnot ⟨h.1.inside hd hp, Graph.room_inside h.2 hd hp⟩)
      have hmentions := Graph.exists_mentions_iff hd
      cases d with
      | primitive kind => simp [hmentions, Descriptor.inside]
      | enum e => simp [hmentions, Descriptor.inside]
      | complex c => simp [hmentions, Descriptor.inside]
      | parameter name => simp [hmentions]
      | nullable inner =>
        refine (hpart inner (by simp [Descriptor.inside])).weaken fun found h => ?_
        simpa [hmentions, Descriptor.inside] using h
      | array element =>
        refine (hpart element (by simp [Descriptor.inside])).weaken fun found h => ?_
        simpa [hmentions, Descriptor.inside] using h
      | dictionary key value =>
        refine (hpart key (by simp [Descriptor.inside])).bind fun found hkey => ?_
        cases found with
        | true => simpa [hmentions, Descriptor.inside] using .inl (hkey.mp rfl)
        | false =>
          refine (hpart value (by simp [Descriptor.inside])).weaken fun found hvalue => ?_
          simp only [Bool.false_eq_true, false_iff] at hkey
          simpa [hmentions, Descriptor.inside, hkey] using hvalue
      | instantiation definition arguments =>
        refine (Outcome.mapM_forall₂ fun argument hargument => hpart argument hargument).bind
          fun answers hanswers => ?_
        simpa [hmentions, Descriptor.inside] using any_iff_of_forall₂ hanswers

/-- In a type that is complete it can be told whether a parameter occurs. -/
theorem Graph.Complete.exists_found {g : Graph} {id : TypeId} (h : g.Complete id) :
    ∃ found, mentionsParameter g id = .ok found := by
  have hlength : (List.range g.size).length < g.size + 1 := by simp
  have hroom : Room g.Inside (List.range g.size) (g.size + 1) [] id := .start h.ends hlength
  exact ((mentionsParameterWithin_outcome _ [] id).mono (fun _ h => h) fun _ hnot =>
    hnot ⟨h, hroom⟩).exists_ok

end Declgen.Walk
