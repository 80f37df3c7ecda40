import Declgen.Proofs.Types.Places
import Declgen.Proofs.Walk.Flattening

/-!
# Replacing parameters place by place

Nothing is asked of the model here. A type that is complete can have its parameters replaced even
if other types are missing or contain themselves, and whatever the parameters are bound to. Place
by place the result is the type with all bound parameters replaced at once. What had been in the
graph before is still there, and of the types that have been added each refers to earlier ones only.
-/

namespace Declgen.Walk

open Model

variable {g g' g₀ g₁ g₂ : Graph} {bindings : Bindings} {id id' : TypeId} {d d' : Descriptor}

/-! ### What the result is -/

/-- What a parameter is bound to, written out. -/
def Graph.boundTo (g : Graph) (bindings : Bindings) (name : String) : Option Unrolled :=
  (bindings.lookup name).map g.unrolled

/-- What is bound to a type is told by its descriptor. -/
theorem Graph.bound?_unrolled (bound : String → Option Unrolled) (hd : g.get id = .ok d) :
    (g.unrolled id).bound? bound = match d with
      | .parameter name => bound name
      | _ => none := by
  rw [Unrolled.bound?, Graph.unrolled_nil hd]
  cases d <;> rfl

/-- Where the parts of a type have been replaced, so has the type. -/
theorem Graph.unrolled_eq_replace {bound : String → Option Unrolled} (hd : g.get id = .ok d)
    (hd' : g.get id' = .ok d') (hfree : (g.unrolled id).bound? bound = none)
    (hhead : head id' d' = head id d)
    (hinside : d'.inside.map g.unrolled = d.inside.map fun p => (g.unrolled p).replace bound) :
    g.unrolled id' = (g.unrolled id).replace bound := by
  funext place
  cases place with
  | nil => rw [Unrolled.replace_nil hfree, unrolled_nil hd, unrolled_nil hd', hhead]
  | cons i place =>
    have hplaces := congrArg (·[i]?) hinside
    simp only [List.getElem?_map] at hplaces
    rw [Unrolled.replace_cons hfree, unrolled_cons hd']
    cases hp : d.inside[i]? with
    | none =>
      rw [hp, Option.map_none, Option.map_eq_none_iff] at hplaces
      have hnothing : (fun rest => g.unrolled id (i :: rest)) = fun _ => none := by
        funext rest
        rw [unrolled_cons hd, hp, Option.bind_none]
      rw [hplaces, hnothing, Unrolled.replace_nothing, Option.bind_none]
    | some p =>
      rw [hp, Option.map_some, Option.map_eq_some_iff] at hplaces
      obtain ⟨p', hp', heq⟩ := hplaces
      have hpart : (fun rest => g.unrolled id (i :: rest)) = g.unrolled p := by
        funext rest
        rw [unrolled_cons hd, hp, Option.bind_some]
      rw [hp', hpart, Option.bind_some, heq]

/-- A type in which parameters have been replaced is the type with the parameters replaced at every
place. -/
theorem Rewrites.unrolled_eq (h : Rewrites g bindings id id') :
    g.unrolled id' = (g.unrolled id).replace (g.boundTo bindings) := by
  induction h with
  | bound hget hlookup =>
    refine (Unrolled.replace_of_bound ?_).symm
    rw [Graph.bound?_unrolled _ hget]
    exact congrArg (Option.map g.unrolled) hlookup
  | free hget hlookup =>
    refine Graph.unrolled_eq_replace hget hget ?_ rfl rfl
    rw [Graph.bound?_unrolled _ hget]
    exact congrArg (Option.map g.unrolled) hlookup
  | @plain id d hget hplain hparameter =>
    refine Graph.unrolled_eq_replace hget hget ?_ rfl ?_
    · rw [Graph.bound?_unrolled _ hget]
      cases d with
      | parameter name => exact absurd rfl (hparameter name)
      | _ => rfl
    · rw [Descriptor.inside_eq_nil hplain]
      rfl
  | nullable hget hget' _ ih =>
    refine Graph.unrolled_eq_replace hget hget' (Graph.bound?_unrolled _ hget) rfl ?_
    simp only [Descriptor.inside, List.map_cons, List.map_nil, ih]
  | array hget hget' _ ih =>
    refine Graph.unrolled_eq_replace hget hget' (Graph.bound?_unrolled _ hget) rfl ?_
    simp only [Descriptor.inside, List.map_cons, List.map_nil, ih]
  | dictionary hget hget' _ _ ihkey ihvalue =>
    refine Graph.unrolled_eq_replace hget hget' (Graph.bound?_unrolled _ hget) rfl ?_
    simp only [Descriptor.inside, List.map_cons, List.map_nil, ihkey, ihvalue]
  | instantiation hget hget' hlength _ ih =>
    refine Graph.unrolled_eq_replace hget hget' (Graph.bound?_unrolled _ hget) ?_ ?_
    · rw [head, head, hlength]
    · refine (map_eq_map_of_forall₂ (List.forall₂_iff_zip.mpr ⟨hlength, fun hmem => ?_⟩)).symm
      exact (ih _ _ hmem).symm

/-- What is bound to the parameters of a type is complete. -/
def Graph.BindsComplete (g : Graph) (bindings : Bindings) (id : TypeId) : Prop :=
  ∀ name b, (g.unrolled id).Mentions name → bindings.lookup name = some b → g.Complete b

/-- What is bound to the parameters of a type inside is complete, too. -/
theorem Graph.BindsComplete.inside {p : TypeId} (h : g.BindsComplete bindings id)
    (hd : g.get id = .ok d) (hp : p ∈ d.inside) : g.BindsComplete bindings p :=
  fun name b hname => h name b (mentions_of_inside hd hp hname)

/-- A type in which parameters have been replaced is complete if what is bound to them is. -/
theorem Rewrites.complete (h : Rewrites g bindings id id') (hbound : g.BindsComplete bindings id) :
    g.Complete id' := by
  induction h with
  | bound hget hlookup => exact hbound _ _ ⟨[], Graph.unrolled_nil hget⟩ hlookup
  | free hget _ => exact Graph.complete_of_inside hget fun p hp => nomatch hp
  | @plain id d hget hplain _ =>
    refine Graph.complete_of_inside hget fun p hp => ?_
    rw [Descriptor.inside_eq_nil hplain] at hp
    cases hp
  | nullable hget hget' _ ih =>
    refine Graph.complete_of_inside hget' fun p hp => ?_
    rw [List.mem_singleton.mp hp]
    exact ih (hbound.inside hget List.mem_cons_self)
  | array hget hget' _ ih =>
    refine Graph.complete_of_inside hget' fun p hp => ?_
    rw [List.mem_singleton.mp hp]
    exact ih (hbound.inside hget List.mem_cons_self)
  | dictionary hget hget' _ _ ihkey ihvalue =>
    refine Graph.complete_of_inside hget' fun p hp => ?_
    rcases List.mem_pair.mp hp with rfl | rfl
    · exact ihkey (hbound.inside hget List.mem_cons_self)
    · exact ihvalue (hbound.inside hget (by simp [Descriptor.inside]))
  | @instantiation _ _ _ arguments arguments' hget hget' hlength _ ih =>
    refine Graph.complete_of_inside hget' fun p hp => ?_
    have hzip : List.Forall₂ (fun a a' => (a, a') ∈ arguments.zip arguments') arguments
        arguments' := List.forall₂_iff_zip.mpr ⟨hlength, fun hmem => hmem⟩
    obtain ⟨q, hq, hqp⟩ := exists_mem_of_forall₂ hzip.flip hp
    exact ih q p hqp (hbound.inside hget hq)

/-! ### What is added -/

/-- What stands at a place is no parameter with a binding. -/
def Head.Unbound (bindings : Bindings) : Head → Prop
  | .parameter name => bindings.lookup name = none
  | _ => True

/-- What an instantiation at a place applies has a number below `size`. -/
def Head.AppliesBelow (size : Nat) : Head → Prop
  | .instantiation (definition : Nat) _ => definition < size
  | _ => True

/-- Replacing parameters in a type of the graph `g`, or in types inside it, leads from a graph that
has grown from it to another one. -/
structure Adds (bindings : Bindings) (g : Graph) (id : TypeId) (g₁ g₂ : Graph) : Prop where
  /-- Types have been added at most. -/
  graph : g₁.Extends g₂
  /-- What stands inside the types that have been added comes before them. -/
  inside : g₁.RefersBack Descriptor.inside → g₂.RefersBack Descriptor.inside
  /-- So does what they apply, if it does so in the type itself. -/
  parts : g.Everywhere (Head.AppliesBelow g.size) id → g₁.RefersBack Descriptor.parts →
    g₂.RefersBack Descriptor.parts
  /-- If no parameter of the type is bound, nothing has been added. -/
  unchanged : g.Everywhere (Head.Unbound bindings) id → g₂ = g₁

/-- A type of the graph `g` becomes another one when its parameters are replaced. -/
structure Replaced (bindings : Bindings) (g : Graph) (id : TypeId) (g₁ : Graph) (id' : TypeId)
    (g₂ : Graph) : Prop extends Adds bindings g id g₁ g₂ where
  /-- The other type is there. -/
  there : (id' : Nat) < g₂.size
  /-- If no parameter of the type is bound, it is the same one. -/
  same : g.Everywhere (Head.Unbound bindings) id → id' = id

/-- A graph that stays as it is has added nothing. -/
theorem Adds.refl (g₁ : Graph) : Adds bindings g id g₁ g₁ :=
  ⟨.refl g₁, fun h => h, fun _ h => h, fun _ => rfl⟩

/-- Additions can be put together. -/
theorem Adds.trans (h : Adds bindings g id g₀ g₁) (h' : Adds bindings g id g₁ g₂) :
    Adds bindings g id g₀ g₂ where
  graph := h.graph.trans h'.graph
  inside hback := h'.inside (h.inside hback)
  parts hbelow hback := h'.parts hbelow (h.parts hbelow hback)
  unchanged hfree := (h'.unchanged hfree).trans (h.unchanged hfree)

/-- What is added for a type inside is added for the type. -/
theorem Adds.outer {p : TypeId} (h : Adds bindings g p g₁ g₂) (hd : g.get id = .ok d)
    (hp : p ∈ d.inside) : Adds bindings g id g₁ g₂ where
  graph := h.graph
  inside := h.inside
  parts hbelow := h.parts (hbelow.inside hd hp)
  unchanged hfree := h.unchanged (hfree.inside hd hp)

/-- A type stays what it is. -/
theorem replaced_self (hext : g.Extends g₁) (hd : g.get id = .ok d) :
    Replaced bindings g id g₁ id g₁ :=
  ⟨.refl g₁, Graph.get_lt (hext.get hd), fun _ => rfl⟩

/-- A type is put together from types that come before it. -/
theorem keepOrAdd_replaced {unchanged : Bool} (hext : g.Extends g₁) (hd : g.get id = .ok d)
    (hadds : Adds bindings g id g₁ g₂) (hinside : ∀ p : Nat, p ∈ d'.inside → p < g₂.size)
    (hparts : g.Everywhere (Head.AppliesBelow g.size) id → ∀ p : Nat, p ∈ d'.parts → p < g₂.size)
    (hsame : g.Everywhere (Head.Unbound bindings) id → unchanged = true) :
    Outcome (fun r => Replaced bindings g id g₁ r.1 r.2) (fun _ => False)
      ((keepOrAdd id unchanged d').run g₂) := by
  cases unchanged with
  | true => exact ⟨hadds, Graph.get_lt ((hext.trans hadds.graph).get hd), fun _ => rfl⟩
  | false =>
    refine ⟨⟨hadds.graph.trans (g₂.extends_add d'), fun hback => (hadds.inside hback).add hinside,
      fun hbelow hback => (hadds.parts hbelow hback).add (hparts hbelow), fun hfree => ?_⟩,
      Graph.get_lt (g₂.get_add d'), fun hfree => ?_⟩
    · cases hsame hfree
    · cases hsame hfree

/-- A type that wraps a single other one is put together from what becomes of that. -/
theorem wrap_replaced {part : TypeId → Growing TypeId} {inner : TypeId}
    (wrap : TypeId → Descriptor) (hinside : ∀ p, (wrap p).inside = [p])
    (hparts : ∀ p, (wrap p).parts = [p]) (hext : g.Extends g₁)
    (hd : g.get id = .ok (wrap inner))
    (hpart : Outcome (fun r => Replaced bindings g inner g₁ r.1 r.2) (fun _ => False)
      ((part inner).run g₁)) :
    Outcome (fun r => Replaced bindings g id g₁ r.1 r.2) (fun _ => False)
      ((do
        let inner' ← part inner
        keepOrAdd id (inner' == inner) (wrap inner') : Growing TypeId).run g₁) := by
  have hmem : inner ∈ (wrap inner).inside := by simp [hinside]
  refine hpart.run_bind fun inner' g₂ h => ?_
  refine keepOrAdd_replaced hext hd (h.outer hd hmem) ?_ (fun _ => ?_) fun hfree => ?_
  · simpa [hinside] using h.there
  · simpa [hparts] using h.there
  · simpa using h.same (hfree.inside hd hmem)

/-- Types inside a type are replaced one after the other. -/
theorem mapM_replaced {f : TypeId → Growing TypeId} {ids : List TypeId} (hext : g.Extends g₁)
    (hd : g.get id = .ok d) (hids : ids ⊆ d.inside)
    (hf : ∀ p ∈ ids, ∀ g₁, g.Extends g₁ → Outcome (fun r => Replaced bindings g p g₁ r.1 r.2)
      (fun _ => False) ((f p).run g₁)) :
    Outcome (fun r => Adds bindings g id g₁ r.2 ∧ (∀ p : Nat, p ∈ r.1 → p < r.2.size) ∧
        (g.Everywhere (Head.Unbound bindings) id → r.1 = ids))
      (fun _ => False) ((ids.mapM f).run g₁) := by
  induction ids generalizing g₁ with
  | nil => exact ⟨.refl g₁, by simp, fun _ => rfl⟩
  | cons p ids ih =>
    obtain ⟨hp, hids⟩ := List.cons_subset.mp hids
    rw [List.mapM_cons]
    refine (hf p List.mem_cons_self g₁ hext).run_bind fun p' g₂ hhead => ?_
    refine (ih (hext.trans hhead.graph) hids fun q hq => hf q (List.mem_cons_of_mem p hq)).run_bind
      fun ids' g₃ htail => ?_
    obtain ⟨hadds, hthere, hsame⟩ := htail
    refine ⟨(hhead.outer hd hp).trans hadds, ?_, fun hfree => ?_⟩
    · exact List.forall_mem_cons.mpr ⟨hadds.graph.lt_size hhead.there, hthere⟩
    · exact congrArg₂ List.cons (hhead.same (hfree.inside hd hp)) (hsame hfree)

/-- Replacing parameters succeeds in a type that is complete. -/
theorem substituteWithin_replaced {depth : Nat} {above : List TypeId} (hid : g.Complete id)
    (hroom : Room g.Inside (List.range g.size) depth above id) (hb : g.Holds bindings)
    (hext : g.Extends g₁) :
    Outcome (fun r => Replaced bindings g id g₁ r.1 r.2) (fun _ => False)
      ((substituteWithin bindings depth above id).run g₁) := by
  induction depth generalizing above id g₁ with
  | zero =>
    obtain ⟨k, hk⟩ := hroom.exists_depth
    cases hk
  | succ depth ih =>
    obtain ⟨d, hd⟩ := hid.exists_get
    -- The graph grows from call to call, but the descent stays within the types that `g` had.
    have hpart (p : TypeId) (hp : p ∈ d.inside) (g₁ : Graph) (hext : g.Extends g₁) :
        Outcome (fun r => Replaced bindings g p g₁ r.1 r.2) (fun _ => False)
          ((substituteWithin bindings depth (id :: above) p).run g₁) :=
      ih (hid.inside hd hp) (Graph.room_inside hroom hd hp) hext
    rw [substituteWithin, if_neg hroom.contains_eq_false]
    simp only [StateT.run_bind, StateT.run_get, pure_bind]
    rw [hext.get hd]
    change Outcome _ _ (StateT.run _ g₁)
    cases d with
    | primitive _ | enum _ | complex _ => exact replaced_self hext hd
    | parameter name =>
      change Replaced bindings g id g₁ ((bindings.lookup name).getD id) g₁
      cases hlookup : bindings.lookup name with
      | none => exact replaced_self hext hd
      | some bound =>
        have hbound : ¬ g.Everywhere (Head.Unbound bindings) id := fun hfree => by
          have hnone : bindings.lookup name = none := hfree.head hd
          cases hlookup.symm.trans hnone
        exact ⟨.refl g₁, hext.lt_size (hb.of_lookup hlookup), fun hfree => absurd hfree hbound⟩
    | nullable inner =>
      exact wrap_replaced .nullable (fun _ => rfl) (fun _ => rfl) hext hd
        (hpart inner List.mem_cons_self g₁ hext)
    | array element =>
      exact wrap_replaced .array (fun _ => rfl) (fun _ => rfl) hext hd
        (hpart element List.mem_cons_self g₁ hext)
    | dictionary key value =>
      have hmemk : key ∈ (Descriptor.dictionary key value).inside := List.mem_cons_self
      have hmemv : value ∈ (Descriptor.dictionary key value).inside := by simp [Descriptor.inside]
      refine (hpart key hmemk g₁ hext).run_bind fun key' g₂ hkey => ?_
      refine (hpart value hmemv g₂ (hext.trans hkey.graph)).run_bind fun value' g₃ hvalue => ?_
      have hthere := hvalue.graph.lt_size hkey.there
      exact keepOrAdd_replaced hext hd ((hkey.outer hd hmemk).trans (hvalue.outer hd hmemv))
        (by simpa [Descriptor.inside] using ⟨hthere, hvalue.there⟩)
        (fun _ => by simpa [Descriptor.parts] using ⟨hthere, hvalue.there⟩)
        fun hfree => by
          simpa using ⟨hkey.same (hfree.inside hd hmemk), hvalue.same (hfree.inside hd hmemv)⟩
    | instantiation definition arguments =>
      refine (mapM_replaced hext hd (List.Subset.refl arguments) hpart).run_bind
        fun arguments' g₂ h => ?_
      obtain ⟨hadds, hthere, hsame⟩ := h
      refine keepOrAdd_replaced hext hd hadds hthere (fun hbelow => ?_) fun hfree => ?_
      · exact List.forall_mem_cons.mpr
          ⟨(hext.trans hadds.graph).lt_size (hbelow.head hd), hthere⟩
      · simpa using hsame hfree

/-- Parameters have been replaced in the type `id` of a graph, which has grown to `g'`, and `id'` is
the type that came out. -/
structure Substituted (bindings : Bindings) (g : Graph) (id : TypeId) (g' : Graph) (id' : TypeId) :
    Prop where
  /-- Place by place, the result is the type with all bound parameters replaced at once. -/
  unrolled : g'.unrolled id' = (g.unrolled id).replace (g'.boundTo bindings)
  /-- The result is a type of the graph. -/
  there : (id' : Nat) < g'.size
  /-- If none of its parameters is bound, the type stays the same, and so does the graph. -/
  unchanged : (∀ name, (g.unrolled id).Mentions name → bindings.lookup name = none) →
    id' = id ∧ g' = g
  /-- Every number still stands for what it stood for. -/
  kept : ∀ other : Nat, other < g.size → g'.get other = g.get other
  /-- So every type that referred to no number without a type is written out as before. -/
  same : ∀ other, g.InRange other → g'.unrolled other = g.unrolled other
  /-- What stands inside the types that have been made comes before them. -/
  refersBack : g'.RefersBack Descriptor.inside
  /-- So does what they apply, if it did so before and is in the graph for the type itself. -/
  applied : g.RefersBack Descriptor.parts → g.Everywhere (Head.AppliesBelow g.size) id →
    g'.RefersBack Descriptor.parts
  /-- If the types bound to its parameters are complete, so is the result. -/
  complete : g.BindsComplete bindings id → g'.Complete id'
  /-- In a type that is complete it can be told whether a parameter occurs. -/
  decided : ∀ other, g'.Complete other → ∃ found, mentionsParameter g' other = .ok found
  /-- What is told is right, in whatever type. -/
  mentions : ∀ other found, mentionsParameter g' other = .ok found →
    (found = true ↔ ∃ name, (g'.unrolled other).Mentions name)

/-- If no parameter that occurs in a type is bound, none stands at any of its places. -/
theorem Graph.unbound_of_mentions
    (h : ∀ name, (g.unrolled id).Mentions name → bindings.lookup name = none) :
    g.Everywhere (Head.Unbound bindings) id := by
  intro place x hx
  cases x with
  | parameter name => exact h name ⟨place, hx⟩
  | _ => trivial

/-- **Replacing parameters is simultaneous, and disturbs nothing.** It succeeds in every type that
is complete, where the types that have been made refer to earlier ones and every parameter is bound
to a type of the graph. -/
theorem substitute_simultaneous (hback : g.RefersBack Descriptor.inside) (hid : g.Complete id)
    (hb : g.Holds bindings) :
    ∃ id' g', (substitute bindings id).run g = .ok (id', g') ∧
      Substituted bindings g id g' id' := by
  have hdepth : (List.range g.size).length < g.depthBound := by
    rw [List.length_range]
    exact g.size_lt_depthBound
  have hreplaced : Outcome (fun r => Replaced bindings g id g r.1 r.2) (fun _ => False)
      ((substitute bindings id).run g) := by
    obtain ⟨d, hd⟩ := hid.exists_get
    rw [substitute]
    split
    · exact replaced_self (.refl g) hd
    · exact substituteWithin_replaced hid (.start hid.ends hdepth) hb (.refl g)
  -- That it succeeds is one induction, and what the result is has been shown for every success.
  obtain ⟨⟨id', g'⟩, hrun⟩ := hreplaced.exists_ok
  have h : Replaced bindings g id g id' g' := hreplaced.result hrun
  have hext : g.Extends g' := h.graph
  have hsame : g'.unrolled id = g.unrolled id := hext.unrolled_eq hid.inRange
  obtain ⟨-, hrewritten⟩ := (substitute_rewritten bindings id g).result hrun
  refine ⟨id', g', hrun,
    { unrolled := ?_
      there := h.there
      unchanged := fun hfree => ?_
      kept := fun other hother => hext.get_eq hother
      same := fun other hother => hext.unrolled_eq hother
      refersBack := h.inside hback
      applied := fun hparts hbelow => h.parts hbelow hparts
      complete := fun hbound => ?_
      decided := fun _ hother => hother.exists_found
      mentions := fun other _ hfound =>
        (mentionsParameterWithin_outcome _ [] other).result hfound }⟩
  · rw [← hsame]
    obtain ⟨rfl, rfl⟩ | ⟨-, hrewrites⟩ := hrewritten
    · exact (Unrolled.replace_of_unbound (fun _ => rfl) _).symm
    · exact hrewrites.unrolled_eq
  · have hunbound := Graph.unbound_of_mentions hfree
    exact ⟨h.same hunbound, h.unchanged hunbound⟩
  · obtain ⟨-, rfl⟩ | ⟨-, hrewrites⟩ := hrewritten
    · exact hid.extends hext
    · refine hrewrites.complete fun name b hname hlookup => ?_
      exact (hbound name b (hsame ▸ hname) hlookup).extends hext

/-- A map from `T` to `U`, or null, has been made in a model that has lists of `U`. -/
def mapFromT : Graph :=
  ⟨⟨#[some (.primitive .integer), some (.parameter "T"), some (.parameter "U"), some (.array 2),
    some (.dictionary 1 2)]⟩, #[.nullable 4]⟩

/-- With lists of `U` for `T` and integers for `U`, the keys of the map are still lists of `U`. -/
theorem substitute_simultaneous_map : ∃ g',
    (substitute [("T", 3), ("U", 0)] 5).run mapFromT = .ok (7, g') ∧
      g'.made = #[.nullable 4, .dictionary 3 0, .nullable 6] ∧
      Substituted [("T", 3), ("U", 0)] mapFromT 5 g' 7 := by
  have hback : mapFromT.RefersBack Descriptor.inside := by
    intro i d hd p hp
    obtain ⟨hlt, rfl⟩ := Array.getElem?_eq_some_iff.mp hd
    obtain rfl : i = 0 := Nat.lt_one_iff.mp hlt
    rw [List.mem_singleton.mp hp]
    decide
  have hparameter (id : Nat) (name : String) (hd : mapFromT.get id = .ok (.parameter name)) :
      mapFromT.Complete id := Graph.complete_of_inside hd fun p hp => nomatch hp
  have hmap : mapFromT.Complete 4 := by
    refine Graph.complete_of_inside (d := .dictionary 1 2) rfl fun p hp => ?_
    rcases List.mem_pair.mp hp with rfl | rfl
    · exact hparameter 1 "T" rfl
    · exact hparameter 2 "U" rfl
  have hid : mapFromT.Complete 5 :=
    Graph.complete_of_inside (d := .nullable 4) rfl fun p hp => List.mem_singleton.mp hp ▸ hmap
  have hb : mapFromT.Holds [("T", 3), ("U", 0)] := by
    intro name id hmem
    rcases List.mem_pair.mp hmem with heq | heq <;> cases heq <;> decide
  obtain ⟨id', g', hrun, h⟩ := substitute_simultaneous hback hid hb
  have hresult : (substitute [("T", 3), ("U", 0)] 5).run mapFromT =
      .ok (7, ⟨mapFromT.model, #[.nullable 4, .dictionary 3 0, .nullable 6]⟩) := by rfl
  cases hrun.symm.trans hresult
  exact ⟨_, hresult, rfl, h⟩

end Declgen.Walk
