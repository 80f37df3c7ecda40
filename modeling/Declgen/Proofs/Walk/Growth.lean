import Declgen.Proofs.Alike.Replacement
import Declgen.Proofs.Walk.Discovery
import Declgen.Walk.Run

/-!
# What a step of a walk adds

Whatever the model, a walk only adds: replacing type parameters adds types to the graph, and
converting types adds units to the registry and to the queue. So what has been found in a graph
stays there, and what holds of each unit that is queued can be followed through a conversion.
-/

namespace Declgen

/-- From every state a computation leads to one that is further on along `rel`, if it succeeds. -/
def Leads {ε α σ : Type} (rel : σ → σ → Prop) (x : StateT σ (Except ε) α) : Prop :=
  ∀ s, Outcome (fun r => rel s r.2) (fun _ => True) (x.run s)

namespace Leads

variable {ε α β σ : Type} {rel : σ → σ → Prop} {x : StateT σ (Except ε) α}

/-- Returning a value leads nowhere else. -/
theorem pure [Std.Refl rel] (a : α) : Leads rel (Pure.pure a : StateT σ (Except ε) α) :=
  fun s => Std.Refl.refl s

/-- Failing leads nowhere. -/
theorem throw (e : ε) : Leads rel (throw e : StateT σ (Except ε) α) := fun _ => trivial

/-- One computation after the other leads further along. -/
theorem bind [IsTrans σ rel] {f : α → StateT σ (Except ε) β} (hx : Leads rel x)
    (hf : ∀ a, Leads rel (f a)) : Leads rel (x >>= f) :=
  fun s => (hx s).run_bind fun a s' hs =>
    (hf a s').weaken fun _ hr => IsTrans.trans _ _ _ hs hr

/-- A computation without state comes first, and its result is known. -/
theorem lift_bind {x : Except ε α} {good : α → Prop} {f : α → StateT σ (Except ε) β}
    (hx : Outcome good (fun _ => True) x) (hf : ∀ a, good a → Leads rel (f a)) :
    Leads rel (liftM x >>= f) :=
  fun s => hx.lift_bind fun a ha => hf a ha s

/-- The state is read first. -/
theorem get_bind {f : σ → StateT σ (Except ε) β} (hf : ∀ s, Leads rel (f s)) :
    Leads rel (get >>= f) :=
  fun s => hf s s

/-- There are as many results as there have been calls. -/
theorem mapM_length [Std.Refl rel] [IsTrans σ rel] {f : α → StateT σ (Except ε) β} {as : List α}
    (hf : ∀ a ∈ as, Leads rel (f a)) (s : σ) :
    Outcome (fun r => rel s r.2 ∧ r.1.length = as.length) (fun _ => True) ((as.mapM f).run s) := by
  induction as generalizing s with
  | nil => exact ⟨Std.Refl.refl s, rfl⟩
  | cons a as ih =>
    rw [List.mapM_cons]
    refine (hf a List.mem_cons_self s).run_bind fun b s₁ h₁ => ?_
    refine (ih (fun c hc => hf c (List.mem_cons_of_mem _ hc)) s₁).run_bind fun bs s₂ h₂ => ?_
    exact ⟨IsTrans.trans _ _ _ h₁ h₂.1, congrArg (· + 1) h₂.2⟩

/-- Going through a list leads further along if each element does. -/
theorem mapM [Std.Refl rel] [IsTrans σ rel] {f : α → StateT σ (Except ε) β} {as : List α}
    (hf : ∀ a ∈ as, Leads rel (f a)) : Leads rel (as.mapM f) :=
  fun s => (mapM_length hf s).weaken fun _ h => h.1

end Leads

end Declgen

namespace Declgen.Walk

open Model TypeScript Declgen.Units

/-! ### Types -/

/-- A graph to which types have been added, none of them worse than those of its model. -/
structure Graph.Expands (g g' : Graph) : Prop where
  /-- Types have been added at most. -/
  graph : g.Extends g'
  /-- The types made are limited as before. -/
  tame : g.Tame → g'.Tame

instance : Std.Refl Graph.Expands := ⟨fun g => ⟨.refl g, fun h => h⟩⟩

instance : IsTrans Graph Graph.Expands :=
  ⟨fun _ _ _ h h' => ⟨h.graph.trans h'.graph, fun htame => h'.tame (h.tame htame)⟩⟩

variable {bindings : Bindings} {depth : Nat}

/-- From a graph that has expanded it expands further by a type that has no more arguments than
those of the model. -/
theorem keepOrAdd_expands {g g₁ : Graph} (h : g.Expands g₁) (id : TypeId) (unchanged : Bool)
    {d : Descriptor} (hcomposite : d.isComposite = true)
    (harity : g.Tame → arity d ≤ maxArity g.model) :
    Outcome (fun r => g.Expands r.2) (fun _ => True) ((keepOrAdd id unchanged d).run g₁) := by
  cases unchanged with
  | true => exact h
  | false =>
    refine ⟨h.graph.trans (g₁.extends_add d), fun htame => (h.tame htame).add hcomposite ?_⟩
    rw [h.graph.model]
    exact harity htame

/-- Replacing parameters within other types only adds types, by induction on the levels that are
left: each part expands the graph, and then at most one type is added, which has as many arguments
as the old one. -/
theorem substituteWithin_leads (above : List TypeId) (id : TypeId) :
    Leads Graph.Expands (substituteWithin bindings depth above id) := by
  induction depth generalizing above id with
  | zero => exact .get_bind fun g => .throw _
  | succ depth ih =>
    rw [substituteWithin]
    split
    · exact .get_bind fun g => .throw _
    intro g
    simp only [StateT.run_bind, StateT.run_get, pure_bind]
    cases hget : g.get id with
    | error e => trivial
    | ok d =>
      change Outcome _ _ (StateT.run _ g)
      cases d with
      | nullable inner =>
        exact (ih _ inner g).run_bind fun _ _ h =>
          keepOrAdd_expands h id _ rfl fun _ => Nat.zero_le _
      | array element =>
        exact (ih _ element g).run_bind fun _ _ h =>
          keepOrAdd_expands h id _ rfl fun _ => Nat.zero_le _
      | dictionary key value =>
        refine (ih _ key g).run_bind fun _ g₁ hkey => ?_
        refine (ih _ value g₁).run_bind fun _ g₂ hvalue => ?_
        exact keepOrAdd_expands (IsTrans.trans _ _ _ hkey hvalue) id _ rfl fun _ => Nat.zero_le _
      | instantiation definition arguments =>
        refine (Leads.mapM_length (fun i _ => ih _ i) g).run_bind fun arguments' _ h => ?_
        refine keepOrAdd_expands h.1 id _ rfl fun htame => ?_
        rw [arity, h.2]
        exact htame.arity_le hget
      | _ => exact Std.Refl.refl g

/-- Replacing the bound parameters of a type only adds types. -/
theorem substitute_leads (bindings : Bindings) (id : TypeId) :
    Leads Graph.Expands (substitute bindings id) := by
  rw [substitute]
  split
  · exact .pure id
  · exact .get_bind fun g => substituteWithin_leads [] id

/-- Binding parameters to arguments only adds types. -/
theorem bindArguments_leads (outer : Bindings) (parameters : List String)
    (arguments : List TypeId) (bound : Bindings) :
    Leads Graph.Expands (bindArguments outer parameters arguments bound) := by
  induction parameters generalizing arguments bound with
  | nil => exact .pure bound
  | cons parameter parameters ih =>
    cases arguments with
    | nil => exact .pure bound
    | cons argument arguments =>
      exact (substitute_leads outer argument).bind fun _ => ih arguments _

/-- Reading a base only adds types. -/
theorem baseRecord_leads (bindings : Bindings) (id : TypeId) :
    Leads Graph.Expands (baseRecord bindings id) := by
  rw [baseRecord]
  refine .get_bind fun g => .lift_bind (Outcome.any _) fun d _ => ?_
  cases d with
  | complex c => exact .pure _
  | instantiation definition arguments =>
    refine .lift_bind (Outcome.any _) fun c _ => ?_
    exact (bindArguments_leads bindings c.typeParams arguments []).bind fun _ => .pure _
  | _ => exact .throw _

/-- Adding the own members of a record only adds types. -/
theorem addOwnMembers_leads (owner : TypeId) (bindings : Bindings) (seen : List String)
    (own inherited : List Member) :
    Leads Graph.Expands (addOwnMembers owner bindings seen own inherited) := by
  induction own generalizing seen inherited with
  | nil => exact .pure inherited
  | cons m own ih =>
    rw [addOwnMembers]
    split
    · exact .get_bind fun g => .throw _
    · exact (substitute_leads bindings m.type).bind fun _ => ih _ _

/-- Gathering the members of all bases only adds types. -/
theorem membersWithin_leads (below : List TypeId) (bindings : Bindings) (id : TypeId) :
    Leads Graph.Expands (membersWithin depth below bindings id) := by
  induction depth generalizing below bindings id with
  | zero => exact .get_bind fun g => .throw _
  | succ depth ih =>
    rw [membersWithin]
    split
    · exact .get_bind fun g => .throw _
    refine (baseRecord_leads bindings id).bind fun r => ?_
    obtain ⟨c, bindings'⟩ := r
    dsimp only
    cases c.base with
    | none => exact addOwnMembers_leads _ _ _ _ _
    | some base => exact (ih _ _ base).bind fun _ => addOwnMembers_leads _ _ _ _ _

/-- Gathering the members of a record only adds types. -/
theorem membersOf_leads (id : TypeId) : Leads Graph.Expands (membersOf id) :=
  .get_bind fun _ => membersWithin_leads [] [] id

/-! ### Units -/

/-- Progress that only adds: what is added to the queue has `admits`, and no unit gets a body. -/
structure Gains (admits : Pending → Prop) (p p' : Progress) : Prop where
  /-- What waits has waited before or is admitted. -/
  queue : ∀ waiting ∈ p'.queue, waiting ∈ p.queue ∨ admits waiting
  /-- A unit with a body has been there before. -/
  bodies : ∀ (unit : UnitId) (slot : Slot), p'.units.slots[unit]? = some slot →
    slot.body ≠ none → p.units.slots[unit]? = some slot

variable {admits : Pending → Prop}

instance : Std.Refl (Gains admits) := ⟨fun _ => ⟨fun _ => .inl, fun _ _ hslot _ => hslot⟩⟩

instance : IsTrans Progress (Gains admits) where
  trans p p' p'' h h' := by
    refine ⟨fun waiting hwaiting => ?_, fun unit slot hslot hbody =>
      h.bodies unit slot (h'.bodies unit slot hslot hbody) hbody⟩
    rcases h'.queue waiting hwaiting with hold | hnew
    · exact h.queue waiting hold
    · exact .inr hnew

/-- The type of a unit is queued if the unit is new. -/
theorem unitFor_leads {g : Graph} {id : TypeId} (h : ∀ unit, admits ⟨unit, id⟩) :
    Leads (Gains admits) (unitFor g id) := by
  refine .lift_bind (Outcome.any _) fun key _ p => ?_
  rw [run_bind_eq (get_run p)]
  cases hlookup : p.units.lookup key with
  | some unit => exact Std.Refl.refl p
  | none =>
    refine (Outcome.any (header g id)).lift_bind fun header _ => ?_
    cases hreserve : p.units.reserve key header with
    | error e => trivial
    | ok r =>
      obtain ⟨rfl, -⟩ := (Registry.reserve_outcome hlookup).result hreserve
      refine ⟨fun waiting hwaiting => ?_, fun unit slot hslot hbody => ?_⟩
      · rcases List.mem_append.mp hwaiting with hold | hnew
        · exact .inl hold
        · rw [List.mem_singleton.mp hnew]
          exact .inr (h _)
      · simp only [Registry.append, Array.getElem?_push] at hslot
        split at hslot
        · cases hslot
          exact absurd rfl hbody
        · exact hslot

/-! ### Conversions -/

section Conversions

variable {rel : Progress → Progress → Prop} [Std.Refl rel] [IsTrans Progress rel]

/-- A reference leads where meeting its unit leads. -/
theorem referenceTo_leads {g : Graph} {id : TypeId} (h : Leads rel (unitFor g id)) :
    Leads rel (referenceTo g id) :=
  h.bind fun _ => .pure _

/-- A dictionary leads where converting its key leads. -/
theorem dictionaryOf_leads {g : Graph} {id : TypeId} {keyType : Descriptor} {key : Discovery Expr}
    {value : Expr} (hkey : Leads rel key) : Leads rel (dictionaryOf g id keyType key value) := by
  unfold dictionaryOf
  split
  · exact .pure _
  · exact .pure _
  · exact .pure _
  · exact .pure _
  · exact hkey.bind fun _ => .pure _
  · exact .throw _

/-- An instantiation refers to its record and converts its arguments, or it refers to itself. -/
theorem applied_leads {g : Graph} {id definition : TypeId} {arguments : List TypeId}
    {preserved : Bool} {part : TypeId → Discovery Expr}
    (hdefinition : preserved = true → Leads rel (unitFor g definition))
    (hself : preserved = false → Leads rel (unitFor g id)) (hpart : ∀ i, Leads rel (part i)) :
    Leads rel
      (if preserved = true then do
        let (unit, name) ← unitFor g definition
        return .genericReference unit name (← arguments.mapM part)
      else referenceTo g id) := by
  cases preserved with
  | false => exact referenceTo_leads (hself rfl)
  | true =>
    refine (hdefinition rfl).bind fun _ => ?_
    exact (Leads.mapM fun i _ => hpart i).bind fun _ => .pure _

/-- A conversion changes the progress only by meeting units: those of named types, where an
instantiation is one only if generic records are not preserved, and those of records behind
instantiations whose arguments are kept. -/
theorem convertWithin_leads_of {ctx : Context}
    (hnamed : ∀ id d, ctx.graph.get id = .ok d → ctx.hook d = none →
      (∀ definition arguments, d = .instantiation definition arguments →
        ctx.options.generics ≠ .preserve) → Leads rel (unitFor ctx.graph id))
    (hbehind : ∀ id definition arguments c,
      ctx.graph.get id = .ok (.instantiation definition arguments) →
      ctx.hook (.instantiation definition arguments) = none →
      ctx.graph.model.get definition = .ok (.complex c) →
      ctx.options.generics = .preserve ∨ mentionsParameter ctx.graph id = .ok true →
      Leads rel (unitFor ctx.graph definition))
    (depth : Nat) (within : List TypeId) (id : TypeId) :
    Leads rel (convertWithin ctx depth within id) := by
  induction depth generalizing within id with
  | zero => exact .throw _
  | succ depth ih =>
    rw [convertWithin]
    cases hd : ctx.graph.get id with
    | error e => exact fun _ => trivial
    | ok d =>
      rw [lift_ok_bind]
      cases hhook : ctx.hook d with
      | some e => exact .pure e
      | none =>
        have hunit := hnamed id d hd hhook
        dsimp only
        split
        · exact .throw _
        cases d with
        | primitive kind => exact .pure _
        | nullable inner => exact (ih _ inner).bind fun _ => .pure _
        | array element => exact (ih _ element).bind fun _ => .pure _
        | dictionary key value =>
          refine .lift_bind (Outcome.any _) fun keyType _ => ?_
          exact (ih _ value).bind fun value' => dictionaryOf_leads (ih _ key)
        | enum e => exact referenceTo_leads (hunit (by simp))
        | complex c =>
          dsimp only
          split
          · exact .throw _
          · exact referenceTo_leads (hunit (by simp))
        | parameter name =>
          dsimp only
          split
          · exact .throw _
          · exact .pure _
        | instantiation definition arguments =>
          have hdefinition : Outcome (fun c => ctx.graph.model.get definition = .ok (.complex c))
              (fun _ => True) (ctx.graph.definition definition arguments.length) := by
            cases hc : ctx.graph.definition definition arguments.length with
            | error e => trivial
            | ok c => exact (Graph.get_of_definition hc).1
          refine .lift_bind hdefinition fun c hc => ?_
          -- Only if the arguments are kept is the record behind the instantiation referred to.
          have hrecord := hbehind id definition arguments c hd hhook hc
          by_cases hstyle : ctx.options.generics = .preserve
          · rw [if_pos hstyle, pure_bind]
            exact applied_leads (fun _ => hrecord (.inl hstyle)) (fun h => by cases h) (ih _)
          · rw [if_neg hstyle]
            cases hmentions : mentionsParameter ctx.graph id with
            | error e => exact fun _ => trivial
            | ok preserved =>
              rw [lift_ok_bind]
              refine applied_leads (fun h => hrecord (.inr (hmentions.trans (by rw [h]))))
                (fun _ => ?_) (ih _)
              exact hunit fun _ _ _ => hstyle

/-- The fields of members lead where converting their types leads. -/
theorem convertMembers_leads_of {ctx : Context}
    (hconvert : ∀ id, Leads rel (convert ctx id)) (unit : String)
    (taken : List (String × String)) (members : List Member) :
    Leads rel (convertMembers ctx unit taken members) := by
  induction members generalizing taken with
  | nil => exact .pure []
  | cons m members ih =>
    rw [convertMembers]
    have hmember : Leads rel (convertMember ctx m) := (hconvert m.type).bind fun _ => .pure _
    refine hmember.bind fun field => ?_
    split
    · exact .throw _
    · exact (ih _).bind fun _ => .pure _

end Conversions

/-! ### Declarations and roots -/

section States

variable {setup : Setup} {s : State}

section Declarations

variable (rel : Graph → Progress → Progress → Prop) [∀ g, Std.Refl (rel g)]
  [∀ g, IsTrans Progress (rel g)]

/-- An object type takes the progress further along what relates the progress of each conversion in
a graph that has expanded. -/
theorem objectType_leads_of
    (hconvert : ∀ g scope id, s.graph.Expands g →
      Leads (rel g) (convert ⟨g, setup.options, setup.hook, scope⟩ id))
    (scope : List String) (unit : String) (source : TypeId) :
    Outcome (fun r => s.graph.Expands r.2.graph ∧ rel r.2.graph s.progress r.2.progress)
      (fun _ => True) (objectType setup s scope unit source) := by
  refine (membersOf_leads source s.graph).bind fun r hgraph => ?_
  obtain ⟨members, g⟩ := r
  have hmembers : Leads (rel g)
      (convertMembers ⟨g, setup.options, setup.hook, scope⟩ unit [] members) :=
    convertMembers_leads_of (fun id => hconvert g scope id hgraph) unit [] members
  exact (hmembers s.progress).bind fun _ hprogress => ⟨hgraph, hprogress⟩

/-- Building a declaration takes the progress further along in the same way. -/
theorem buildDeclaration_leads_of
    (hconvert : ∀ g scope id, s.graph.Expands g →
      Leads (rel g) (convert ⟨g, setup.options, setup.hook, scope⟩ id))
    (name : String) (source : TypeId) :
    Outcome (fun r => s.graph.Expands r.2.graph ∧ rel r.2.graph s.progress r.2.progress)
      (fun _ => True) (buildDeclaration setup s name source) := by
  refine (Outcome.any (s.graph.get source)).bind fun d _ => ?_
  cases d with
  | enum e => exact ⟨Std.Refl.refl _, Std.Refl.refl _⟩
  | complex c =>
    exact (objectType_leads_of rel hconvert c.typeParams name source).bind fun _ h => h
  | instantiation definition arguments =>
    exact (objectType_leads_of rel hconvert [] name source).bind fun _ h => h
  | _ => trivial

end Declarations

/-- A root that the hook does not replace is met or converted. -/
theorem meetRoot_leads_of (rel : Progress → Progress → Prop) [Std.Refl rel] {id : TypeId}
    (hunit : ∀ d, s.graph.get id = .ok d → setup.hook d = none →
      Leads rel (unitFor s.graph id))
    (hconvert : Leads rel (convert ⟨s.graph, setup.options, setup.hook, []⟩ id)) :
    Outcome (fun s' => s'.graph = s.graph ∧ rel s.progress s'.progress) (fun _ => True)
      (meetRoot setup s id) := by
  unfold meetRoot
  cases hd : s.graph.get id with
  | error e => trivial
  | ok d =>
    rw [ok_bind]
    cases hhook : setup.hook d with
    | some e => exact ⟨rfl, Std.Refl.refl _⟩
    | none =>
      have hmeet := hunit d hd hhook
      dsimp only
      split
      · exact (hmeet s.progress).bind fun _ hprogress => ⟨rfl, hprogress⟩
      · exact (hmeet s.progress).bind fun _ hprogress => ⟨rfl, hprogress⟩
      · exact (hconvert s.progress).bind fun _ hprogress => ⟨rfl, hprogress⟩

end States

/-- Completing a unit gives a body to no other one. -/
theorem complete_outcome (units : Registry) (unit : UnitId) (declaration : Declaration)
    (references : List UnitId) :
    Outcome (fun units' => ∀ (other : UnitId) (slot : Slot), units'.slots[other]? = some slot →
        slot.body ≠ none → other = unit ∨ units.slots[other]? = some slot)
      (fun _ => True) (units.complete unit declaration references) := by
  unfold Registry.complete
  split
  · exact fun other slot hslot _ => .inr hslot
  · split
    · trivial
    · intro other slot hslot _
      by_cases hother : unit = other
      · exact .inl hother.symm
      · rw [Array.getElem?_setIfInBounds_ne hother] at hslot
        exact .inr hslot

end Declgen.Walk
