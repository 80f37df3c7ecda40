import Declgen.Proofs.Outcome
import Declgen.Proofs.Room
import Declgen.Walk.Run

/-!
# Errors of types and errors of the registry

A walk fails for a reason that lies in the types, or because the registry refuses to complete a unit
a second time or lacks the body of one. The first kind of error is all that identities, headers,
members, conversions and reservations can end with, whatever the model, the hook and the options.
-/

namespace Declgen

/-- The error lies in the types or in their names, not in the order in which units were
completed. -/
def GenerateError.OfTypes : GenerateError → Prop
  | .completedTwice _ | .neverCompleted _ => False
  | _ => True

/-- In every state a computation fails with an error that has `bad`, if it fails. -/
def Blames {ε α σ : Type} (bad : ε → Prop) (x : StateT σ (Except ε) α) : Prop :=
  ∀ s, Outcome (fun _ => True) bad (x.run s)

namespace Blames

variable {ε α β σ : Type} {bad : ε → Prop}

/-- Returning a value does not fail. -/
theorem pure (a : α) : Blames bad (Pure.pure a : StateT σ (Except ε) α) := fun _ => trivial

/-- Failing with a bad error. -/
theorem throw {e : ε} (h : bad e) : Blames bad (throw e : StateT σ (Except ε) α) := fun _ => h

/-- A computation without state fails with its own errors. -/
theorem lift {x : Except ε α} (hx : Outcome (fun _ => True) bad x) :
    Blames bad (liftM x : StateT σ (Except ε) α) := by
  intro s
  cases x with
  | ok a => trivial
  | error e => exact hx

/-- A computation without state, and then another one. -/
theorem lift_bind {x : Except ε α} {f : α → StateT σ (Except ε) β}
    (hx : Outcome (fun _ => True) bad x) (hf : ∀ a, Blames bad (f a)) :
    Blames bad (liftM x >>= f) :=
  fun s => hx.lift_bind fun a _ => hf a s

/-- One computation after the other. -/
theorem bind {x : StateT σ (Except ε) α} {f : α → StateT σ (Except ε) β} (hx : Blames bad x)
    (hf : ∀ a, Blames bad (f a)) : Blames bad (x >>= f) :=
  fun s => (hx s).run_bind fun a s' _ => hf a s'

/-- Reading the state does not fail. -/
theorem get_bind {f : σ → StateT σ (Except ε) β} (hf : ∀ s, Blames bad (f s)) :
    Blames bad (get >>= f) :=
  fun s => hf s s

/-- Going through a list fails where an element does. -/
theorem mapM {f : α → StateT σ (Except ε) β} {as : List α} (hf : ∀ a, Blames bad (f a)) :
    Blames bad (as.mapM f) := by
  induction as with
  | nil => exact .pure []
  | cons a as ih =>
    rw [List.mapM_cons]
    exact (hf a).bind fun _ => ih.bind fun _ => .pure _

end Blames

end Declgen

namespace Declgen.Walk

open Model TypeScript Declgen.Units

/-- The computation has a result, or an error that lies in the types. -/
abbrev FailsByTypes {α : Type} (x : Except GenerateError α) : Prop :=
  Outcome (fun _ => True) GenerateError.OfTypes x

variable {g : Graph} {bindings : Bindings}

/-! ### Reading types -/

/-- An error of the model is one of its types. -/
theorem mapError_failsByTypes {α : Type} (x : Except ModelError α) :
    FailsByTypes (x.mapError .model) := by
  cases x <;> trivial

/-- A type that is not there is an error of types. -/
theorem get_failsByTypes (g : Graph) (id : TypeId) : FailsByTypes (g.get id) := by
  rw [Graph.get]
  split
  · exact mapError_failsByTypes _
  · split <;> trivial

/-- A text of a type fails because of the types, if those of its parts do. -/
theorem Wording.text_failsByTypes (w : Wording) {part : TypeId → Except GenerateError String}
    (hpart : ∀ id, FailsByTypes (part id)) (d : Descriptor) : FailsByTypes (w.text part d) := by
  cases d with
  | nullable inner => exact (hpart inner).bind fun _ _ => trivial
  | array element => exact (hpart element).bind fun _ _ => trivial
  | dictionary key value => exact (hpart key).bind fun _ _ => (hpart value).bind fun _ _ => trivial
  | instantiation definition arguments =>
    refine (hpart definition).bind fun _ _ => ?_
    exact (Outcome.mapM_forall₂ fun argument _ => hpart argument).bind fun _ _ => trivial
  | _ => trivial

/-- So does the descent for a text, if a type that is too deep is an error of its type. -/
theorem Wording.within_failsByTypes (w : Wording) {deeper : Graph → TypeId → GenerateError}
    (hdeeper : ∀ id, (deeper g id).OfTypes) (depth : Nat) (above : List TypeId) (id : TypeId) :
    FailsByTypes (w.within deeper g depth above id) := by
  induction depth generalizing above id with
  | zero =>
    rw [within]
    split
    · trivial
    · exact hdeeper id
  | succ depth ih =>
    rw [within]
    split
    · trivial
    · exact (get_failsByTypes g id).bind fun d _ => w.text_failsByTypes (ih _) d

/-- An identity fails because of the types. -/
theorem identityWithin_failsByTypes (depth : Nat) (above : List TypeId) (id : TypeId) :
    FailsByTypes (identityWithin g depth above id) := by
  rw [identityWithin_eq_within]
  refine Wording.within_failsByTypes _ (fun id => ?_) depth above id
  trivial

/-- The name that is made for an instantiation fails because of the types. -/
theorem synthesizedWithin_failsByTypes (levels : Nat) (above : List TypeId) (id : TypeId) :
    FailsByTypes (synthesizedWithin g levels above id) := by
  rw [synthesizedWithin_eq_within]
  refine Wording.within_failsByTypes _ (fun id => ?_) levels above id
  trivial

/-- A header fails because of the types. -/
theorem header_failsByTypes (g : Graph) (id : TypeId) : FailsByTypes (header g id) := by
  refine (get_failsByTypes g id).bind fun d _ => ?_
  cases d with
  | instantiation definition arguments =>
    refine (mapError_failsByTypes _).bind fun c _ => ?_
    exact (synthesizedWithin_failsByTypes _ _ _).bind fun _ _ => trivial
  | _ => trivial

/-- Looking for a parameter fails because of the types. -/
theorem mentionsParameterWithin_failsByTypes (depth : Nat) (above : List TypeId) (id : TypeId) :
    FailsByTypes (mentionsParameterWithin g depth above id) := by
  induction depth generalizing above id with
  | zero => trivial
  | succ depth ih =>
    rw [mentionsParameterWithin]
    split
    · trivial
    refine (get_failsByTypes g id).bind fun d _ => ?_
    cases d with
    | nullable inner => exact ih _ inner
    | array element => exact ih _ element
    | dictionary key value =>
      refine (ih _ key).bind fun found _ => ?_
      cases found with
      | true => trivial
      | false => exact ih _ value
    | instantiation definition arguments =>
      exact (Outcome.mapM_forall₂ fun argument _ => ih _ argument).bind fun _ _ => trivial
    | _ => trivial

/-! ### Members -/

/-- Adding a type does not fail. -/
theorem keepOrAdd_blames (id : TypeId) (unchanged : Bool) (d : Descriptor) :
    Blames GenerateError.OfTypes (keepOrAdd id unchanged d) := by
  cases unchanged <;> exact fun _ => trivial

/-- Replacing parameters within other types fails because of the types. -/
theorem substituteWithin_blames (depth : Nat) (above : List TypeId) (id : TypeId) :
    Blames GenerateError.OfTypes (substituteWithin bindings depth above id) := by
  induction depth generalizing above id with
  | zero => exact .get_bind fun g => .throw trivial
  | succ depth ih =>
    rw [substituteWithin]
    split
    · exact .get_bind fun g => .throw trivial
    refine .get_bind fun g => .lift_bind (get_failsByTypes g id) fun d => ?_
    cases d with
    | nullable inner => exact (ih _ inner).bind fun _ => keepOrAdd_blames _ _ _
    | array element => exact (ih _ element).bind fun _ => keepOrAdd_blames _ _ _
    | dictionary key value =>
      exact (ih _ key).bind fun _ => (ih _ value).bind fun _ => keepOrAdd_blames _ _ _
    | instantiation definition arguments =>
      exact (Blames.mapM fun argument => ih _ argument).bind fun _ => keepOrAdd_blames _ _ _
    | _ => exact .pure _

/-- Replacing the bound parameters of a type fails because of the types. -/
theorem substitute_blames (bindings : Bindings) (id : TypeId) :
    Blames GenerateError.OfTypes (substitute bindings id) := by
  rw [substitute]
  split
  · exact .pure id
  · exact .get_bind fun g => substituteWithin_blames _ [] id

/-- Binding parameters to arguments fails because of the types. -/
theorem bindArguments_blames (outer : Bindings) (parameters : List String)
    (arguments : List TypeId) (bound : Bindings) :
    Blames GenerateError.OfTypes (bindArguments outer parameters arguments bound) := by
  induction parameters generalizing arguments bound with
  | nil => exact .pure bound
  | cons parameter parameters ih =>
    cases arguments with
    | nil => exact .pure bound
    | cons argument arguments =>
      exact (substitute_blames outer argument).bind fun _ => ih arguments _

/-- Reading a base fails because of the types. -/
theorem baseRecord_blames (bindings : Bindings) (id : TypeId) :
    Blames GenerateError.OfTypes (baseRecord bindings id) := by
  refine .get_bind fun g => .lift_bind (get_failsByTypes g id) fun d => ?_
  cases d with
  | complex c => exact .pure _
  | instantiation definition arguments =>
    refine .lift_bind (mapError_failsByTypes _) fun c => ?_
    exact (bindArguments_blames bindings c.typeParams arguments []).bind fun _ => .pure _
  | _ => exact .throw trivial

/-- Adding the own members of a record fails because of the types. -/
theorem addOwnMembers_blames (owner : TypeId) (bindings : Bindings) (seen : List String)
    (own inherited : List Member) :
    Blames GenerateError.OfTypes (addOwnMembers owner bindings seen own inherited) := by
  induction own generalizing seen inherited with
  | nil => exact .pure inherited
  | cons m own ih =>
    rw [addOwnMembers]
    split
    · exact .get_bind fun g => .throw trivial
    · exact (substitute_blames bindings m.type).bind fun _ => ih _ _

/-- Gathering the members of all bases fails because of the types. -/
theorem membersWithin_blames (depth : Nat) (below : List TypeId) (bindings : Bindings)
    (id : TypeId) : Blames GenerateError.OfTypes (membersWithin depth below bindings id) := by
  induction depth generalizing below bindings id with
  | zero => exact .get_bind fun g => .throw trivial
  | succ depth ih =>
    rw [membersWithin]
    split
    · exact .get_bind fun g => .throw trivial
    refine (baseRecord_blames bindings id).bind fun r => ?_
    obtain ⟨c, bindings'⟩ := r
    dsimp only
    cases c.base with
    | none => exact addOwnMembers_blames _ _ _ _ _
    | some base => exact (ih _ _ base).bind fun _ => addOwnMembers_blames _ _ _ _ _

/-! ### Conversions -/

/-- The units of a conversion are only reserved, and a reservation fails because of a name. -/
theorem unitFor_blames (g : Graph) (id : TypeId) :
    Blames GenerateError.OfTypes (unitFor g id) := by
  refine .lift_bind (identityWithin_failsByTypes _ _ _) fun key => .get_bind fun p => ?_
  cases p.units.lookup key with
  | some unit => exact .pure _
  | none =>
    refine .lift_bind (header_failsByTypes g id) fun header => .lift_bind ?_ fun _ =>
      fun _ => trivial
    rw [Registry.reserve]
    split
    · trivial
    · split <;> trivial

/-- A property of computations that conversions have if meeting a unit has it: it holds where
nothing is done, where an error lies in the types, and of one computation after the other. -/
structure Stepwise (P : {α : Type} → Discovery α → Prop) : Prop where
  /-- Nothing is done. -/
  pure {α : Type} (a : α) : P (pure a : Discovery α)
  /-- The computation fails. -/
  throw {α : Type} {e : GenerateError} (he : e.OfTypes) : P (throw e : Discovery α)
  /-- Types are read. -/
  lift {α : Type} {x : Except GenerateError α} (hx : FailsByTypes x) : P (liftM x : Discovery α)
  /-- One computation comes after the other. -/
  bind {α β : Type} {x : Discovery α} {f : α → Discovery β} (hx : P x) (hf : ∀ a, P (f a)) :
    P (x >>= f)
  /-- A unit is met. -/
  unitFor (g : Graph) (id : TypeId) : P (unitFor g id)

namespace Stepwise

variable {P : {α : Type} → Discovery α → Prop}

/-- The property is kept by going through a list. -/
theorem mapM (h : Stepwise P) {α β : Type} {f : α → Discovery β} {as : List α}
    (hf : ∀ a, P (f a)) : P (as.mapM f) := by
  induction as with
  | nil => exact h.pure []
  | cons a as ih =>
    rw [List.mapM_cons]
    exact h.bind (hf a) fun _ => h.bind ih fun _ => h.pure _

/-- The property holds of a reference, which meets a unit. -/
theorem referenceTo (h : Stepwise P) (g : Graph) (id : TypeId) : P (referenceTo g id) :=
  h.bind (h.unitFor g id) fun _ => h.pure _

/-- The property holds of a dictionary if it holds of the key. -/
theorem dictionaryOf (h : Stepwise P) {id : TypeId} {keyType : Descriptor} {key : Discovery Expr}
    {value : Expr} (hkey : P key) : P (dictionaryOf g id keyType key value) := by
  unfold Walk.dictionaryOf
  split
  · exact h.pure _
  · exact h.pure _
  · exact h.pure _
  · exact h.pure _
  · exact h.bind hkey fun _ => h.pure _
  · exact h.throw trivial

/-- What holds of meeting a unit holds of a conversion. -/
theorem convertWithin (h : Stepwise P) (ctx : Context) (depth : Nat) (within : List TypeId)
    (id : TypeId) : P (convertWithin ctx depth within id) := by
  induction depth generalizing within id with
  | zero => exact h.throw trivial
  | succ depth ih =>
    rw [Walk.convertWithin]
    refine h.bind (h.lift (get_failsByTypes _ id)) fun d => ?_
    cases ctx.hook d with
    | some e => exact h.pure e
    | none =>
      dsimp only
      split
      · exact h.throw trivial
      cases d with
      | primitive kind => exact h.pure _
      | nullable inner => exact h.bind (ih _ inner) fun _ => h.pure _
      | array element => exact h.bind (ih _ element) fun _ => h.pure _
      | dictionary key value =>
        refine h.bind (h.lift (get_failsByTypes _ key)) fun keyType => ?_
        exact h.bind (ih _ value) fun _ => h.dictionaryOf (ih _ key)
      | enum e => exact h.referenceTo _ id
      | complex c =>
        dsimp only
        split
        · exact h.throw trivial
        · exact h.referenceTo _ id
      | parameter name =>
        dsimp only
        split
        · exact h.throw trivial
        · exact h.pure _
      | instantiation definition arguments =>
        have happlied (preserved : Bool) : P
            (if preserved = true then do
              let unit ← Walk.unitFor ctx.graph definition
              return .genericReference unit.1 unit.2
                (← arguments.mapM (Walk.convertWithin ctx depth (id :: within)))
            else Walk.referenceTo ctx.graph id) := by
          split
          · refine h.bind (h.unitFor ctx.graph definition) fun _ => ?_
            exact h.bind (h.mapM fun argument => ih _ argument) fun _ => h.pure _
          · exact h.referenceTo _ id
        refine h.bind (h.lift (mapError_failsByTypes _)) fun c => ?_
        by_cases hstyle : ctx.options.generics = .preserve
        · rw [if_pos hstyle, pure_bind]
          exact happlied true
        · rw [if_neg hstyle]
          exact h.bind (h.lift (mentionsParameterWithin_failsByTypes _ _ _)) happlied

/-- The property holds of the fields of members, which are converted one after the other. -/
theorem convertMembers (h : Stepwise P) (ctx : Context) (unit : String)
    (taken : List (String × String)) (members : List Member) :
    P (convertMembers ctx unit taken members) := by
  induction members generalizing taken with
  | nil => exact h.pure []
  | cons m members ih =>
    have hmember : P (convertMember ctx m) :=
      h.bind (h.convertWithin ctx _ [] m.type) fun _ => h.pure _
    rw [Walk.convertMembers]
    refine h.bind hmember fun field => ?_
    split
    · exact h.throw trivial
    · exact h.bind (ih _) fun _ => h.pure _

end Stepwise

/-- That only types are to blame is such a property. -/
theorem blames_stepwise : Stepwise (Blames GenerateError.OfTypes) where
  pure := .pure
  throw := .throw
  lift hx := .lift hx
  bind := .bind
  unitFor := unitFor_blames

/-! ### Declarations and roots -/

variable {setup : Setup} {s : State}

/-- An object type fails because of the types. -/
theorem objectType_failsByTypes (scope : List String) (unit : String) (source : TypeId) :
    FailsByTypes (objectType setup s scope unit source) := by
  refine (membersWithin_blames _ [] [] source s.graph).bind fun r _ => ?_
  exact (blames_stepwise.convertMembers _ unit [] r.1 s.progress).bind fun _ _ => trivial

/-- Building a declaration fails because of the types. -/
theorem buildDeclaration_failsByTypes (name : String) (source : TypeId) :
    FailsByTypes (buildDeclaration setup s name source) := by
  refine (get_failsByTypes s.graph source).bind fun d _ => ?_
  cases d with
  | enum e => trivial
  | complex c => exact (objectType_failsByTypes c.typeParams name source).bind fun _ _ => trivial
  | instantiation definition arguments =>
    exact (objectType_failsByTypes [] name source).bind fun _ _ => trivial
  | _ => trivial

/-- So does meeting a root. -/
theorem meetRoot_failsByTypes (id : TypeId) : FailsByTypes (meetRoot setup s id) := by
  unfold meetRoot
  refine (get_failsByTypes s.graph id).bind fun d _ => ?_
  cases setup.hook d with
  | some e => trivial
  | none =>
    dsimp only
    split
    · exact (unitFor_blames s.graph id s.progress).bind fun _ _ => trivial
    · exact (unitFor_blames s.graph id s.progress).bind fun _ _ => trivial
    · exact (blames_stepwise.convertWithin _ _ [] id s.progress).bind fun _ _ => trivial

end Declgen.Walk
