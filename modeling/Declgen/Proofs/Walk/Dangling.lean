import Declgen.Proofs.Walk.Failing
import Declgen.Proofs.Walk.Flattening
import Declgen.Proofs.Walk.Hooks

/-!
# Members of missing types

The types that a walk makes are numbered on from the end of the model. So a number that the model
does not have is an error as long as no type with this number has been made. The type of a member is
read when the members of its unit have been gathered, and it is missing exactly if its number is not
below the number of types at that time. Where nothing is made, these are the types of the model.
-/

namespace Declgen.Walk

open Model TypeScript Declgen.Units

variable {setup : Setup} {a : Arena} {roots : List TypeId} {s s' : State} {g g' : Graph}

/-! ### Reading a missing type -/

/-- A number beyond all types is an error. -/
theorem Graph.get_of_size_le {id : Nat} (h : g.size ≤ id) :
    g.get id = .error (.model (.outOfRange id)) := by
  rw [Graph.size] at h
  have hmodel : ¬ id < g.model.size := by omega
  have hmade : g.made.size ≤ id - g.model.size := by omega
  rw [Graph.get, if_neg hmodel, Array.getElem?_eq_none hmade]

/-- The error of a computation, or another one if it has none. -/
def errorOr {ε α : Type} (x : Except ε α) (e : ε) : ε :=
  match x with
  | .error e' => e'
  | .ok _ => e

/-- A member of a missing type is an error, unless a member before it is one. -/
theorem convertMembers_of_size_le {ctx : Context} {unit : String} {m : Member}
    (hm : ctx.graph.size ≤ (m.type : Nat)) (taken : List (String × String))
    (before after : List Member) (p : Progress) :
    (convertMembers ctx unit taken (before ++ m :: after)).run p =
      .error (errorOr ((convertMembers ctx unit taken before).run p)
        (.model (.outOfRange m.type))) := by
  induction before generalizing taken p with
  | nil =>
    have hmember : (convertMember ctx m).run p = .error (.model (.outOfRange m.type)) := by
      rw [convertMember, convert, convertWithin, Graph.get_of_size_le hm]
      rfl
    rw [List.nil_append, convertMembers.eq_def ctx unit taken (m :: after)]
    dsimp only
    rw [StateT.run_bind, hmember]
    rfl
  | cons first before ih =>
    rw [List.cons_append, convertMembers, convertMembers, StateT.run_bind, StateT.run_bind]
    cases (convertMember ctx first).run p with
    | error e => rfl
    | ok r =>
      obtain ⟨field, p₁⟩ := r
      rw [ok_bind, ok_bind]
      dsimp only
      cases taken.lookup field.name with
      | some other => rfl
      | none =>
        dsimp only
        rw [StateT.run_bind, StateT.run_bind, ih]
        cases (convertMembers ctx unit ((field.name, first.name) :: taken) before).run p₁ <;> rfl

/-! ### Own members -/

/-- Among the gathered members are the own ones. Each has the type that its declaration says, or the
declared type has been rewritten and so is there. -/
theorem exists_own_member {source : TypeId} {c : ComplexType} {m : Member} {members : List Member}
    (hmembers : (membersOf source).run g = .ok (members, g'))
    (hrecord : g.record? source = some c) (hm : m ∈ c.members) :
    ∃ m' ∈ members, m'.name = m.name ∧
      (m'.type = m.type ∨ (m.type : Nat) < g'.size) := by
  obtain ⟨hext, levels, hlineage, hflattened⟩ := (membersOf_flattened source g).result hmembers
  -- The record furthest down is the one that the type names.
  obtain ⟨bindings, above, rfl⟩ : ∃ bindings above, levels = ⟨source, c, bindings⟩ :: above := by
    have hnamed {bindings : Bindings} {c' : ComplexType}
        (hstands : Stands g' [] source c' bindings) : c' = c := by
      have hrecord' := hstands.record?
      obtain ⟨d, hd⟩ : ∃ d, g.get source = .ok d := by
        cases hget : g.get source with
        | ok d => exact ⟨d, rfl⟩
        | error e =>
          rw [Graph.record?, hget] at hrecord
          cases hrecord
      rw [hext.record?_eq hd, hrecord, Option.some.injEq] at hrecord'
      exact hrecord'.symm
    cases hlineage with
    | root hstands => exact ⟨_, [], by rw [hnamed hstands]⟩
    | derived hstands _ _ => exact ⟨_, _, by rw [hnamed hstands]⟩
  have hname : m.name ∈ members.map (·.name) := by
    rw [hflattened.names, List.mem_eraseDups, declaredNames]
    refine List.mem_flatMap.mpr ⟨⟨source, c, bindings⟩, by simp, ?_⟩
    exact List.mem_map_of_mem hm
  obtain ⟨m', hm', hname⟩ := List.mem_map.mp hname
  refine ⟨m', hm', hname, ?_⟩
  obtain ⟨level, declared, hlast, -, hrewritten⟩ := hflattened.entry m' hm'
  have hfind : c.members.find? (fun other => other.name == m.name) = some m :=
    find?_of_nodup (hflattened.distinct _ List.mem_cons_self) hm
  rw [lastDeclared, List.findSome?_cons, hname] at hlast
  simp only [hfind, Option.map_some, Option.some.injEq, Prod.mk.injEq] at hlast
  obtain ⟨rfl, rfl⟩ := hlast
  rcases hrewritten with ⟨-, htype⟩ | ⟨-, hrewrites⟩
  · exact .inl htype
  · exact .inr hrewrites.lt_size

/-! ### The next unit -/

/-- In a walk the unit that has waited longest in the state `s`. -/
structure NextUnit (setup : Setup) (a : Arena) (roots : List TypeId) (s : State)
    (waiting : Pending) : Prop where
  /-- The walk comes to the state. -/
  reached : ∃ s₀ n, roots.foldlM (meetRoot setup) (.start a) = .ok s₀ ∧ Run setup n s₀ s
  /-- No unit has waited longer. -/
  first : s.progress.queue.head? = some waiting

/-- The parameters in scope in the declaration that is built from a type. -/
def scopeOf (g : Graph) (source : TypeId) : List String :=
  match g.get source with
  | .ok (.complex c) => c.typeParams
  | _ => []

/-- The fields of some members of the unit that has waited longest, over the graph in which its
members have been gathered. -/
def nextFields (setup : Setup) (s : State) (waiting : Pending) (g : Graph)
    (members : List Member) : Except GenerateError (List (TypeScript.Field Expr) × Progress) :=
  (convertMembers ⟨g, setup.options, setup.hook, scopeOf s.graph waiting.source⟩
    (unitName s.progress.units waiting.unit) [] members).run
      ⟨s.progress.units, s.progress.queue.tail⟩

section Building

variable {waiting : Pending} {c : ComplexType} {members : List Member}

/-- A member of a missing type is an error of the fields, unless a member before it is one. -/
theorem nextFields_of_size_le {g : Graph} {m : Member} (hm : g.size ≤ (m.type : Nat))
    {before after : List Member} : nextFields setup s waiting g (before ++ m :: after) =
      .error (errorOr (nextFields setup s waiting g before) (.model (.outOfRange m.type))) :=
  convertMembers_of_size_le hm [] before after _

/-- A unit of a record is built from its members and then from their fields. -/
theorem step_of_record (setup : Setup) (hqueue : s.progress.queue.head? = some waiting)
    (hrecord : s.graph.record? waiting.source = some c) :
    ∃ rest : List (TypeScript.Field Expr) × State → Except GenerateError State,
      step setup s = (do
        let (members, g) ← (membersOf waiting.source).run s.graph
        let (fields, p) ← nextFields setup s waiting g members
        rest (fields, ⟨g, p⟩)) := by
  obtain ⟨g, units, queue⟩ := s
  cases queue with
  | nil => cases hqueue
  | cons first queue =>
    cases hqueue
    have hstep (scope : List String) (hscope : scopeOf g waiting.source = scope)
        (hbuild : buildDeclaration setup ⟨g, units, queue⟩
            (unitName units waiting.unit) waiting.source = (do
          let r ← objectType setup ⟨g, units, queue⟩ scope
            (unitName units waiting.unit) waiting.source
          pure (.alias (unitName units waiting.unit) scope r.1, r.2))) :
        ∃ rest : List (TypeScript.Field Expr) × State → Except GenerateError State,
          step setup ⟨g, units, waiting :: queue⟩ = (do
            let (members, g') ← (membersOf waiting.source).run g
            let (fields, p) ← nextFields setup ⟨g, units, waiting :: queue⟩ waiting g' members
            rest (fields, ⟨g', p⟩)) := by
      refine ⟨fun r => do
        let declaration : Declaration :=
          .alias (unitName units waiting.unit) scope (.object r.1)
        let units ← r.2.progress.units.complete waiting.unit declaration declaration.references
        pure ⟨r.2.graph, ⟨units, r.2.progress.queue⟩⟩, ?_⟩
      rw [step]
      dsimp only
      rw [hbuild, objectType]
      simp only [nextFields, hscope, bind_assoc, pure_bind, List.tail_cons]
    dsimp only at hrecord
    rw [Graph.record?] at hrecord
    cases hget : g.get waiting.source with
    | error e =>
      rw [hget] at hrecord
      cases hrecord
    | ok d =>
      rw [hget] at hrecord
      cases d with
      | complex c' =>
        refine hstep c'.typeParams (by rw [scopeOf, hget]) ?_
        rw [buildDeclaration, hget]
        rfl
      | instantiation definition arguments =>
        refine hstep [] (by rw [scopeOf, hget]) ?_
        rw [buildDeclaration, hget]
        rfl
      | _ => cases hrecord

/-- An error of the next build is that of the walk. -/
theorem NextUnit.walk_eq_error (h : NextUnit setup a roots s waiting) {e : GenerateError}
    (hstep : step setup s = .error e) : walk setup .empty a roots = .error e := by
  obtain ⟨s₀, n, hmeet, hrun⟩ := h.reached
  refine walk_eq_error_of_fails hmeet ⟨n, s, hrun, fun hempty => ?_, hstep⟩
  have hfirst := h.first
  rw [hempty] at hfirst
  cases hfirst

/-- Where the members of the next unit cannot be gathered, their error is that of the walk. -/
theorem NextUnit.walk_eq_error_of_membersOf (h : NextUnit setup a roots s waiting)
    (hrecord : s.graph.record? waiting.source = some c) {e : GenerateError}
    (hmembers : (membersOf waiting.source).run s.graph = .error e) :
    walk setup .empty a roots = .error e := by
  obtain ⟨rest, hstep⟩ := step_of_record setup h.first hrecord
  refine h.walk_eq_error ?_
  rw [hstep, hmembers]
  rfl

/-- Where the members of the next unit can be gathered, one of a missing type is an error of the
walk, unless there is an error before it. -/
theorem NextUnit.walk_eq_error_of_size_le (h : NextUnit setup a roots s waiting)
    (hrecord : s.graph.record? waiting.source = some c)
    (hmembers : (membersOf waiting.source).run s.graph = .ok (members, g)) {m : Member}
    (hm : m ∈ c.members) (hle : g.size ≤ (m.type : Nat)) :
    ∃ before m' after, members = before ++ m' :: after ∧ m'.name = m.name ∧ m'.type = m.type ∧
      walk setup .empty a roots = .error (errorOr (nextFields setup s waiting g before)
        (.model (.outOfRange m.type))) := by
  obtain ⟨m', hm', hname, htype⟩ := exists_own_member hmembers hrecord hm
  have htype := htype.resolve_right (Nat.not_lt.mpr hle)
  obtain ⟨before, after, rfl⟩ := List.append_of_mem hm'
  obtain ⟨rest, hstep⟩ := step_of_record setup h.first hrecord
  refine ⟨before, m', after, rfl, hname, htype, h.walk_eq_error ?_⟩
  rw [← htype] at hle
  rw [hstep, hmembers, ← htype, ok_bind]
  dsimp only
  rw [nextFields_of_size_le hle]
  rfl

/-- Where the next unit can be built, the types of its own members are there. -/
theorem NextUnit.lt_size (h : NextUnit setup a roots s waiting)
    (hrecord : s.graph.record? waiting.source = some c) (hbuild : step setup s = .ok s') :
    ∃ members g, (membersOf waiting.source).run s.graph = .ok (members, g) ∧
      ∀ m ∈ c.members, (m.type : Nat) < g.size := by
  obtain ⟨rest, hstep⟩ := step_of_record setup h.first hrecord
  rw [hstep] at hbuild
  obtain ⟨⟨members, g⟩, hmembers, hbuild⟩ := bind_eq_ok hbuild
  obtain ⟨fields, hfields, -⟩ := bind_eq_ok hbuild
  refine ⟨members, g, hmembers, fun m hm => ?_⟩
  obtain ⟨m', hm', -, htype⟩ := exists_own_member hmembers hrecord hm
  rcases htype with htype | hlt
  · by_contra hle
    obtain ⟨before, after, rfl⟩ := List.append_of_mem hm'
    rw [← htype] at hle
    cases hfields.symm.trans (nextFields_of_size_le (Nat.le_of_not_lt hle))
  · exact hlt

end Building

/-! ### Where nothing is made -/

/-- A walk over the model makes no types: no base of a record has arguments, and no instantiation
has, unless generic records are preserved. -/
structure MakesNothing (generics : GenericStyle) (a : Arena) : Prop where
  /-- A base is not an instantiation with arguments. -/
  bases : ∀ id c base definition arguments, a.get id = .ok (.complex c) → c.base = some base →
    a.get base = .ok (.instantiation definition arguments) → arguments = []
  /-- Nor is any other type, or none of them has a unit. -/
  others : generics = .preserve ∨
    ∀ id definition arguments, a.get id = .ok (.instantiation definition arguments) →
      arguments = []

/-- A type is not an instantiation with arguments. -/
def WithoutArguments (g : Graph) (id : TypeId) : Prop :=
  ∀ definition arguments, g.get id = .ok (.instantiation definition arguments) → arguments = []

section Nothing

variable {generics : GenericStyle} {id : TypeId}

/-- Without bindings own members are added as they are. -/
theorem addOwnMembers_keeps (owner : TypeId) (seen : List String) (own inherited : List Member)
    (g : Graph) :
    Outcome (fun r => r.2 = g) (fun _ => True)
      ((addOwnMembers owner [] seen own inherited).run g) := by
  induction own generalizing seen inherited with
  | nil => exact rfl
  | cons m own ih =>
    rw [addOwnMembers]
    split
    · trivial
    · exact ih _ _

/-- A record that has no arguments has no bindings, and it is one of the model. -/
theorem baseRecord_keeps (hid : WithoutArguments (.ofModel a) id) :
    Outcome (fun r => r.2 = .ofModel a ∧ r.1.2 = [] ∧ ∃ i, a.get i = .ok (.complex r.1.1))
      (fun _ => True) ((baseRecord [] id).run (.ofModel a)) := by
  rw [baseRecord]
  simp only [StateT.run_bind, StateT.run_get, pure_bind]
  cases hget : (Graph.ofModel a).get id with
  | error e => trivial
  | ok d =>
    change Outcome _ _ (StateT.run _ (Graph.ofModel a))
    cases d with
    | complex c =>
      refine ⟨rfl, rfl, id, ?_⟩
      exact (Graph.ofModel_tame a).get_model hget rfl
    | instantiation definition arguments =>
      obtain rfl := hid definition arguments hget
      have hdefinition : Outcome (fun c => a.get definition = .ok (.complex c) ∧
          c.typeParams = []) (fun _ => True) ((Graph.ofModel a).definition definition 0) := by
        cases hc : (Graph.ofModel a).definition definition 0 with
        | error e => trivial
        | ok c =>
          obtain ⟨hget, hlength⟩ := Graph.get_of_definition hc
          exact ⟨hget, List.length_eq_zero_iff.mp hlength⟩
      refine hdefinition.lift_bind fun c hc => ?_
      obtain ⟨hget, hparameters⟩ := hc
      rw [hparameters]
      exact ⟨rfl, rfl, definition, hget⟩
    | _ => trivial

/-- The members of a type without arguments are gathered in the model itself. -/
theorem MakesNothing.membersWithin (h : MakesNothing generics a) (depth : Nat)
    (below : List TypeId) (hid : WithoutArguments (.ofModel a) id) :
    Outcome (fun r => r.2 = .ofModel a) (fun _ => True)
      ((membersWithin depth below [] id).run (.ofModel a)) := by
  induction depth generalizing below id with
  | zero => trivial
  | succ depth ih =>
    rw [Walk.membersWithin]
    split
    · trivial
    refine (baseRecord_keeps hid).run_bind fun r g hr => ?_
    obtain ⟨c, bindings⟩ := r
    obtain ⟨rfl, rfl, i, hc⟩ := hr
    dsimp only at hc ⊢
    cases hbase : c.base with
    | none => exact addOwnMembers_keeps id [] c.members [] _
    | some base =>
      have hbase : WithoutArguments (.ofModel a) base := by
        intro definition arguments hget
        rcases Graph.get_cases hget with hmodel | ⟨j, -, hmade⟩
        · exact h.bases i c base definition arguments hc hbase hmodel
        · simp [Graph.ofModel] at hmade
      refine (ih _ hbase).run_bind fun inherited g hg => ?_
      dsimp only at hg
      rw [hg]
      exact addOwnMembers_keeps id [] c.members inherited _

/-- No types have been made, and none will be for what waits. -/
structure Unmade (a : Arena) (s : State) : Prop where
  /-- The types are those of the model. -/
  graph : s.graph = .ofModel a
  /-- What waits has no arguments. -/
  queue : ∀ waiting ∈ s.progress.queue, WithoutArguments (.ofModel a) waiting.source

/-- Progress after which what waits is old or has no arguments. -/
abbrev GainsPlain (g : Graph) : Progress → Progress → Prop :=
  Gains fun waiting => WithoutArguments g waiting.source

/-- What a conversion queues has no arguments. -/
theorem MakesNothing.convert (h : MakesNothing generics a) {ctx : Context}
    (hgraph : ctx.graph = .ofModel a) (hstyle : ctx.options.generics = generics) (id : TypeId) :
    Leads (GainsPlain ctx.graph) (convert ctx id) := by
  refine convertWithin_leads_of (fun id d hget _ hpreserved => unitFor_leads fun _ => ?_)
    (fun _ definition _ c _ _ hc _ => unitFor_leads fun _ => ?_) _ [] id
  · intro definition arguments hinstantiation
    cases hget.symm.trans hinstantiation
    rw [hgraph] at hinstantiation
    rcases h.others with hpreserve | hothers
    · exact absurd (hstyle.trans hpreserve) (hpreserved definition arguments rfl)
    · rcases Graph.get_cases hinstantiation with hmodel | ⟨j, -, hmade⟩
      · exact hothers id definition arguments hmodel
      · simp [Graph.ofModel] at hmade
  · intro other arguments hinstantiation
    cases hinstantiation.symm.trans (Graph.get_model hc)

/-- Meeting roots makes nothing. -/
theorem MakesNothing.meetRoot (h : MakesNothing setup.options.generics a) (hs : Unmade a s)
    (id : TypeId) : Outcome (fun s' => Unmade a s') (fun _ => True) (meetRoot setup s id) := by
  have hmeet {α : Type} {x : Discovery α} (hx : Leads (GainsPlain s.graph) x) :
      Outcome (fun s' => Unmade a s') (fun _ => True) (do
        let (_, progress) ← x.run s.progress
        pure { s with progress := progress }) := by
    refine (hx s.progress).bind fun r hr => ⟨hs.graph, fun waiting hwaiting => ?_⟩
    rcases hr.queue waiting hwaiting with hold | hnew
    · exact hs.queue waiting hold
    · exact hs.graph ▸ hnew
  unfold Walk.meetRoot
  cases hget : s.graph.get id with
  | error e => trivial
  | ok d =>
    rw [ok_bind]
    cases setup.hook d with
    | some e => exact hs
    | none =>
      have hnamed (hplain : WithoutArguments s.graph id) :
          Leads (GainsPlain s.graph) (unitFor s.graph id) := unitFor_leads fun _ => hplain
      cases d with
      | complex c => exact hmeet (hnamed fun _ _ h => by cases hget.symm.trans h)
      | enum e => exact hmeet (hnamed fun _ _ h => by cases hget.symm.trans h)
      | _ => exact hmeet (h.convert hs.graph rfl id)

/-- Building units makes nothing. -/
theorem MakesNothing.step (h : MakesNothing setup.options.generics a) (hs : Unmade a s) :
    Outcome (fun s' => Unmade a s') (fun _ => True) (step setup s) := by
  obtain ⟨g, units, queue⟩ := s
  obtain ⟨rfl, hqueue⟩ := hs
  cases queue with
  | nil => exact ⟨rfl, hqueue⟩
  | cons waiting queue =>
    have hsource := hqueue waiting List.mem_cons_self
    have hrest : Unmade a ⟨.ofModel a, ⟨units, queue⟩⟩ :=
      ⟨rfl, fun other hother => hqueue other (List.mem_cons_of_mem _ hother)⟩
    have hobject (scope : List String) (unit : String) :
        Outcome (fun r => Unmade a r.2) (fun _ => True)
          (objectType setup ⟨.ofModel a, ⟨units, queue⟩⟩ scope unit waiting.source) := by
      refine (h.membersWithin _ [] hsource).bind fun r hr => ?_
      obtain ⟨members, g⟩ := r
      dsimp only at hr
      subst hr
      have hconvert : Leads (GainsPlain (.ofModel a)) (convertMembers
          ⟨.ofModel a, setup.options, setup.hook, scope⟩ unit [] members) :=
        convertMembers_leads_of (fun id => h.convert rfl rfl id) unit [] members
      refine (hconvert ⟨units, queue⟩).bind fun r hr => ⟨rfl, fun other hother => ?_⟩
      rcases hr.queue other hother with hold | hnew
      · exact hrest.queue other hold
      · exact hnew
    have hbuild (name : String) : Outcome (fun r => Unmade a r.2) (fun _ => True)
        (buildDeclaration setup ⟨.ofModel a, ⟨units, queue⟩⟩ name waiting.source) := by
      refine (Outcome.any _).bind fun d _ => ?_
      cases d with
      | enum e => exact hrest
      | complex c => exact (hobject c.typeParams name).bind fun _ hr => hr
      | instantiation definition arguments => exact (hobject [] name).bind fun _ hr => hr
      | _ => trivial
    rw [Walk.step]
    refine (hbuild _).bind fun r hr => ?_
    exact (Outcome.any _).bind fun _ _ => ⟨hr.graph, hr.queue⟩

/-- In a walk that makes nothing every state is one of the model. -/
theorem MakesNothing.unmade {s₀ : State} {n : Nat} (h : MakesNothing setup.options.generics a)
    (hmeet : roots.foldlM (Walk.meetRoot setup) (State.start a) = .ok s₀)
    (hrun : Run setup n s₀ s) : Unmade a s := by
  have hstart : Unmade a (State.start a) := ⟨rfl, by simp [State.start]⟩
  have hmet := (Outcome.foldlM (fun _ id hs => h.meetRoot hs id) hstart).result hmeet
  induction hrun with
  | start => exact hmet
  | build _ _ hstep ih => exact (h.step (ih hmeet hmet)).result hstep

/-- The members of the next unit are gathered in the model itself. -/
theorem MakesNothing.size_eq (h : MakesNothing setup.options.generics a) {waiting : Pending}
    (hnext : NextUnit setup a roots s waiting) {members : List Member}
    (hmembers : (membersOf waiting.source).run s.graph = .ok (members, g)) : g.size = a.size := by
  obtain ⟨s₀, n, hmeet, hrun⟩ := hnext.reached
  obtain ⟨hgraph, hqueue⟩ := h.unmade hmeet hrun
  rw [hgraph] at hmembers
  obtain rfl : g = .ofModel a :=
    (h.membersWithin _ [] (hqueue waiting (List.mem_of_head? hnext.first))).result hmembers
  rfl

end Nothing

/-- In whatever model, whatever the options, the hook and the roots, the number of a missing type is
reported where it is the number of no type that has been made. If a walk succeeds, each unit has
been built in a state of the walk, and if it is a unit of a record, the types of all own members of
the record are below the number of types that are there when its members have been gathered. If the
members of the next unit cannot be gathered, the walk fails with their error, and if they can and
the number of an own member is not below the number of types then, the walk fails with the error
that this type does not exist, unless a member before it is an error. Where a walk over the model
makes no types, the types that are there then are those of the model. -/
theorem walk_dangling (setup : Setup) (a : Arena) (roots : List TypeId) :
    (∀ units, walk setup .empty a roots = .ok units → ∀ unit ∈ units,
      ∃ s₀ s source type, roots.foldlM (meetRoot setup) (.start a) = .ok s₀ ∧
        Built setup s₀ unit s source type ∧ NextUnit setup a roots s ⟨unit.id, source⟩ ∧
        ∀ c, s.graph.record? source = some c →
          ∃ members g, (membersOf source).run s.graph = .ok (members, g) ∧
            ∀ m ∈ c.members, (m.type : Nat) < g.size) ∧
    (∀ s waiting c, NextUnit setup a roots s waiting →
      s.graph.record? waiting.source = some c → ∀ m ∈ c.members,
        (∀ e, (membersOf waiting.source).run s.graph = .error e →
          walk setup .empty a roots = .error e) ∧
        ∀ members g, (membersOf waiting.source).run s.graph = .ok (members, g) →
          g.size ≤ (m.type : Nat) →
          ∃ before m' after, members = before ++ m' :: after ∧ m'.name = m.name ∧
            m'.type = m.type ∧ walk setup .empty a roots = .error (errorOr
              (nextFields setup s waiting g before) (.model (.outOfRange m.type)))) ∧
    (MakesNothing setup.options.generics a → ∀ s waiting members g,
      NextUnit setup a roots s waiting →
      (membersOf waiting.source).run s.graph = .ok (members, g) → g.size = a.size) := by
  refine ⟨fun units hwalk unit hunit => ?_, fun s waiting c hnext hrecord m hm =>
    ⟨fun e hmembers => hnext.walk_eq_error_of_membersOf hrecord hmembers,
      fun members g hmembers hle => hnext.walk_eq_error_of_size_le hrecord hmembers hm hle⟩,
    fun h s waiting members g hnext hmembers => h.size_eq hnext hmembers⟩
  obtain ⟨last, hexplore, hunits⟩ := bind_eq_ok hwalk
  obtain ⟨s₀, hmeet, hbuild⟩ := bind_eq_ok hexplore
  obtain ⟨_, hlast⟩ := exists_run_of_buildAll hbuild
  obtain ⟨s, source, type, hbuilt⟩ :=
    (hlast.traced (traced_of_meetRoots hmeet)).exists_built hunits hunit
  obtain ⟨n, hrun⟩ := hbuilt.run
  have hnext : NextUnit setup a roots s ⟨unit.id, source⟩ := ⟨⟨s₀, n, hmeet, hrun⟩, hbuilt.waiting⟩
  obtain ⟨s', hstep, -⟩ := hbuilt.step
  exact ⟨s₀, s, source, type, hmeet, hbuilt, hnext, fun c hrecord => hnext.lt_size hrecord hstep⟩

/-! ### A number that is taken -/

/-- A generic record with a list, a record that uses it, and a record with a member whose type is
numbered `id`. There are seven types. -/
def boxesAndBad (id : TypeId) : Arena :=
  ⟨#[some (.primitive .integer), some (.parameter "T"), some (.array 1),
    some (.complex ⟨"Box", none, ["T"], none, [⟨"value", 2, false, false, none⟩]⟩),
    some (.instantiation 3 [0]),
    some (.complex ⟨"Holder", none, [], none,
      [⟨"box", 4, false, false, none⟩, ⟨"bad", 6, false, false, none⟩]⟩),
    some (.complex ⟨"Bad", none, [], none, [⟨"x", id, false, false, none⟩]⟩)]⟩

/-- The record with the missing type is an error where it is built first. -/
theorem walk_dangling_bad :
    NextUnit ⟨{}, fun _ => none⟩ (boxesAndBad 7) [6]
        ⟨.ofModel (boxesAndBad 7), ⟨⟨#[⟨"Bad", ⟨"Bad", none, []⟩, none⟩]⟩, [⟨0, 6⟩]⟩⟩ ⟨0, 6⟩ ∧
      walk ⟨{}, fun _ => none⟩ .empty (boxesAndBad 7) [6] = .error (.model (.outOfRange 7)) := by
  have hnext : NextUnit ⟨{}, fun _ => none⟩ (boxesAndBad 7) [6]
      ⟨.ofModel (boxesAndBad 7), ⟨⟨#[⟨"Bad", ⟨"Bad", none, []⟩, none⟩]⟩, [⟨0, 6⟩]⟩⟩ ⟨0, 6⟩ :=
    ⟨⟨_, 0, by with_unfolding_all rfl, .start _⟩, rfl⟩
  obtain ⟨-, herror⟩ := (walk_dangling ⟨{}, fun _ => none⟩ (boxesAndBad 7) [6]).2.1 _ _ _ hnext rfl
    ⟨"x", 7, false, false, none⟩ List.mem_cons_self
  obtain ⟨before, m', after, hmembers, -, -, hwalk⟩ :=
    herror [⟨"x", 7, false, false, none⟩] (.ofModel (boxesAndBad 7)) rfl (by decide)
  -- There is no member before the only one.
  obtain ⟨rfl, -⟩ | ⟨_, rfl, hnil⟩ := List.cons_eq_append_iff.mp hmembers
  · exact ⟨hnext, hwalk⟩
  · simp at hnil

/-- Behind the record with the list the same number is that of the list of integers, which has been
made by then. So the walk succeeds, and the missing type becomes this list. -/
theorem missing_type_taken :
    (boxesAndBad 7).size = 7 ∧
      (walk ⟨{}, fun _ => none⟩ .empty (boxesAndBad 7) [5]).map
          (·.map fun unit => (unit.header.name, unit.body.declaration.toText default)) =
        .ok [("Holder", "export type Holder = {
    box: BoxOfInteger;
    bad: Bad;
};
"),
          ("BoxOfInteger", "export type BoxOfInteger = {
    value: number[];
};
"),
          ("Bad", "export type Bad = {
    x: number[];
};
")] := by
  exact ⟨rfl, by decide +kernel⟩

end Declgen.Walk
