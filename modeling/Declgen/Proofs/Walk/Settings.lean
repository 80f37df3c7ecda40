import Declgen.Proofs.TypeScript.Nodes
import Declgen.Proofs.Walk.Bodies
import Declgen.Proofs.Walk.Prepared

/-!
# Settings that types do not depend on

The linter, the layout and the indentation are not asked about while a model is walked, and what
enumerations become is asked about only when an enumeration is written out. The declaration of an
enumeration refers to nothing either way. So two walks whose setups differ in these four only go
together, from the first root to the last unit and also in their errors, and nothing but the
declarations of enumerations tells their units apart.
-/

namespace Declgen.Walk

open Model TypeScript Declgen.Units

/-- Two setups agree on everything that types are converted by. They may differ in the linter, in
what enumerations become, in the layout and in the indentation. -/
structure Setup.ConvertsAlike (setup setup' : Setup) : Prop where
  /-- Generic records become the same. -/
  generics : setup'.options.generics = setup.options.generics
  /-- Fields are named in the same way. -/
  fields : setup'.options.fields = setup.options.fields
  /-- The hook is the same. -/
  hook : setup'.hook = setup.hook

variable {setup setup' : Setup} {registry : Registry} {a : Arena} {roots : List TypeId}

/-! ### Conversions -/

/-- A conversion depends on the options only by what generic records become. -/
theorem convertWithin_congr (h : setup.ConvertsAlike setup') (g : Graph) (scope : List String)
    (depth : Nat) : convertWithin ⟨g, setup'.options, setup'.hook, scope⟩ depth =
      convertWithin ⟨g, setup.options, setup.hook, scope⟩ depth := by
  rw [h.hook]
  induction depth with
  | zero => rfl
  | succ depth ih =>
    funext within id
    simp only [convertWithin, ih, h.generics]

/-- So do the fields of members, and by how fields are named. -/
theorem convertMembers_congr (h : setup.ConvertsAlike setup') (g : Graph) (scope : List String)
    (unit : String) (taken : List (String × String)) (members : List Member) :
    convertMembers ⟨g, setup'.options, setup'.hook, scope⟩ unit taken members =
      convertMembers ⟨g, setup.options, setup.hook, scope⟩ unit taken members := by
  induction members generalizing taken with
  | nil => rfl
  | cons m members ih =>
    simp only [convertMembers, convertMember, convert, convertWithin_congr h, h.fields, ih]

/-! ### Enumerations -/

/-- As a union, an enumeration lists its values in their order, without later repetitions. -/
theorem enumDeclaration_union (name : String) (members : List EnumMember) :
    enumDeclaration .union name members = .alias name [] (Expr.ofAlternatives
      (((members.map fun m => m.value).eraseDups).map .literal)) := by
  have halternatives : (members.map fun m => Expr.literal m.value).flatMap Expr.alternatives =
      (members.map fun m => m.value).map .literal := by
    induction members with
    | nil => rfl
    | cons m members ih => rw [List.map_cons, List.flatMap_cons, ih]; rfl
  rw [enumDeclaration, Expr.unionOf_eq, halternatives,
    eraseDups_map fun _ _ _ _ heq => Expr.literal.inj heq]

/-- The declaration of an enumeration refers to nothing. -/
theorem references_enumDeclaration (style : EnumStyle) (name : String)
    (members : List EnumMember) : (enumDeclaration style name members).references = [] := by
  cases style with
  | declaration => rfl
  | union =>
    refine List.eq_nil_iff_forall_not_mem.mpr fun unit hunit => ?_
    obtain ⟨node, hnode, htarget⟩ := Expr.mem_references_iff.mp hunit
    rcases Expr.mem_nodes_unionOf hnode with ⟨parts, rfl⟩ | rfl | ⟨member, hmember, hnode⟩
    · cases htarget
    · cases htarget
    · obtain ⟨m, -, rfl⟩ := List.mem_map.mp hmember
      rw [List.mem_singleton.mp hnode] at htarget
      cases htarget

/-- The two declarations of a type: those of an enumeration may differ in their styles, all others
are the same. -/
inductive Counterparts (style style' : EnumStyle) (name : String) :
    Descriptor → Declaration → Declaration → Prop
  /-- An enumeration, as both styles have it. -/
  | enum (e : EnumType) : Counterparts style style' name (.enum e)
      (enumDeclaration style name e.members) (enumDeclaration style' name e.members)
  /-- Any other type. -/
  | other {type : Descriptor} (h : ∀ e, type ≠ .enum e) (declaration : Declaration) :
    Counterparts style style' name type declaration declaration

/-- The two declarations refer to the same units. -/
theorem Counterparts.references {style style' : EnumStyle} {name : String} {type : Descriptor}
    {declaration declaration' : Declaration}
    (h : Counterparts style style' name type declaration declaration') :
    declaration.references = declaration'.references := by
  cases h with
  | enum e => rw [references_enumDeclaration, references_enumDeclaration]
  | other h declaration => rfl

/-! ### What a unit is built from -/

/-- In a walk that starts with a registry a unit is built from a type: in some state it is the unit
that has waited longest, and this is the type that it waits for. -/
def BuiltFrom (setup : Setup) (registry : Registry) (a : Arena) (roots : List TypeId)
    (unit : UnitId) (type : Descriptor) : Prop :=
  ∃ s₀ n s source, roots.foldlM (meetRoot setup) (.startWith registry a) = .ok s₀ ∧
    Run setup n s₀ s ∧ s.progress.queue.head? = some ⟨unit, source⟩ ∧
    s.graph.get source = .ok type

/-- A run has no choice. -/
theorem Run.unique {n : Nat} {s t t' : State} (h : Run setup n s t) (h' : Run setup n s t') :
    t = t' := by
  induction h generalizing t' with
  | start =>
    cases h'
    rfl
  | build before hqueue hstep ih =>
    obtain _ | ⟨before', hqueue', hstep'⟩ := h'
    obtain rfl := ih before'
    exact Except.ok.inj (hstep.symm.trans hstep')

/-- What holds when the roots have been met. -/
theorem since_of_meetRoots {s₀ : State}
    (h : roots.foldlM (meetRoot setup) (.startWith registry a) = .ok s₀) :
    s₀.Since registry a registry.size :=
  (Outcome.foldlM (fun _ id hs => hs.meetRoot id) (startWith_since registry a)).result h

/-- The unit that has waited longest is the next one after those that have been built. -/
theorem State.Since.head_eq {first : Nat} {s : State} (h : s.Since registry a first)
    {unit : UnitId} {source : TypeId} (hhead : s.progress.queue.head? = some ⟨unit, source⟩) :
    unit = first := by
  obtain ⟨g, units, queue⟩ := s
  obtain ⟨queue, rfl⟩ := List.head?_eq_some_iff.mp hhead
  exact h.progress.toOrderly.unit_eq.1

/-- No prepared unit is built. -/
theorem BuiltFrom.size_le {unit : UnitId} {type : Descriptor}
    (h : BuiltFrom setup registry a roots unit type) : registry.size ≤ unit := by
  obtain ⟨s₀, n, s, source, hmeet, hrun, hhead, -⟩ := h
  rw [(hrun.since (since_of_meetRoots hmeet)).head_eq hhead]
  exact Nat.le_add_right _ _

/-- A unit is built from one type only. -/
theorem BuiltFrom.unique {unit : UnitId} {type type' : Descriptor}
    (h : BuiltFrom setup registry a roots unit type)
    (h' : BuiltFrom setup registry a roots unit type') : type = type' := by
  obtain ⟨s₀, n, s, source, hmeet, hrun, hhead, hget⟩ := h
  obtain ⟨s₀', n', s', source', hmeet', hrun', hhead', hget'⟩ := h'
  cases hmeet.symm.trans hmeet'
  have hstart := since_of_meetRoots hmeet
  -- The number of the unit tells how many builds have come before.
  have hn : (registry.size + n : Nat) = registry.size + n' :=
    ((hrun.since hstart).head_eq hhead).symm.trans ((hrun'.since hstart).head_eq hhead')
  obtain rfl := Nat.add_left_cancel hn
  obtain rfl := hrun.unique hrun'
  cases hhead.symm.trans hhead'
  exact Except.ok.inj (hget.symm.trans hget')

/-- The bodies of a unit in two walks: a prepared unit has one body, and the bodies of all others
have been built from one type. -/
inductive BodiesAlike (setup setup' : Setup) (registry : Registry) (a : Arena)
    (roots : List TypeId) (unit : UnitId) (name : String) : Body → Body → Prop
  /-- The unit has been there before. -/
  | prepared (h : unit < registry.size) (body : Body) :
    BodiesAlike setup setup' registry a roots unit name body body
  /-- The unit has been built. -/
  | built {type : Descriptor} {declaration declaration' : Declaration} (references : List UnitId)
      (hbuilt : BuiltFrom setup registry a roots unit type)
      (h : Counterparts setup.options.enums setup'.options.enums name type declaration
        declaration') :
    BodiesAlike setup setup' registry a roots unit name ⟨declaration, references⟩
      ⟨declaration', references⟩

/-! ### States side by side -/

section States

variable {bodies : BodyRelation} {s s' : State}

/-- Two walks are in the same state but for the bodies of units. -/
structure StatesAlike (bodies : BodyRelation) (s s' : State) : Prop where
  /-- The types are the same. -/
  graph : s.graph = s'.graph
  /-- So is the progress. -/
  progress : ProgressAlike bodies s.progress s'.progress

/-- Meeting a root goes together in both walks. -/
theorem meetRoot_together (h : setup.ConvertsAlike setup') (hs : StatesAlike bodies s s')
    (id : TypeId) :
    Together (StatesAlike bodies) (meetRoot setup s id) (meetRoot setup' s' id) := by
  obtain ⟨g, p⟩ := s
  obtain ⟨g', p'⟩ := s'
  obtain rfl : g = g' := hs.graph
  have hmeet {α : Type} {x : Discovery α} (hx : Blind (ProgressAlike bodies) x) :
      Together (StatesAlike bodies)
        (do
          let (_, progress) ← x.run p
          pure (State.mk g progress))
        (do
          let (_, progress) ← x.run p'
          pure (State.mk g progress)) :=
    (hx p p' hs.progress).bind fun _ _ _ _ hr => .pure ⟨rfl, hr.2⟩
  have hconvert : convert ⟨g, setup'.options, setup'.hook, []⟩ id =
      convert ⟨g, setup.options, setup.hook, []⟩ id :=
    congrFun (congrFun (convertWithin_congr h g [] _) []) id
  unfold meetRoot
  refine (Together.self fun d _ => rfl).bind fun d _ _ _ hd => ?_
  subst hd
  rw [h.hook] at hconvert ⊢
  cases setup.hook d with
  | some e => exact .pure hs
  | none =>
    dsimp only
    rw [hconvert]
    split
    · exact hmeet (unitFor_blind g id)
    · exact hmeet (unitFor_blind g id)
    · exact hmeet (blind_stepwise.convertWithin _ _ [] id)

/-- So does writing an object type. -/
theorem objectType_together (h : setup.ConvertsAlike setup') (hs : StatesAlike bodies s s')
    (scope : List String) (unit : String) (source : TypeId) :
    Together (fun r r' => r.1 = r'.1 ∧ StatesAlike bodies r.2 r'.2)
      (objectType setup s scope unit source) (objectType setup' s' scope unit source) := by
  obtain ⟨g, p⟩ := s
  obtain ⟨g', p'⟩ := s'
  obtain ⟨hgraph, hp⟩ := hs
  dsimp only at hgraph hp
  subst hgraph
  refine (Together.self fun r _ => rfl).bind fun r _ _ _ hr => ?_
  subst hr
  dsimp only
  rw [convertMembers_congr h]
  refine (blind_stepwise.convertMembers _ unit [] r.1 p p' hp).bind fun _ _ _ _ hr => ?_
  exact .pure ⟨congrArg Expr.object hr.1, rfl, hr.2⟩

/-- What is built from a type in both walks are counterparts. -/
theorem buildDeclaration_together (h : setup.ConvertsAlike setup') (hs : StatesAlike bodies s s')
    (name : String) (source : TypeId) :
    Together (fun r r' => (∃ type, s.graph.get source = .ok type ∧
        Counterparts setup.options.enums setup'.options.enums name type r.1 r'.1) ∧
        StatesAlike bodies r.2 r'.2)
      (buildDeclaration setup s name source) (buildDeclaration setup' s' name source) := by
  have hobject (scope : List String) := objectType_together h hs scope name source
  rw [buildDeclaration, buildDeclaration, ← hs.graph]
  cases hget : s.graph.get source with
  | error e => exact .error e
  | ok type =>
    rw [ok_bind, ok_bind]
    cases type with
    | enum e => exact .pure ⟨⟨_, rfl, .enum e⟩, hs⟩
    | complex c =>
      refine (hobject c.typeParams).bind fun r r' _ _ hr => .pure ⟨⟨_, rfl, ?_⟩, hr.2⟩
      rw [hr.1]
      exact .other (by simp) _
    | instantiation definition arguments =>
      refine (hobject []).bind fun r r' _ _ hr => .pure ⟨⟨_, rfl, ?_⟩, hr.2⟩
      rw [hr.1]
      exact .other (by simp) _
    | _ => exact .error _

end States

/-! ### Runs side by side -/

/-- The first walk has met its roots and built units, and the second one is in the same state but
for the bodies of units. -/
structure Abeam (setup setup' : Setup) (registry : Registry) (a : Arena) (roots : List TypeId)
    (s s' : State) : Prop where
  /-- The first walk has come to its state. -/
  come : ∃ s₀ n, roots.foldlM (meetRoot setup) (.startWith registry a) = .ok s₀ ∧
    Run setup n s₀ s
  /-- The states are the same. -/
  states : StatesAlike (BodiesAlike setup setup' registry a roots) s s'

section Runs

variable {s s' : State}

/-- Both walks build the same unit next, from the same type. -/
theorem step_together (h : setup.ConvertsAlike setup')
    (hs : Abeam setup setup' registry a roots s s') :
    Together (Abeam setup setup' registry a roots) (step setup s) (step setup' s') := by
  obtain ⟨⟨s₀, n, hmeet, hrun⟩, hgraph, hprogress⟩ := hs
  obtain ⟨g, units, queue⟩ := s
  obtain ⟨g', units', queue'⟩ := s'
  obtain rfl : queue = queue' := hprogress.queue
  obtain rfl : g = g' := hgraph
  cases queue with
  | nil => exact .pure ⟨⟨s₀, n, hmeet, hrun⟩, rfl, hprogress⟩
  | cons waiting queue =>
    have hnext : StatesAlike (BodiesAlike setup setup' registry a roots) ⟨g, ⟨units, queue⟩⟩
        ⟨g, ⟨units', queue⟩⟩ := ⟨rfl, rfl, hprogress.slots⟩
    have hname : unitName units waiting.unit = unitName units' waiting.unit :=
      hprogress.unitName waiting.unit
    obtain ⟨hunit, hlt, hsince⟩ := (hrun.since (since_of_meetRoots hmeet)).take
    rw [step, step]
    dsimp only
    rw [← hname]
    refine (buildDeclaration_together h hnext _ waiting.source).bind fun r r' hr _ hrel => ?_
    obtain ⟨declaration, t⟩ := r
    obtain ⟨declaration', t'⟩ := r'
    obtain ⟨⟨type, hget, hcounterparts⟩, ht⟩ := hrel
    have hbuilt : BuiltFrom setup registry a roots waiting.unit type :=
      ⟨s₀, n, _, waiting.source, hmeet, hrun, rfl, hget⟩
    have hkept : unitName t.progress.units waiting.unit = unitName units waiting.unit :=
      unitName_extends ((hsince.buildDeclaration _ _).result hr).2.1 (hunit ▸ hlt)
    have hcomplete := ht.progress.complete
      (hkept.symm ▸ BodiesAlike.built (declaration.references.filter (· != waiting.unit)) hbuilt
        hcounterparts)
    rw [← hcounterparts.references]
    refine hcomplete.bind fun units₁ units₁' hunits _ hprogress => ?_
    refine .pure ⟨⟨s₀, n + 1, hmeet, hrun.build (by simp) ?_⟩, ht.graph, hprogress⟩
    rw [step]
    dsimp only
    rw [hr, ok_bind]
    dsimp only
    rw [hunits]
    rfl

/-- So do batches of units. -/
theorem buildUpTo_together (h : setup.ConvertsAlike setup') (k : Nat)
    (hs : Abeam setup setup' registry a roots s s') :
    Together (Abeam setup setup' registry a roots) (buildUpTo setup k s)
      (buildUpTo setup' k s') := by
  induction k generalizing s s' with
  | zero => exact step_together h hs
  | succ k ih =>
    rw [buildUpTo, buildUpTo]
    refine (ih hs).bind fun t t' _ _ ht => ?_
    rw [ht.states.progress.queue]
    split
    · exact .pure ht
    · exact ih ht

/-- Any number of batches can be built side by side. -/
theorem buildAll_together (h : setup.ConvertsAlike setup') (batches k : Nat)
    (hs : Abeam setup setup' registry a roots s s') :
    Together (Abeam setup setup' registry a roots) (buildAll setup batches k s)
      (buildAll setup' batches k s') := by
  induction batches generalizing k s s' with
  | zero => exact .pure hs
  | succ batches ih =>
    rw [buildAll, buildAll]
    refine (buildUpTo_together h k hs).bind fun t t' _ _ ht => ?_
    rw [ht.states.progress.queue]
    split
    · exact .pure ht
    · exact ih (k + 1) ht

/-- The roots can be met side by side. -/
theorem meetRoots_together (h : setup.ConvertsAlike setup') (registry : Registry) (a : Arena)
    (roots : List TypeId) :
    Together (Abeam setup setup' registry a roots)
      (roots.foldlM (meetRoot setup) (.startWith registry a))
      (roots.foldlM (meetRoot setup') (.startWith registry a)) := by
  have hstart : StatesAlike (BodiesAlike setup setup' registry a roots) (.startWith registry a)
      (.startWith registry a) := by
    refine ⟨rfl, rfl, fun unit => ?_⟩
    change Option.Rel _ registry.slots[unit]? registry.slots[unit]?
    cases hslot : registry.slots[unit]? with
    | none => exact .none
    | some slot =>
      refine .some ⟨rfl, rfl, ?_⟩
      cases slot.body with
      | none => exact .none
      | some body => exact .some (.prepared (Array.getElem?_eq_some_iff.mp hslot).1 body)
  have hroots : Together (StatesAlike (BodiesAlike setup setup' registry a roots))
      (roots.foldlM (meetRoot setup) (.startWith registry a))
      (roots.foldlM (meetRoot setup') (.startWith registry a)) :=
    Together.foldlM (fun id _ _ hs => meetRoot_together h hs id) hstart
  cases hmeet : roots.foldlM (meetRoot setup) (.startWith registry a) with
  | error e =>
    rw [(hroots.error_iff e).mp hmeet]
    exact .error e
  | ok s₀ =>
    obtain ⟨s₀', hmeet', hs₀⟩ := hroots.exists_ok hmeet
    rw [hmeet']
    exact .pure ⟨⟨s₀, 0, hmeet, .start s₀⟩, hs₀⟩

/-- A run of the first walk is accompanied by a run of the second one. -/
theorem Run.together (h : setup.ConvertsAlike setup') {n : Nat} {s₀ s₀' : State}
    (hrun : Run setup n s₀ s) (hs₀ : Abeam setup setup' registry a roots s₀ s₀') :
    ∃ s', Run setup' n s₀' s' ∧ Abeam setup setup' registry a roots s s' :=
  hrun.simulate (fun _ => Abeam setup setup' registry a roots) 0 (fun _ _ _ hs hqueue =>
    ⟨hs.states.progress.queue ▸ hqueue, fun _ hstep => (step_together h hs).exists_ok hstep⟩) hs₀

end Runs

/-- Agreeing on conversions is symmetric. -/
theorem Setup.ConvertsAlike.symm (h : setup.ConvertsAlike setup') : setup'.ConvertsAlike setup :=
  ⟨h.generics.symm, h.fields.symm, h.hook.symm⟩

/-- Both walks build a unit from the same type. -/
theorem BuiltFrom.together (h : setup.ConvertsAlike setup') {unit : UnitId} {type : Descriptor}
    (hbuilt : BuiltFrom setup registry a roots unit type) :
    BuiltFrom setup' registry a roots unit type := by
  obtain ⟨s₀, n, s, source, hmeet, hrun, hhead, hget⟩ := hbuilt
  obtain ⟨s₀', hmeet', hs₀⟩ := (meetRoots_together h registry a roots).exists_ok hmeet
  obtain ⟨s', hrun', hs⟩ := hrun.together h hs₀
  exact ⟨s₀', n, s', source, hmeet', hrun', hs.states.progress.queue ▸ hhead,
    hs.states.graph ▸ hget⟩

/-- The two walks have the same error, or units that are the same but for their bodies. -/
theorem walk_together (h : setup.ConvertsAlike setup') (registry : Registry) (a : Arena)
    (roots : List TypeId) :
    Together (List.Forall₂ (UnitsAlike (BodiesAlike setup setup' registry a roots)))
      (walk setup registry a roots) (walk setup' registry a roots) := by
  have hexplore : Together (Abeam setup setup' registry a roots)
      (explore setup registry a roots) (explore setup' registry a roots) := by
    rw [explore, explore]
    -- The number of batches is far too large to be computed.
    generalize batchBound a = batches
    exact (meetRoots_together h registry a roots).bind fun s s' _ _ hs =>
      buildAll_together h batches 0 hs
  exact hexplore.bind fun s s' _ _ hs => hs.states.progress.completed

/-- What the two walks tell about a unit. -/
theorem UnitsAlike.declarations {unit unit' : Completed}
    (h : UnitsAlike (BodiesAlike setup setup' registry a roots) unit unit') :
    unit.body.references = unit'.body.references ∧
      ((∀ e, ¬BuiltFrom setup registry a roots unit.id (.enum e)) →
        unit.body.declaration = unit'.body.declaration) ∧
      ∀ e, BuiltFrom setup registry a roots unit.id (.enum e) →
        unit.body.declaration =
            enumDeclaration setup.options.enums unit.header.name e.members ∧
          unit'.body.declaration =
            enumDeclaration setup'.options.enums unit.header.name e.members := by
  obtain ⟨id, key, header, body⟩ := unit
  obtain ⟨id', key', header', body'⟩ := unit'
  obtain ⟨-, -, -, hbody⟩ := h
  dsimp only at hbody ⊢
  cases hbody with
  | prepared hlt =>
    exact ⟨rfl, fun _ => rfl, fun e he => absurd he.size_le (Nat.not_le.mpr hlt)⟩
  | built references hbuilt hcounterparts =>
    refine ⟨rfl, fun hnot => ?_, fun e he => ?_⟩
    · cases hcounterparts with
      | enum e => exact absurd hbuilt (hnot e)
      | other => rfl
    · obtain rfl := hbuilt.unique he
      cases hcounterparts with
      | enum e => exact ⟨rfl, rfl⟩
      | other hother => exact absurd rfl (hother e)

/-- Whatever the model, the roots, the hook and the registry at the start: two walks whose setups
differ only in the linter, in what enumerations become, in the layout and in the indentation fail
with the same error or give the same units, in the same order, with the same references, and build
each unit from the same type. The declarations of a unit are the same, too, unless the unit was
built from an enumeration. Then each is the enumeration in its own style, and next to an
enumeration with members a union has their values in the same order, without later repetitions. -/
theorem walk_settings (h : setup.ConvertsAlike setup') (registry : Registry) (a : Arena)
    (roots : List TypeId) :
    (∀ e, walk setup registry a roots = .error e ↔ walk setup' registry a roots = .error e) ∧
    (∀ unit type, BuiltFrom setup registry a roots unit type ↔
      BuiltFrom setup' registry a roots unit type) ∧
    ∀ units, walk setup registry a roots = .ok units →
      ∃ units', walk setup' registry a roots = .ok units' ∧
        List.Forall₂ (fun unit unit' : Completed =>
          unit.id = unit'.id ∧ unit.key = unit'.key ∧ unit.header = unit'.header ∧
          unit.body.references = unit'.body.references ∧
          ((∀ e, ¬BuiltFrom setup registry a roots unit.id (.enum e)) →
            unit.body.declaration = unit'.body.declaration) ∧
          ∀ e, BuiltFrom setup registry a roots unit.id (.enum e) →
            (setup.options.enums = setup'.options.enums →
              unit.body.declaration = unit'.body.declaration) ∧
            (setup.options.enums = .declaration → setup'.options.enums = .union →
              unit.body.declaration = .enum unit.header.name e.members ∧
              unit'.body.declaration = .alias unit.header.name [] (Expr.ofAlternatives
                ((e.members.map fun m => m.value).eraseDups.map .literal)))) units units' := by
  have htogether := walk_together h registry a roots
  refine ⟨htogether.error_iff, fun unit type => ⟨.together h, .together h.symm⟩,
    fun units hwalk => ?_⟩
  obtain ⟨units', hwalk', hunits⟩ := htogether.exists_ok hwalk
  refine ⟨units', hwalk', hunits.imp fun unit unit' halike => ?_⟩
  obtain ⟨hreferences, hother, henum⟩ := halike.declarations
  refine ⟨halike.id, halike.key, halike.header, hreferences, hother, fun e he => ?_⟩
  obtain ⟨hdeclaration, hdeclaration'⟩ := henum e he
  refine ⟨fun hstyle => ?_, fun hstyle hstyle' => ⟨?_, ?_⟩⟩
  · rw [hdeclaration, hdeclaration', hstyle]
  · rw [hdeclaration, hstyle]
    rfl
  · rw [hdeclaration', hstyle', enumDeclaration_union]

/-! ### A color with two names -/

/-- Colors, of which two have the same value. -/
def colorType : EnumType :=
  ⟨"Color", none, [⟨"Red", .number 1⟩, ⟨"Crimson", .number 1⟩, ⟨"Blue", .number 2⟩]⟩

/-- A shirt and its color. -/
def shirtType : ComplexType := ⟨"Shirt", none, [], none, [⟨"color", 1, false, false, none⟩]⟩

/-- Both types. -/
def shirtModel : Arena := ⟨#[some (.complex shirtType), some (.enum colorType)]⟩

/-- The shirt stays the same, and the union of the colors drops the second name of red. -/
theorem walk_settings_shirt :
    ∃ shirt color shirt' color',
      walk ⟨{ enums := .declaration }, fun _ => none⟩ .empty shirtModel [0] =
        .ok [shirt, color] ∧
      walk ⟨{ linter := .tslint }, fun _ => none⟩ .empty shirtModel [0] =
        .ok [shirt', color'] ∧
      shirt.body.declaration = shirt'.body.declaration ∧
      color.body.references = color'.body.references ∧
      color.body.declaration = .enum "Color" colorType.members ∧
      color'.body.declaration =
        .alias "Color" [] (.union [.literal (.number 1), .literal (.number 2)]) := by
  have hwalk : walk ⟨{ enums := .declaration }, fun _ => none⟩ .empty shirtModel [0] =
      .ok [⟨0, "Shirt", ⟨"Shirt", none, []⟩, ⟨.alias "Shirt" []
          (.object [⟨"color", .reference 1 "Color", false, none⟩]), [1]⟩⟩,
        ⟨1, "Color", ⟨"Color", none, []⟩, ⟨.enum "Color" colorType.members, []⟩⟩] := by
    decide +kernel
  -- The shirt is built first and the color second.
  have hbuilds : (do
      let s₀ ← [0].foldlM (meetRoot ⟨{ enums := .declaration }, fun _ => none⟩)
        (State.startWith .empty shirtModel)
      let s ← step ⟨{ enums := .declaration }, fun _ => none⟩ s₀
      pure (s₀.progress.queue.head?.map fun waiting : Pending => (waiting.unit, waiting.source),
        s₀.graph.get 0,
        s.progress.queue.head?.map fun waiting : Pending => (waiting.unit, waiting.source),
        s.graph.get 1)) =
      .ok (some (0, 0), .ok (.complex shirtType), some (1, 1), .ok (.enum colorType)) := by
    decide +kernel
  obtain ⟨s₀, hmeet, hbuilds⟩ := bind_eq_ok hbuilds
  obtain ⟨s, hstep, hbuilds⟩ := bind_eq_ok hbuilds
  simp only [pure, Except.pure, Except.ok.injEq, Prod.mk.injEq] at hbuilds
  obtain ⟨hfirst, hshirt, hsecond, hcolor⟩ := hbuilds
  obtain ⟨⟨unit, source⟩, hhead₀, heq⟩ := Option.map_eq_some_iff.mp hfirst
  cases heq
  obtain ⟨⟨unit, source⟩, hhead, heq⟩ := Option.map_eq_some_iff.mp hsecond
  cases heq
  have hqueue : s₀.progress.queue ≠ [] := fun hempty => by simp [hempty] at hhead₀
  have hbuilt₀ : BuiltFrom ⟨{ enums := .declaration }, fun _ => none⟩ .empty shirtModel [0] 0
      (.complex shirtType) :=
    ⟨s₀, 0, s₀, 0, hmeet, .start s₀, hhead₀, hshirt⟩
  have hbuilt₁ : BuiltFrom ⟨{ enums := .declaration }, fun _ => none⟩ .empty shirtModel [0] 1
      (.enum colorType) :=
    ⟨s₀, 1, s, 1, hmeet, .build (.start s₀) hqueue hstep, hhead, hcolor⟩
  have halike : (Setup.mk { enums := .declaration } fun _ => none).ConvertsAlike
      ⟨{ linter := .tslint }, fun _ => none⟩ := ⟨rfl, rfl, rfl⟩
  obtain ⟨-, -, hwalks⟩ := walk_settings halike .empty shirtModel [0]
  obtain ⟨units', hwalk', hunits⟩ := hwalks _ hwalk
  obtain _ | ⟨hshirts, hrest⟩ := hunits
  obtain _ | ⟨hcolors, hrest⟩ := hrest
  cases hrest
  obtain ⟨-, -, -, -, hsame, -⟩ := hshirts
  obtain ⟨-, -, -, hreferences, -, hforms⟩ := hcolors
  obtain ⟨henum, hunion⟩ := (hforms colorType hbuilt₁).2 rfl rfl
  refine ⟨_, _, _, _, hwalk, hwalk', hsame fun e he => ?_, hreferences, henum, hunion.trans ?_⟩
  · cases he.unique hbuilt₀
  · decide +kernel

end Declgen.Walk
