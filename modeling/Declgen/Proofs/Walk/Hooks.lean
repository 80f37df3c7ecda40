import Declgen.Proofs.Alike.Runs
import Declgen.Proofs.Types.Places
import Declgen.Proofs.Walk.Closed
import Declgen.Proofs.Walk.Growth
import Declgen.Proofs.Walk.Naming

/-!
# Units of types that the hook replaces

A walk asks the hook about every root and about every type that it converts, and for a type that the
hook replaces nothing is queued. Where the reference to an instantiation keeps its arguments, it is
a reference to the unit of the record behind it, though, and about this record the hook is not
asked. So a unit is built from a type that the hook replaces only if this type is a record behind an
instantiation that the hook does not replace.
-/

namespace Declgen.Walk

open Model Document TypeScript Declgen.Units

/-! ### What is queued -/

/-- A type parameter occurs in a type of a graph, in one of its parts or arguments. -/
inductive Graph.Mentions (g : Graph) : TypeId → Prop
  /-- The type is a parameter. -/
  | parameter {id : TypeId} {name : String} (hget : g.get id = .ok (.parameter name)) :
    Mentions g id
  /-- One occurs in a type that may be null. -/
  | nullable {id inner : TypeId} (hget : g.get id = .ok (.nullable inner))
    (h : Mentions g inner) : Mentions g id
  /-- One occurs in the elements of a list. -/
  | array {id element : TypeId} (hget : g.get id = .ok (.array element))
    (h : Mentions g element) : Mentions g id
  /-- One occurs in the keys of a map. -/
  | key {id key value : TypeId} (hget : g.get id = .ok (.dictionary key value))
    (h : Mentions g key) : Mentions g id
  /-- One occurs in the values of a map. -/
  | value {id key value : TypeId} (hget : g.get id = .ok (.dictionary key value))
    (h : Mentions g value) : Mentions g id
  /-- One occurs in an argument. -/
  | argument {id definition argument : TypeId} {arguments : List TypeId}
    (hget : g.get id = .ok (.instantiation definition arguments)) (hmem : argument ∈ arguments)
    (h : Mentions g argument) : Mentions g id

/-- A type may be queued: the hook does not replace it, or it is a record that is referred to
through an instantiation that the hook does not replace. -/
inductive Admitted (style : GenericStyle) (hook : Hook) (g : Graph) (source : TypeId) : Prop
  /-- The hook does not replace the type. -/
  | kept {type : Descriptor} (hget : g.get source = .ok type) (hhook : hook type = none)
  /-- The type is the record behind an instantiation whose arguments are kept. -/
  | behind {id : TypeId} {arguments : List TypeId} {c : ComplexType}
    (hget : g.get id = .ok (.instantiation source arguments))
    (hhook : hook (.instantiation source arguments) = none)
    (hc : g.model.get source = .ok (.complex c))
    (hkeeps : style = .preserve ∨ g.Mentions id)

/-- Progress in which only types that may be queued have been. -/
abbrev Queues (options : Options) (hook : Hook) (g : Graph) : Progress → Progress → Prop :=
  Gains fun waiting => Admitted options.generics hook g waiting.source

section Conversions

variable {g g' : Graph} {id source : TypeId} {style : GenericStyle} {hook : Hook}

/-- A type parameter still occurs in a larger graph. -/
theorem Graph.Mentions.extends (h : g.Mentions id) (hext : g.Extends g') : g'.Mentions id := by
  induction h with
  | parameter hget => exact .parameter (hext.get hget)
  | nullable hget _ ih => exact .nullable (hext.get hget) ih
  | array hget _ ih => exact .array (hext.get hget) ih
  | key hget _ ih => exact .key (hext.get hget) ih
  | value hget _ ih => exact .value (hext.get hget) ih
  | argument hget hmem _ ih => exact .argument (hext.get hget) hmem ih

/-- A type that may be queued may be queued in a larger graph. -/
theorem Admitted.extends (h : Admitted style hook g source) (hext : g.Extends g') :
    Admitted style hook g' source := by
  cases h with
  | kept hget hhook => exact .kept (hext.get hget) hhook
  | behind hget hhook hc hkeeps =>
    exact .behind (hext.get hget) hhook (hext.model ▸ hc) (hkeeps.imp_right (·.extends hext))

/-- A parameter that is found at some place occurs in the type. -/
theorem Graph.mentions_of_unrolled {place : List Nat} {name : String}
    (h : g.unrolled id place = some (.parameter name)) : g.Mentions id := by
  induction place generalizing id with
  | nil =>
    cases hd : g.get id with
    | error e =>
      rw [Graph.unrolled, hd] at h
      cases h
    | ok d =>
      rw [Graph.unrolled_nil hd] at h
      cases d with
      | parameter other => exact .parameter hd
      | _ => cases h
  | cons i place ih =>
    cases hd : g.get id with
    | error e =>
      rw [Graph.unrolled, hd] at h
      cases h
    | ok d =>
      rw [Graph.unrolled_cons hd, Option.bind_eq_some_iff] at h
      obtain ⟨p, hp, hplace⟩ := h
      have hmem := List.mem_of_getElem? hp
      cases d with
      | nullable inner => exact .nullable hd (List.mem_singleton.mp hmem ▸ ih hplace)
      | array element => exact .array hd (List.mem_singleton.mp hmem ▸ ih hplace)
      | dictionary key value =>
        rcases List.mem_pair.mp hmem with rfl | rfl
        · exact .key hd (ih hplace)
        · exact .value hd (ih hplace)
      | instantiation definition arguments => exact .argument hd hmem (ih hplace)
      | _ => cases hmem

/-- A conversion queues only types that may be queued. -/
theorem convert_leads (ctx : Context) (id : TypeId) :
    Leads (Queues ctx.options ctx.hook ctx.graph) (convert ctx id) := by
  refine convertWithin_leads_of (fun id d hget hhook _ => unitFor_leads fun _ => .kept hget hhook)
    (fun id definition arguments c hget hhook hc hkeeps => unitFor_leads fun _ =>
      .behind hget hhook hc (hkeeps.imp_right fun h => ?_)) _ [] id
  obtain ⟨name, place, hplace⟩ := ((mentionsParameterWithin_outcome _ [] id).result h).mp rfl
  exact Graph.mentions_of_unrolled hplace

end Conversions

/-! ### What is built -/

section Walks

variable {setup : Setup} {s s' s₀ : State} {n : Nat}

/-- From one state to another the graph has grown, and only types that may be queued have been. -/
structure State.Gains (setup : Setup) (s s' : State) : Prop where
  /-- Types have been added at most. -/
  graph : s.graph.Extends s'.graph
  /-- So have units, of types that may be queued. -/
  progress : Queues setup.options setup.hook s'.graph s.progress s'.progress

/-- A state that stays as it is gains nothing. -/
theorem State.Gains.refl (s : State) : s.Gains setup s :=
  ⟨.refl s.graph, Std.Refl.refl s.progress⟩

/-- What is gained twice is gained. -/
theorem State.Gains.trans {s'' : State} (h : s.Gains setup s') (h' : s'.Gains setup s'') :
    s.Gains setup s'' where
  graph := h.graph.trans h'.graph
  progress := by
    refine ⟨fun waiting hwaiting => ?_, fun unit slot hslot hbody =>
      h.progress.bodies unit slot (h'.progress.bodies unit slot hslot hbody) hbody⟩
    rcases h'.progress.queue waiting hwaiting with hold | hnew
    · exact (h.progress.queue waiting hold).imp_right (·.extends h'.graph)
    · exact .inr hnew

/-- Building a declaration queues only types that may be queued. -/
theorem buildDeclaration_gains (name : String) (source : TypeId) :
    Outcome (fun r => s.Gains setup r.2) (fun _ => True)
      (buildDeclaration setup s name source) :=
  (buildDeclaration_leads_of (Queues setup.options setup.hook)
    (fun g scope id _ => convert_leads ⟨g, setup.options, setup.hook, scope⟩ id) name
    source).weaken fun _ h => ⟨h.1.graph, h.2⟩

/-- So does meeting a root. -/
theorem meetRoot_gains (id : TypeId) :
    Outcome (fun s' => s.Gains setup s') (fun _ => True) (meetRoot setup s id) := by
  refine (meetRoot_leads_of (Queues setup.options setup.hook s.graph)
    (fun _ hget hhook => unitFor_leads fun _ => .kept hget hhook)
    (convert_leads ⟨s.graph, setup.options, setup.hook, []⟩ id)).weaken fun s' h => ?_
  obtain ⟨hgraph, hprogress⟩ := h
  rw [← hgraph] at hprogress
  exact ⟨hgraph ▸ .refl s.graph, hprogress⟩

/-- In a walk that comes to the state `s` from `s₀`, a unit is built next, and it is built from the
type `source`. -/
structure Built (setup : Setup) (s₀ : State) (unit : Completed) (s : State) (source : TypeId)
    (type : Descriptor) : Prop where
  /-- The walk comes to the state. -/
  run : ∃ n, Run setup n s₀ s
  /-- The unit has waited longest, for this type. -/
  waiting : s.progress.queue.head? = some ⟨unit.id, source⟩
  /-- What the type is. -/
  get : s.graph.get source = .ok type
  /-- After the next build the unit is complete. -/
  step : ∃ s', step setup s = .ok s' ∧
    s'.progress.units.slots[unit.id]? = some ⟨unit.key, unit.header, some unit.body⟩

/-- What holds after each build of a walk from `s₀`: only types that may be queued wait, and each
unit that has a body has been built from a type. -/
structure Traced (setup : Setup) (s₀ s : State) : Prop where
  /-- Types have been added at most. -/
  graph : s₀.graph.Extends s.graph
  /-- The types that wait may be queued. -/
  queue : ∀ waiting ∈ s.progress.queue,
    Admitted setup.options.generics setup.hook s.graph waiting.source
  /-- The units have been built. -/
  bodies : ∀ unit : Completed,
    s.progress.units.slots[unit.id]? = some ⟨unit.key, unit.header, some unit.body⟩ →
    ∃ s' source type, Built setup s₀ unit s' source type

/-- What is built is a type of the graph. -/
theorem exists_get_of_build {name : String} {source : TypeId} {r : Declaration × State}
    (h : buildDeclaration setup s name source = .ok r) : ∃ type, s.graph.get source = .ok type := by
  obtain ⟨type, hget, -⟩ := bind_eq_ok h
  exact ⟨type, hget⟩

/-- A build keeps what holds after each build. -/
theorem Traced.step (h : Traced setup s₀ s) (hrun : ∃ n, Run setup n s₀ s)
    (hqueue : s.progress.queue ≠ []) (hstep : step setup s = .ok s') : Traced setup s₀ s' := by
  have hdone := hstep
  cases hwaiting : s.progress.queue with
  | nil => exact absurd hwaiting hqueue
  | cons waiting queue =>
    rw [Walk.step, hwaiting] at hstep
    obtain ⟨⟨declaration, s₁⟩, hbuild, hstep⟩ := bind_eq_ok hstep
    obtain ⟨units, hcomplete, hstep⟩ := bind_eq_ok hstep
    cases hstep
    obtain ⟨type, hget⟩ := exists_get_of_build hbuild
    have hgains := (buildDeclaration_gains _ _).result hbuild
    refine ⟨h.graph.trans hgains.graph, fun other hother => ?_, fun unit hunit => ?_⟩
    · rcases hgains.progress.queue other hother with hold | hnew
      · refine (h.queue other ?_).extends hgains.graph
        rw [hwaiting]
        exact List.mem_cons_of_mem _ hold
      · exact hnew
    -- The only body that is new is that of the unit that waited longest.
    · rcases (complete_outcome _ _ _ _).result hcomplete unit.id _ hunit (by simp) with
        hid | hslot
      · refine ⟨s, waiting.source, type, hrun, ?_, hget, _, hdone, hunit⟩
        rw [hwaiting, hid]
        rfl
      · exact h.bodies unit (hgains.progress.bodies unit.id _ hslot (by simp))

/-- So does a run. -/
theorem Run.traced (h : Run setup n s₀ s) (hstart : Traced setup s₀ s₀) : Traced setup s₀ s := by
  induction h with
  | start => exact hstart
  | build before hqueue hstep ih => exact (ih hstart).step ⟨_, before⟩ hqueue hstep

/-- Meeting all roots queues only types that may be queued. -/
theorem meetRoots_gains {ids : List TypeId} (h : ids.foldlM (meetRoot setup) s = .ok s') :
    s.Gains setup s' :=
  (Outcome.foldlM (fun _ id hs => (meetRoot_gains id).weaken fun _ => hs.trans) (.refl s)).result h

/-- After the roots have been met, nothing has been built and only types that may be queued wait. -/
theorem traced_of_meetRoots {a : Arena} {roots : List TypeId}
    (h : roots.foldlM (meetRoot setup) (State.start a) = .ok s₀) : Traced setup s₀ s₀ where
  graph := .refl s₀.graph
  queue waiting hwaiting := by
    rcases (meetRoots_gains h).progress.queue waiting hwaiting with hold | hnew
    · cases hold
    · exact hnew
  bodies unit hunit := by
    have hslot := (meetRoots_gains h).progress.bodies unit.id _ hunit (by simp)
    simp [State.start, Registry.empty] at hslot

/-- A type that the hook replaces waits only as the record behind an instantiation. -/
theorem Admitted.of_replaced {style : GenericStyle} {hook : Hook} {g : Graph} {source : TypeId}
    {type : Descriptor} (h : Admitted style hook g source) (hget : g.get source = .ok type)
    (hhook : hook type ≠ none) :
    ∃ (c : ComplexType) (id : TypeId) (arguments : List TypeId), type = .complex c ∧
      g.model.get source = .ok (.complex c) ∧
      g.get id = .ok (.instantiation source arguments) ∧
      hook (.instantiation source arguments) = none ∧ (style = .preserve ∨ g.Mentions id) := by
  cases h with
  | kept hget' hkept =>
    cases hget.symm.trans hget'
    exact absurd hkept hhook
  | @behind id arguments c hinstantiation hkept hc hkeeps =>
    cases hget.symm.trans (Graph.get_model hc)
    exact ⟨c, id, arguments, rfl, hc, hinstantiation, hkept, hkeeps⟩

/-- What is built waited before. -/
theorem Built.admitted {unit : Completed} {source : TypeId} {type : Descriptor}
    (h : Built setup s₀ unit s source type) (hstart : Traced setup s₀ s₀) :
    Admitted setup.options.generics setup.hook s.graph source := by
  obtain ⟨n, hrun⟩ := h.run
  exact (hrun.traced hstart).queue _ (List.mem_of_head? h.waiting)

/-- Every unit of a walk has been built. -/
theorem Traced.exists_built (h : Traced setup s₀ s) {units : List Completed}
    (hunits : s.progress.units.completed = .ok units) {unit : Completed} (hunit : unit ∈ units) :
    ∃ s' source type, Built setup s₀ unit s' source type := by
  obtain ⟨i, hi⟩ := List.mem_iff_getElem?.mp hunit
  obtain ⟨rfl, hslot⟩ := (Registry.slots_of_completed hunits).mp hi
  exact h.bodies unit hslot

end Walks

/-- Whatever the model, the hook, the options and the roots, every unit of a walk has been built
from a type. If the hook replaces this type, it is a record, and there is an instantiation of it
that the hook does not replace and whose arguments are kept. So if a hook that replaces a record
always replaces its instantiations, too, no unit is built from a type that the hook replaces. -/
theorem walk_hooked {setup : Setup} {a : Arena} {roots : List TypeId} {units : List Completed}
    (hwalk : walk setup .empty a roots = .ok units) :
    ∃ s₀, roots.foldlM (meetRoot setup) (State.start a) = .ok s₀ ∧
      (∀ unit ∈ units, ∃ s source type, Built setup s₀ unit s source type) ∧
      (∀ unit ∈ units, ∀ s source type, Built setup s₀ unit s source type →
        setup.hook type ≠ none → ∃ c id arguments, type = .complex c ∧
          s.graph.get id = .ok (.instantiation source arguments) ∧
          setup.hook (.instantiation source arguments) = none ∧
          (setup.options.generics = .preserve ∨ s.graph.Mentions id)) ∧
      ((∀ definition c arguments, a.get definition = .ok (.complex c) →
          setup.hook (.complex c) ≠ none →
          setup.hook (.instantiation definition arguments) ≠ none) →
        ∀ unit ∈ units, ∀ s source type, Built setup s₀ unit s source type →
          setup.hook type = none) := by
  obtain ⟨s, hexplore, hunits⟩ := bind_eq_ok hwalk
  obtain ⟨s₀, hmeet, hbuild⟩ := bind_eq_ok hexplore
  obtain ⟨n, hrun⟩ := exists_run_of_buildAll hbuild
  have hstart := traced_of_meetRoots hmeet
  have hmodel : s₀.graph.model = a := (meetRoots_gains hmeet).graph.model
  have hreplaced (unit : Completed) (s : State) (source : TypeId) (type : Descriptor)
      (hbuilt : Built setup s₀ unit s source type) (hhook : setup.hook type ≠ none) :=
    (hbuilt.admitted hstart).of_replaced hbuilt.get hhook
  refine ⟨s₀, hmeet, fun unit hunit => (hrun.traced hstart).exists_built hunits hunit,
    fun unit hunit s source type hbuilt hhook => ?_,
    fun halways unit hunit s source type hbuilt => ?_⟩
  · obtain ⟨c, id, arguments, rfl, -, hrest⟩ := hreplaced unit s source type hbuilt hhook
    exact ⟨c, id, arguments, rfl, hrest⟩
  · by_contra hhook
    obtain ⟨c, id, arguments, rfl, hc, -, hkept, -⟩ := hreplaced unit s source type hbuilt hhook
    obtain ⟨n, hrun⟩ := hbuilt.run
    rw [(hrun.traced hstart).graph.model, hmodel] at hc
    exact halways source c arguments hc hhook hkept

/-! ### A record that is replaced and declared -/

/-- Replaces records called `Box`. -/
def boxHook : Hook
  | .complex c => if c.name = "Box" then some (.verbatim "X") else none
  | _ => none

/-- Replaces all instantiations, too. -/
def boxesHook : Hook
  | .instantiation _ _ => some (.verbatim "X")
  | type => boxHook type

/-- A hook that replaces the record and its instantiations leaves only the record that uses them. -/
theorem walk_hooked_boxes :
    ∃ units s₀, walk ⟨{ generics := .preserve }, boxesHook⟩ .empty boxesModel.model [1] =
        .ok units ∧
      [1].foldlM (meetRoot ⟨{ generics := .preserve }, boxesHook⟩)
        (State.start boxesModel.model) = .ok s₀ ∧
      units.map (fun unit => unit.body.declaration.toText default) =
        ["export type Holder = \x7b\n    box: X;\n\x7d;\n"] ∧
      ∀ unit ∈ units,
        (∃ s source type,
          Built ⟨{ generics := .preserve }, boxesHook⟩ s₀ unit s source type) ∧
        ∀ s source type, Built ⟨{ generics := .preserve }, boxesHook⟩ s₀ unit s source type →
          boxesHook type = none := by
  have hwalk : (walk ⟨{ generics := .preserve }, boxesHook⟩ .empty boxesModel.model [1]).map
      (·.map fun unit => unit.body.declaration.toText default) =
        .ok ["export type Holder = \x7b\n    box: X;\n\x7d;\n"] := by decide +kernel
  obtain ⟨units, hwalk, htexts⟩ := exists_of_map_eq_ok hwalk
  obtain ⟨s₀, hmeet, hbuilt, -, hkept⟩ := walk_hooked hwalk
  have halways : ∀ (definition : TypeId) (c : ComplexType) (arguments : List TypeId),
      boxesModel.model.get definition = .ok (.complex c) → boxesHook (.complex c) ≠ none →
      boxesHook (.instantiation definition arguments) ≠ none := by
    intro definition c arguments _ _
    simp [boxesHook]
  exact ⟨units, s₀, hwalk, hmeet, htexts,
    fun unit hunit => ⟨hbuilt unit hunit, hkept halways unit hunit⟩⟩

/-- A hook that replaces the record and not its instantiations is not asked about the record behind
them, and a unit is built from it. -/
theorem boxes_replaced_and_declared :
    ∃ s₀ s holder box type,
      walk ⟨{ generics := .preserve }, boxHook⟩ .empty boxesModel.model [1] =
        .ok [holder, box] ∧
      [1].foldlM (meetRoot ⟨{ generics := .preserve }, boxHook⟩)
        (State.start boxesModel.model) = .ok s₀ ∧
      Built ⟨{ generics := .preserve }, boxHook⟩ s₀ box s 0 type ∧
      boxHook type = some (.verbatim "X") ∧
      box.body.declaration.toText default =
        "export type Box<T> = \x7b\n    value: T;\n\x7d;\n" := by
  have hwalk : walk ⟨{ generics := .preserve }, boxHook⟩ .empty boxesModel.model [1] =
      .ok [⟨0, "Holder", ⟨"Holder", none, []⟩,
          ⟨.alias "Holder" [] (.object [⟨"box", .genericReference 1 "Box" [.keyword .number],
            false, none⟩]), [1]⟩⟩,
        ⟨1, "Box\x601", ⟨"Box", none, ["T"]⟩,
          ⟨.alias "Box" ["T"] (.object [⟨"value", .parameter "T", false, none⟩]), []⟩⟩] := by
    decide +kernel
  have hbuilds : (do
      let s₀ ← [1].foldlM (meetRoot ⟨{ generics := .preserve }, boxHook⟩)
        (State.start boxesModel.model)
      let s ← step ⟨{ generics := .preserve }, boxHook⟩ s₀
      let s' ← step ⟨{ generics := .preserve }, boxHook⟩ s
      pure (s₀.progress.queue.isEmpty,
        s.progress.queue.head?.map fun waiting : Pending => (waiting.unit, waiting.source),
        s.graph.get 0, s'.progress.units.slots[1]?)) =
      .ok (false, some (1, 0),
        .ok (.complex ⟨"Box", none, ["T"], none, [⟨"value", 2, false, false, none⟩]⟩),
        some ⟨"Box\x601", ⟨"Box", none, ["T"]⟩,
          some ⟨.alias "Box" ["T"] (.object [⟨"value", .parameter "T", false, none⟩]), []⟩⟩) := by
    decide +kernel
  obtain ⟨s₀, hmeet, hbuilds⟩ := bind_eq_ok hbuilds
  obtain ⟨s, hstep, hbuilds⟩ := bind_eq_ok hbuilds
  obtain ⟨s', hstep', hbuilds⟩ := bind_eq_ok hbuilds
  simp only [pure, Except.pure, Except.ok.injEq, Prod.mk.injEq] at hbuilds
  obtain ⟨hqueue, hwaiting, hget, hslot⟩ := hbuilds
  obtain ⟨⟨unit, source⟩, hhead, heq⟩ := Option.map_eq_some_iff.mp hwaiting
  cases heq
  have hrun : Run ⟨{ generics := .preserve }, boxHook⟩ 1 s₀ s :=
    .build (.start s₀) (by simpa using hqueue) hstep
  exact ⟨s₀, s, _, _, _, hwalk, hmeet, ⟨⟨1, hrun⟩, hhead, hget, s', hstep', hslot⟩, rfl,
    by decide +kernel⟩

end Declgen.Walk
