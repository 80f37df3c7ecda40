import Declgen.Proofs.Units.Changes
import Declgen.Proofs.Walk.Errors
import Declgen.Proofs.Walk.Failing

/-!
# Walks with a prepared registry

A walk may start with units that are there already. It finds them under their keys and refers to
them, but it never touches them: what it adds comes after them, and what it completes is what it has
added, each unit once. So the prepared units come first in the result, just as they were, and they
must have been complete, as the walk completes none of them.
-/

namespace Declgen.Units.Registry

/-- Units that come first in a registry are completed as by themselves. -/
theorem completed_take {r r' : Registry} {units : List Completed}
    (hkept : ∀ unit : Nat, unit < r.size → r'.slots[unit]? = r.slots[unit]?)
    (h : r'.completed = .ok units) : r.completed = .ok (units.take r.size) := by
  have hbodies : ∀ slot ∈ r.slots.toList, slot.body ≠ none := by
    intro slot hslot
    obtain ⟨unit, hunit⟩ := List.mem_iff_getElem?.mp hslot
    rw [Array.getElem?_toList] at hunit
    have hlt : unit < r.size := (Array.getElem?_eq_some_iff.mp hunit).1
    exact body_ne_none_of_completed h ((hkept unit hlt).trans hunit)
  obtain ⟨prepared, hprepared, hget⟩ := completed_eq hbodies
  rw [hprepared]
  refine congrArg Except.ok (List.ext_getElem? fun unit => ?_)
  rw [hget, List.getElem?_take]
  split
  · rename_i hlt
    rw [getElem?_of_completed h, hkept unit hlt]
  · rename_i hle
    rw [Array.getElem?_eq_none (Nat.le_of_not_lt hle)]
    rfl

/-- Where all units could be completed, each of them is complete. -/
theorem isComplete_of_completed {r : Registry} {units : List Completed} {unit : Completed}
    (h : r.completed = .ok units) (hunit : unit ∈ units) : r.isComplete unit.id = true := by
  obtain ⟨i, hi⟩ := List.mem_iff_getElem?.mp hunit
  obtain ⟨rfl, hslot⟩ := (slots_of_completed h).mp hi
  rw [isComplete, hslot]
  rfl

/-- If the first units have stayed as they were and the registry is complete in the end, all calls
have been for other units: each of these has been reserved and completed once. -/
theorem Changes.count_of_completed {r r' : Registry} {log : List Change} {units : List Completed}
    {unit : Completed} (h : r.Changes log r')
    (hkept : ∀ unit : Nat, unit < r.size → r'.slots[unit]? = r.slots[unit]?)
    (hunits : r'.completed = .ok units) (hunit : unit ∈ units) :
    log.count (.reserved unit.id) = (if unit.id < r.size then 0 else 1) ∧
      log.count (.completed unit.id) = (if unit.id < r.size then 0 else 1) := by
  have hcomplete := isComplete_of_completed hunits hunit
  have hlt := lt_size_of_isComplete hcomplete
  have hreserved := h.count_reserved unit.id
  have hcompleted := h.count_completed unit.id
  rw [hcomplete, Bool.toNat_true] at hcompleted
  by_cases hprepared : unit.id < r.size
  · rw [if_neg fun hbounds => Nat.not_lt.mpr hbounds.1 hprepared] at hreserved
    rw [← isComplete_congr (hkept unit.id hprepared), hcomplete, Bool.toNat_true] at hcompleted
    rw [if_pos hprepared]
    exact ⟨hreserved, Nat.succ.inj hcompleted⟩
  · rw [if_pos ⟨Nat.le_of_not_lt hprepared, hlt⟩] at hreserved
    rw [isComplete_eq_false_of_size_le (Nat.le_of_not_lt hprepared), Bool.toNat_false] at hcompleted
    rw [if_neg hprepared]
    exact ⟨hreserved, hcompleted⟩

/-- The only reason for which not all units can be completed is a unit without its body. -/
theorem completed_outcome (r : Registry) :
    Outcome (fun _ => True) (fun e => ∃ name, e = .neverCompleted name) r.completed := by
  have hfrom (slots : List Slot) (start : Nat) : Outcome (fun _ => True)
      (fun e => ∃ name, e = .neverCompleted name) (completedFrom start slots) := by
    induction slots generalizing start with
    | nil => trivial
    | cons slot slots ih =>
      cases hbody : slot.body with
      | none =>
        rw [completedFrom, hbody]
        exact ⟨slot.header.name, rfl⟩
      | some body =>
        rw [completedFrom, hbody]
        exact (ih (start + 1)).map fun _ _ => trivial
  exact hfrom r.slots.toList 0

end Declgen.Units.Registry

namespace Declgen.Walk

open Model TypeScript Declgen.Units

variable {setup : Setup} {registry : Registry} {a : Arena} {names : Finset String}
  {first n : Nat} {p p' : Progress} {s s' : State}

/-! ### Since the start -/

/-- The progress of a walk that started with a registry, when the units before `first` have been
built: what the registry held is still there, and all units after it were added by the walk. -/
structure Progress.Since (registry : Registry) (names : Finset String) (first : Nat)
    (p : Progress) : Prop extends Progress.Orderly names registry.size first p where
  /-- The prepared units are as they were. -/
  kept : ∀ unit : Nat, unit < registry.size → p.units.slots[unit]? = registry.slots[unit]?
  /-- The registry has been changed by calls only. -/
  changes : ∃ log, registry.Changes log p.units

/-- At the start nothing has been built beyond the registry. -/
private theorem since_start (registry : Registry) :
    Progress.Since registry names registry.size ⟨registry, []⟩ :=
  ⟨orderly_start registry, fun _ _ => rfl, [], .none⟩

/-- A reservation adds a unit after all others, and it waits. -/
theorem Progress.Since.reserve (h : p.Since registry names first) {key : String} {header : Header}
    {source : TypeId} (hlookup : p.units.lookup key = none)
    (hreserve : p.units.reserve key header =
      .ok (p.units.append key header, ⟨p.units.size, true⟩))
    (hmem : header.name ∈ names) :
    Progress.Since registry names first
      ⟨p.units.append key header, p.queue ++ [⟨p.units.size, source⟩]⟩ where
  toOrderly := h.toOrderly.reserve ((Registry.reserve_outcome hlookup).result hreserve).2 hmem
  kept unit hunit := by
    have hlt : unit < p.units.size := Nat.lt_of_lt_of_le hunit (h.old_le.trans h.first_le)
    rw [Registry.getElem?_append_of_lt hlt, h.kept unit hunit]
  changes := by
    obtain ⟨log, hlog⟩ := h.changes
    exact ⟨_, hlog.reserve hreserve⟩

/-- Completing the unit that has been taken from the queue always succeeds and changes no prepared
unit. -/
theorem Progress.Since.complete {units : Registry} {queue : List Pending}
    (h : Progress.Since registry names (first + 1) ⟨units, queue⟩) (hfirst : registry.size ≤ first)
    (hbody : units.isComplete first = false) (declaration : Declaration)
    (references : List UnitId) :
    ∃ units', units.complete first declaration references = .ok units' ∧
      Progress.Since registry names (first + 1) ⟨units', queue⟩ := by
  have hlt : first < units.size := h.first_le
  have hslot : units.slots[first]? = some units.slots[first] := Array.getElem?_eq_getElem hlt
  rw [Registry.isComplete, hslot, Option.any_some, Option.isSome_eq_false_iff,
    Option.isNone_iff_eq_none] at hbody
  have hcomplete := Registry.complete_eq hslot hbody declaration references
  refine ⟨_, hcomplete, (h.toOrderly.complete declaration references).result hcomplete,
    fun unit hunit => ?_, ?_⟩
  · rw [← h.kept unit hunit]
    exact Array.getElem?_setIfInBounds_ne (by omega)
  · obtain ⟨log, hlog⟩ := h.changes
    exact ⟨_, hlog.complete hlt hcomplete⟩

/-- Progress by which a walk goes on without completing anything. -/
structure GoesOn (registry : Registry) (names : Finset String) (first : Nat) (p p' : Progress) :
    Prop where
  /-- What holds since the start of the walk still holds. -/
  since : p.Since registry names first → p'.Since registry names first
  /-- No unit is given up or renamed. -/
  entries : p.units.Extends p'.units
  /-- The same units are complete. -/
  complete : ∀ unit, p'.units.isComplete unit = p.units.isComplete unit

instance : Std.Refl (GoesOn registry names first) :=
  ⟨fun p => ⟨fun h => h, .refl p.units, fun _ => rfl⟩⟩

instance : IsTrans Progress (GoesOn registry names first) :=
  ⟨fun _ _ _ h h' => ⟨fun hp => h'.since (h.since hp), h.entries.trans h'.entries,
    fun unit => (h'.complete unit).trans (h.complete unit)⟩⟩

/-- Meeting a unit goes on without completing anything. -/
theorem unitFor_goesOn {g : Graph} (hg : g.Tame) (id : TypeId) :
    Leads (GoesOn registry (unitNames g.model) first) (unitFor g id) := by
  refine .lift_bind (Outcome.any _) fun key _ p => ?_
  rw [run_bind_eq (get_run p)]
  cases hlookup : p.units.lookup key with
  | some unit => exact Std.Refl.refl p
  | none =>
    refine hg.header_mem.lift_bind fun header hname => ?_
    cases hreserve : p.units.reserve key header with
    | error e => trivial
    | ok r =>
      obtain ⟨rfl, -⟩ := (Registry.reserve_outcome hlookup).result hreserve
      exact ⟨fun h => h.reserve hlookup hreserve hname, Registry.extends_append,
        fun _ => Registry.isComplete_append⟩

/-- So does a conversion. -/
theorem convert_goesOn {ctx : Context} (hg : ctx.graph.Tame) (id : TypeId) :
    Leads (GoesOn registry (unitNames ctx.graph.model) first) (convert ctx id) :=
  convertWithin_leads_of (fun id _ _ _ _ => unitFor_goesOn hg id)
    (fun _ definition _ _ _ _ _ _ => unitFor_goesOn hg definition) _ [] id

/-! ### States -/

/-- What holds in each state of a walk that started with a registry. -/
structure State.Since (registry : Registry) (a : Arena) (first : Nat) (s : State) : Prop where
  /-- The model does not change. -/
  model : s.graph.model = a
  /-- The types made have no more arguments than those of the model. -/
  tame : s.graph.Tame
  /-- The progress since the start. -/
  progress : s.progress.Since registry (unitNames a) first

namespace State.Since

/-- Meeting a root keeps what the registry held. -/
theorem meetRoot (h : s.Since registry a first) (id : TypeId) :
    Outcome (fun s' => s'.Since registry a first) GenerateError.OfTypes (meetRoot setup s id) := by
  obtain ⟨rfl, htame, hprogress⟩ := h
  refine ((meetRoot_leads_of (GoesOn registry (unitNames s.graph.model) first)
    (fun _ _ _ => unitFor_goesOn htame id) (convert_goesOn htame id)).and
    (meetRoot_failsByTypes id)).mono (fun s' hs' => ?_) fun _ he => he.2
  obtain ⟨⟨hgraph, hgoes⟩, -⟩ := hs'
  exact ⟨congrArg Graph.model hgraph, hgraph ▸ htame, hgoes.since hprogress⟩

/-- So does building a declaration, which completes nothing by itself. -/
theorem buildDeclaration (h : s.Since registry a first) (name : String) (source : TypeId) :
    Outcome (fun r => r.2.Since registry a first ∧
        s.progress.units.Extends r.2.progress.units ∧
        ∀ unit, r.2.progress.units.isComplete unit = s.progress.units.isComplete unit)
      GenerateError.OfTypes (buildDeclaration setup s name source) := by
  obtain ⟨rfl, htame, hprogress⟩ := h
  refine ((buildDeclaration_leads_of
    (fun _ => GoesOn registry (unitNames s.graph.model) first) (fun g scope id hgraph => ?_) name
    source).and (buildDeclaration_failsByTypes name source)).mono (fun r hr => ?_) fun _ he => he.2
  · rw [← hgraph.graph.model]
    exact convert_goesOn (hgraph.tame htame) id
  · obtain ⟨⟨hgraph, hgoes⟩, -⟩ := hr
    exact ⟨⟨hgraph.graph.model, hgraph.tame htame, hgoes.since hprogress⟩, hgoes.entries,
      hgoes.complete⟩

/-- Taking the unit that has waited longest leaves the others waiting. -/
theorem take {g : Graph} {units : Registry} {waiting : Pending} {queue : List Pending}
    (h : State.Since registry a first ⟨g, units, waiting :: queue⟩) :
    waiting.unit = first ∧ first < units.size ∧
      State.Since registry a (first + 1) ⟨g, units, queue⟩ := by
  obtain ⟨hmodel, htame, hprogress⟩ := h
  obtain ⟨hunit, horderly⟩ := hprogress.toOrderly.unit_eq
  exact ⟨hunit, horderly.first_le, hmodel, htame, horderly, hprogress.kept, hprogress.changes⟩

/-- The next build completes the first unit that waits, which the walk has added itself. If the
build fails, it is because of the types. -/
theorem step (h : s.Since registry a first) (hqueue : s.progress.queue ≠ []) :
    Outcome (fun s' => s'.Since registry a (first + 1)) GenerateError.OfTypes (step setup s) := by
  obtain ⟨g, units, queue⟩ := s
  cases queue with
  | nil => exact absurd rfl hqueue
  | cons waiting queue =>
    obtain ⟨hunit, hlt, hnext⟩ := h.take
    have hbody : units.isComplete first = false := by
      have hslot : units.slots[first]? = some units.slots[first] := Array.getElem?_eq_getElem hlt
      rw [Registry.isComplete, hslot, Option.any_some,
        h.progress.bodies first _ hslot (Nat.le_refl _)]
      rfl
    rw [Walk.step]
    dsimp only
    refine (hnext.buildDeclaration _ waiting.source).bind fun r hr => ?_
    obtain ⟨declaration, s₁⟩ := r
    obtain ⟨⟨hmodel, htame, hsince⟩, -, hcomplete⟩ := hr
    rw [hunit]
    obtain ⟨units', hunits', hsince'⟩ := hsince.complete h.progress.old_le
      ((hcomplete first).trans hbody) declaration declaration.references
    dsimp only
    rw [hunits', ok_bind]
    exact ⟨hmodel, htame, hsince'⟩

end State.Since

/-- What holds in the state before a run holds after it, with more units built. -/
theorem Run.since (h : Run setup n s s') (hs : s.Since registry a first) :
    s'.Since registry a (first + n) := by
  induction h with
  | start => exact hs
  | build _ hqueue hstep ih => exact ((ih hs).step hqueue).result hstep

/-- The state in which nothing has been met, with the units of a registry. -/
def State.startWith (registry : Registry) (a : Arena) : State := ⟨.ofModel a, ⟨registry, []⟩⟩

/-- What holds when a walk starts with a registry. -/
theorem startWith_since (registry : Registry) (a : Arena) :
    (State.startWith registry a).Since registry a registry.size :=
  ⟨rfl, Graph.ofModel_tame a, since_start registry⟩

/-- The roots of a walk are met, and then there is a run, or an error that lies in the types. -/
theorem explore_since (setup : Setup) (registry : Registry) (a : Arena) (roots : List TypeId) :
    Outcome (fun s => ∃ s₀ n, roots.foldlM (meetRoot setup) (.startWith registry a) = .ok s₀ ∧
        s₀.Since registry a registry.size ∧ Run setup n s₀ s ∧
        s.Since registry a (registry.size + n))
      GenerateError.OfTypes (explore setup registry a roots) := by
  have hroots : Outcome (fun s => s.Since registry a registry.size) GenerateError.OfTypes
      (roots.foldlM (meetRoot setup) (.startWith registry a)) :=
    Outcome.foldlM (fun _ id hs => hs.meetRoot id) (startWith_since registry a)
  rw [explore]
  change Outcome _ _ (roots.foldlM (meetRoot setup) (.startWith registry a) >>= _)
  -- The number of batches is far too large to be computed.
  generalize batchBound a = batches
  cases hmeet : roots.foldlM (meetRoot setup) (.startWith registry a) with
  | error e => exact hroots.failure hmeet
  | ok s₀ =>
    have hs₀ := hroots.result hmeet
    rw [ok_bind]
    by_cases hqueue : s₀.progress.queue = []
    · rw [buildAll_of_empty hqueue]
      exact ⟨s₀, 0, rfl, hs₀, .start s₀, hs₀⟩
    · refine (buildAll_run hqueue _ 0).mono (fun s hs => ?_) fun e he => ?_
      · obtain ⟨n, hrun, -⟩ := hs
        exact ⟨s₀, n, rfl, hs₀, hrun, hrun.since hs₀⟩
      · obtain ⟨n, t, hrun, hwaiting, hstep⟩ := he
        exact ((hrun.since hs₀).step hwaiting).failure hstep

/-! ### What a walk leaves alone -/

/-- Whatever the registry at the start, however it was filled, and whatever the model, the options,
the hook and the roots: the units of a walk are those of the registry, just as they are, and after
them those that the walk has added with as many builds. However the walk has changed the registry,
each unit that it has added was reserved and completed once, and no prepared unit was reserved or
completed. No walk ends because a unit was completed twice. If a prepared unit lacks its body,
the walk does not succeed. -/
theorem walk_prepared (setup : Setup) (registry : Registry) (a : Arena) (roots : List TypeId) :
    (∀ units, walk setup registry a roots = .ok units →
      registry.completed = .ok (units.take registry.size) ∧
      ∃ s₀ s, roots.foldlM (meetRoot setup) (.startWith registry a) = .ok s₀ ∧
        Run setup (units.length - registry.size) s₀ s ∧ s.progress.queue = [] ∧
        s.progress.units.completed = .ok units ∧
        (∃ log, registry.Changes log s.progress.units) ∧
        ∀ log, registry.Changes log s.progress.units → ∀ unit ∈ units,
          log.count (.reserved unit.id) = (if unit.id < registry.size then 0 else 1) ∧
          log.count (.completed unit.id) = (if unit.id < registry.size then 0 else 1)) ∧
    (∀ name, walk setup registry a roots ≠ .error (.completedTwice name)) ∧
    ∀ slot ∈ registry.slots.toList, slot.body = none →
      ∀ units, walk setup registry a roots ≠ .ok units := by
  have hexplore := explore_since setup registry a roots
  -- The prepared units are still there at the end.
  have hkept {units : List Completed} (hwalk : walk setup registry a roots = .ok units) :
      registry.completed = .ok (units.take registry.size) := by
    obtain ⟨s, hs, hunits⟩ := bind_eq_ok hwalk
    obtain ⟨_, _, -, -, -, hsince⟩ := hexplore.result hs
    exact Registry.completed_take hsince.progress.kept hunits
  refine ⟨fun units hwalk => ⟨hkept hwalk, ?_⟩, fun name hwalk => ?_,
    fun slot hslot hbody units hwalk => ?_⟩
  · obtain ⟨s, hs, hunits⟩ := bind_eq_ok hwalk
    obtain ⟨s₀, n, hmeet, -, hrun, hsince⟩ := hexplore.result hs
    have hqueue := hsince.progress.queue_eq_nil hunits
    have hbuilds : units.length - registry.size = n := by
      have hwaiting := congrArg List.length hsince.progress.waiting
      have hle := hsince.progress.first_le
      rw [hqueue, List.map_nil, List.length_nil, List.length_range'] at hwaiting
      rw [Registry.length_of_completed hunits]
      omega
    refine ⟨s₀, s, hmeet, hbuilds ▸ hrun, hqueue, hunits, hsince.progress.changes,
      fun log hlog unit hunit => ?_⟩
    exact hlog.count_of_completed hsince.progress.kept hunits hunit
  · have hfails : Outcome (fun _ => True) (fun e => ∀ name, e ≠ .completedTwice name)
        (walk setup registry a roots) := by
      refine (hexplore.mono (fun _ _ => trivial) fun e he name => ?_).bind fun s _ => ?_
      · rintro rfl
        exact he
      · refine (Registry.completed_outcome _).mono (fun _ _ => trivial) fun e he name => ?_
        obtain ⟨other, rfl⟩ := he
        simp
    exact hfails.failure hwalk name rfl
  · obtain ⟨unit, hunit⟩ := List.mem_iff_getElem?.mp hslot
    exact Registry.body_ne_none_of_completed (hkept hwalk) (Array.getElem?_toList ▸ hunit) hbody

/-! ### An address that is declared elsewhere -/

/-- A shop and its address. -/
def addressModel : Arena :=
  ⟨#[some (.complex ⟨"Address", none, [], none, [⟨"street", 2, false, false, none⟩]⟩),
    some (.complex ⟨"Shop", none, [], none, [⟨"address", 0, false, false, none⟩]⟩),
    some (.primitive .string)]⟩

/-- A registry in which the address has a declaration that does not follow from the model. -/
def addressRegistry : Registry :=
  ⟨#[⟨"Address", ⟨"Location", some "geo", []⟩,
    some ⟨.alias "Location" [] (.verbatim "Point"), []⟩⟩]⟩

/-- The registry is filled by calls. -/
theorem addressRegistry_changes :
    Registry.Changes .empty [.reserved 0, .completed 0] addressRegistry := by
  have hreserve : Registry.empty.reserve "Address" ⟨"Location", some "geo", []⟩ =
      .ok (⟨#[⟨"Address", ⟨"Location", some "geo", []⟩, none⟩]⟩, ⟨0, true⟩) := by decide +kernel
  have hreserved : Registry.Changes .empty [.reserved 0] _ := Registry.Changes.none.reserve hreserve
  have hcomplete : Registry.complete ⟨#[⟨"Address", ⟨"Location", some "geo", []⟩, none⟩]⟩ 0
      (.alias "Location" [] (.verbatim "Point")) [] = .ok addressRegistry := by decide +kernel
  exact hreserved.complete (by decide) hcomplete

/-- The shop refers to the address under its prepared name, and only the shop is built. -/
theorem walk_prepared_address :
    Registry.Changes .empty [.reserved 0, .completed 0] addressRegistry ∧
    ∃ address shop, walk ⟨{}, fun _ => none⟩ addressRegistry addressModel [1] =
        .ok [address, shop] ∧
      addressRegistry.completed = .ok [address] ∧
      shop = ⟨1, "Shop", ⟨"Shop", none, []⟩, ⟨.alias "Shop" []
        (.object [⟨"address", .reference 0 "Location", false, none⟩]), [0]⟩⟩ ∧
      ∃ s log, addressRegistry.Changes log s ∧ s.completed = .ok [address, shop] ∧
        log.count (.completed address.id) = 0 ∧ log.count (.completed shop.id) = 1 := by
  have hwalk : walk ⟨{}, fun _ => none⟩ addressRegistry addressModel [1] =
      .ok [⟨0, "Address", ⟨"Location", some "geo", []⟩,
          ⟨.alias "Location" [] (.verbatim "Point"), []⟩⟩,
        ⟨1, "Shop", ⟨"Shop", none, []⟩, ⟨.alias "Shop" []
          (.object [⟨"address", .reference 0 "Location", false, none⟩]), [0]⟩⟩] := by
    decide +kernel
  obtain ⟨hunits, -, -⟩ := walk_prepared ⟨{}, fun _ => none⟩ addressRegistry addressModel [1]
  obtain ⟨hkept, -, s, -, -, -, hcompleted, ⟨log, hlog⟩, hcounts⟩ := hunits _ hwalk
  refine ⟨addressRegistry_changes, _, _, hwalk, hkept, rfl, s.progress.units, log, hlog,
    hcompleted, ?_, ?_⟩
  · exact (hcounts log hlog _ (by simp)).2
  · exact (hcounts log hlog _ (by simp)).2

end Declgen.Walk
