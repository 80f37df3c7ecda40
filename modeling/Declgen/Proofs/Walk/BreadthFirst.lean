import Declgen.Proofs.Walk.Hooks

/-!
# The order of discovery

A walk numbers its units in the order in which it meets them. The units of the roots come first.
Each build then adds, at the end, the units that its declaration refers to and that were not known,
and it refers to no others. Since the units are built in the order of their numbers, this is a
breadth-first search: no unit is found before one that an earlier unit refers to.
-/

namespace Declgen.Walk

open Model TypeScript Declgen.Units

/-! ### What meeting types adds -/

section Meeting

variable {g : Graph} {p p' : Progress} {t u : TypeTree} {ts : List TypeTree}

/-- Progress that only adds to what there was: units and those that wait come at the end. -/
structure Progress.Adds (p p' : Progress) : Prop where
  /-- No unit is lost. -/
  size : p.units.size ≤ p'.units.size
  /-- No unit changes. -/
  slots : ∀ i : Nat, i < p.units.size → p'.units.slots[i]? = p.units.slots[i]?
  /-- What waited still waits, before all else. -/
  queue : p.queue <+: p'.queue

/-- Progress that stays as it is adds nothing. -/
theorem Progress.Adds.refl (p : Progress) : p.Adds p :=
  ⟨Nat.le_refl _, fun _ _ => rfl, List.prefix_refl _⟩

/-- What is added twice is added. -/
theorem Progress.Adds.trans {p'' : Progress} (h : p.Adds p') (h' : p'.Adds p'') : p.Adds p'' where
  size := h.size.trans h'.size
  slots i hi := (h'.slots i (hi.trans_le h.size)).trans (h.slots i hi)
  queue := h.queue.trans h'.queue

/-- Meeting a type only adds to the progress. -/
theorem Meet.adds (h : Meet g t p p') : p.Adds p' := by
  cases h with
  | again => exact .refl p
  | first =>
    refine ⟨?_, fun i hi => ?_, List.prefix_append _ _⟩
    · simp [Registry.append, Registry.size]
    · exact Array.getElem?_push_lt hi |>.trans (Array.getElem?_eq_getElem hi).symm

/-- So does meeting several types. -/
theorem Meets.adds (h : Meets g ts p p') : p.Adds p' := by
  induction h with
  | nil => exact .refl _
  | cons head _ ih => exact head.adds.trans ih

/-- Every unit that is added belongs to one of the types that are met. -/
theorem Meets.exists_met (h : Meets g ts p p') {unit : Nat} (hnew : p.units.size ≤ unit)
    (hunit : unit < p'.units.size) : ∃ t ∈ ts, p'.units.lookup t.spelling = some unit := by
  induction h with
  | nil => omega
  | @cons t ts p p₁ p' head tail ih =>
    by_cases hlt : unit < p₁.units.size
    · cases head with
      | again => omega
      | first hid htree hkey =>
        simp only [Registry.append, Registry.size, Array.size_push] at hlt hnew
        have heq : unit = p.units.size := by simp only [Registry.size]; omega
        exact ⟨t, by simp, heq ▸ tail.extends.lookup (Registry.lookup_append hkey)⟩
    · obtain ⟨u, hu, hlookup⟩ := ih (Nat.le_of_not_lt hlt) hunit
      exact ⟨u, List.mem_cons_of_mem _ hu, hlookup⟩

end Meeting

/-! ### What a build discovers -/

section Building

variable {units : Registry} {options : Options} {a : Arena} {name : String} {t u : TypeTree}
  {declaration : Declaration}

/-- A unit that is known has one of the numbers that have been given. -/
theorem lt_of_known {key : String} {unit : UnitId × String} (h : known units key = some unit) :
    unit.1 < units.size := by
  obtain ⟨i, hlookup, rfl⟩ := Option.map_eq_some_iff.mp h
  obtain ⟨header, hentry⟩ := Registry.exists_entry hlookup
  rw [← Registry.length_entries]
  exact (List.getElem?_eq_some_iff.mp hentry).1

/-- A declaration refers to all named types that it needs. -/
theorem TypeTree.exists_known_of_mem_dependencies
    (h : t.declaration? options a units name = some declaration)
    (hu : u ∈ t.dependencies options.generics a) :
    ∃ unit, known units u.spelling = some unit ∧ unit.1 ∈ declaration.references := by
  obtain ⟨members, hmembers, m, hm, hneeds⟩ := exists_member_of_mem_dependencies hu
  have henum : ∀ id e, t ≠ .enum id e := by
    rintro id e rfl
    cases hmembers
  obtain ⟨members', fields, hmembers', hfields, rfl⟩ := exists_fields henum h
  cases hmembers.symm.trans hmembers'
  obtain ⟨f, hf, hfield⟩ := exists_mem_of_mapM hfields hm
  obtain ⟨e, he, rfl⟩ := Option.map_eq_some_iff.mp hfield
  obtain ⟨unit, hknown, node, hnode, hlink⟩ := exists_link_of_expr? he hneeds
  refine ⟨unit, hknown, Declaration.mem_references_iff.mpr ⟨node, ?_, ?_⟩⟩
  · rw [Declaration.nodes, Expr.nodes, Expr.nodesFields_eq_flatMap]
    refine List.mem_cons_of_mem _ (List.mem_flatMap.mpr ⟨_, hf, ?_⟩)
    dsimp only
    split
    · exact Expr.mem_nodes_unionOf_of_link (by simp) hnode hlink
    · exact hnode
  · rw [Expr.target?_eq_map_link?, hlink]
    rfl

/-- A declaration refers to known units only. -/
theorem TypeTree.lt_of_mem_references (ha : a.WellFormed) (ht : t.Over a) {header : Header}
    (hheader : t.header? = some header)
    (h : t.declaration? options a units name = some declaration) {unit : UnitId}
    (hunit : unit ∈ declaration.references) : unit < units.size := by
  obtain ⟨node, hnode, htarget⟩ := Declaration.mem_references_iff.mp hunit
  have hlinks := links_declaration? ha ht hheader h node hnode
  cases node with
  | reference target name =>
    cases htarget
    obtain ⟨t, -, -, -, hknown⟩ := hlinks
    exact lt_of_known hknown
  | genericReference target name arguments =>
    cases htarget
    obtain ⟨t, -, -, -, hknown⟩ := hlinks
    exact lt_of_known hknown
  | _ => cases htarget

variable {setup : Setup} {roots : List TypeId} {trees : List TypeTree} {built : Nat} {s s' : State}

/-- What the build of a unit discovers: it gives the unit a body that refers to all units that it
adds and to no units that are not known then. -/
structure Discovers (unit : Nat) (s s' : State) : Prop where
  /-- The unit was known. -/
  lt : unit < s.progress.units.size
  /-- Units are added at most. -/
  units : s.progress.units.Extends s'.progress.units
  /-- All other units stay as they were. -/
  others : ∀ i : Nat, i ≠ unit → i < s.progress.units.size →
    s'.progress.units.slots[i]? = s.progress.units.slots[i]?
  /-- What waited behind the unit still waits, before all else. -/
  queue : s.progress.queue.tail <+: s'.progress.queue
  /-- The body refers to what is new, and to nothing unknown. -/
  body : ∃ slot body, s'.progress.units.slots[unit]? = some slot ∧ slot.body = some body ∧
    (∀ other : Nat, s.progress.units.size ≤ other → other < s'.progress.units.size →
      other ∈ body.references) ∧
    ∀ other ∈ body.references, other < s'.progress.units.size

/-- Every build discovers what it adds. -/
theorem State.Sound.step_discovers (h : s.Sound setup roots trees built)
    (hhook : ∀ d, setup.hook d = none) (hqueue : s.progress.queue ≠ [])
    (hstep : step setup s = .ok s') : Discovers built s s' := by
  obtain ⟨g, units, queue⟩ := s
  cases queue with
  | nil => exact absurd rfl hqueue
  | cons pending queue =>
    obtain ⟨hunit, hsource, htree⟩ := h.queue 0 pending rfl
    obtain ⟨header, hentry, hheader⟩ := h.entry _ _ htree
    rw [Nat.add_zero] at hunit hentry
    have hlt : built < units.slots.size := by
      have hlength := (List.getElem?_eq_some_iff.mp hentry).1
      rwa [Registry.length_entries] at hlength
    obtain ⟨⟨declaration, s₁⟩, hbuild, hrest⟩ := bind_eq_ok hstep
    obtain ⟨⟨hgrow, hmeets⟩, hdeclaration⟩ :=
      (buildDeclaration_outcome (s := ⟨g, units, queue⟩) h.graph hhook hsource
        (TypeTree.isNamed_of_header? hheader)).result hbuild
    obtain ⟨-, hextends, -⟩ := (h.step_outcome hhook hqueue).result hstep
    obtain ⟨units', hcomplete, hend⟩ := bind_eq_ok hrest
    cases hend
    dsimp only at hgrow hmeets hdeclaration hcomplete ⊢
    have hadds := hmeets.adds
    have hslot : s₁.progress.units.slots[built]? = some units.slots[built] :=
      (hadds.slots built hlt).trans (Array.getElem?_eq_getElem hlt)
    have hbody : units.slots[built].body = none :=
      h.waiting built _ (Array.getElem?_eq_getElem hlt) (Nat.le_refl _)
    rw [hunit, Registry.complete_eq hslot hbody] at hcomplete
    cases hcomplete
    have hlt' : built < s₁.progress.units.slots.size :=
      Nat.lt_of_lt_of_le hlt hadds.size
    refine ⟨hlt, hextends, fun i hne hi => ?_, hadds.queue, _, _,
      Array.getElem?_setIfInBounds_self_of_lt hlt', rfl, fun other hnew hother => ?_,
      fun other hother => ?_⟩
    · rw [Array.getElem?_setIfInBounds_ne (Ne.symm hne)]
      exact hadds.slots i hi
    · obtain ⟨u, hu, hlookup⟩ := hmeets.exists_met hnew (by simpa [Registry.size] using hother)
      obtain ⟨unit, hknown, hmem⟩ := TypeTree.exists_known_of_mem_dependencies hdeclaration hu
      obtain ⟨other', hlookup', rfl⟩ := Option.map_eq_some_iff.mp hknown
      cases hlookup.symm.trans hlookup'
      refine List.mem_filter.mpr ⟨hmem, ?_⟩
      have hne : other ≠ built := by
        simp only [Registry.size] at hnew
        omega
      simpa using hne
    · have hlt := TypeTree.lt_of_mem_references h.graph.model (h.graph.tree_over hsource) hheader
        hdeclaration (List.mem_filter.mp hother).1
      simpa [Registry.size] using hlt

end Building

/-! ### What a run discovers -/

section Runs

variable {setup : Setup} {roots : List TypeId} {trees : List TypeTree} {s₀ s s' : State}
  {size : Nat → Nat} {n : Nat}

/-- What `n` builds have discovered from the state `s₀` on, when `size i` units were known after
the first `i` of them. -/
structure Discovered (s₀ : State) (size : Nat → Nat) (n : Nat) (s : State) : Prop where
  /-- The units that were known at the start. -/
  start : size 0 = s₀.progress.units.size
  /-- The units that are known now. -/
  now : size n = s.progress.units.size
  /-- Units have been added at most. -/
  units : s₀.progress.units.Extends s.progress.units
  /-- A unit was known before it was built. -/
  lt : ∀ i : Nat, i < n → i < size i
  /-- No build forgets a unit. -/
  le : ∀ i : Nat, i < n → size i ≤ size (i + 1)
  /-- The unit that is built refers to all that it adds, and to nothing that is not known then. -/
  body : ∀ i : Nat, i < n → ∃ slot body, s.progress.units.slots[i]? = some slot ∧
    slot.body = some body ∧
    (∀ other : Nat, size i ≤ other → other < size (i + 1) → other ∈ body.references) ∧
    ∀ other ∈ body.references, other < size (i + 1)
  /-- What waited at the start and has not been built still waits, before all else. -/
  queue : s₀.progress.queue.drop n <+: s.progress.queue

/-- One more build. -/
theorem Discovered.step (h : Discovered s₀ size n s) (hbuild : Discovers n s s') :
    ∃ size', Discovered s₀ size' (n + 1) s' := by
  obtain ⟨size', hsize'⟩ : ∃ size' : Nat → Nat,
      size' = fun i => if i ≤ n then size i else s'.progress.units.size := ⟨_, rfl⟩
  have hold (i : Nat) (hi : i ≤ n) : size' i = size i := by
    rw [hsize']
    exact if_pos hi
  have hnew : size' (n + 1) = s'.progress.units.size := by
    rw [hsize']
    exact if_neg (by omega)
  have hnow := h.now
  refine ⟨size', (hold 0 (by omega)).trans h.start, hnew, h.units.trans hbuild.units,
    fun i hi => ?_, fun i hi => ?_, fun i hi => ?_, ?_⟩
  · rw [hold i (by omega)]
    rcases Nat.lt_succ_iff_lt_or_eq.mp hi with hi | rfl
    · exact h.lt i hi
    · exact hnow ▸ hbuild.lt
  · rw [hold i (by omega)]
    rcases Nat.lt_succ_iff_lt_or_eq.mp hi with hi | rfl
    · rw [hold (i + 1) (by omega)]
      exact h.le i hi
    · rw [hnew, hnow]
      exact hbuild.units.size_le
  · rw [hold i (by omega)]
    rcases Nat.lt_succ_iff_lt_or_eq.mp hi with hi | rfl
    · rw [hold (i + 1) (by omega)]
      obtain ⟨slot, body, hslot, hbody⟩ := h.body i hi
      have hlt : i < s.progress.units.size := (Array.getElem?_eq_some_iff.mp hslot).1
      exact ⟨slot, body, (hbuild.others i (by omega) hlt).trans hslot, hbody⟩
    · rw [hnew, hnow]
      exact hbuild.body
  · refine List.IsPrefix.trans ?_ hbuild.queue
    simpa using h.queue.drop 1

/-- A run discovers units build by build. -/
theorem Run.discovered (h : Run setup n s₀ s) (hsound : s₀.Sound setup roots trees 0)
    (hhook : ∀ d, setup.hook d = none) : ∃ size, Discovered s₀ size n s := by
  induction h with
  | start s =>
    exact ⟨fun _ => s.progress.units.size, rfl, rfl, .refl _, by omega, by omega, by omega,
      List.prefix_refl _⟩
  | build before hqueue hstep ih =>
    obtain ⟨size, hdiscovered⟩ := ih hsound
    obtain ⟨-, trees', hsound'⟩ := before.sound hsound hhook
    rw [Nat.zero_add] at hsound'
    exact hdiscovered.step (hsound'.step_discovers hhook hqueue hstep)

namespace Discovered

/-- The number of known units only grows. -/
theorem mono (h : Discovered s₀ size n s) {i j : Nat} (hij : i ≤ j) (hj : j ≤ n) :
    size i ≤ size j := by
  induction j, hij using Nat.le_induction with
  | base => exact Nat.le_refl _
  | succ j _ ih => exact (ih (by omega)).trans (h.le j (by omega))

/-- Every unit that was not known at the start has been discovered by a build. -/
theorem exists_build (h : Discovered s₀ size n s) {unit : Nat} (hunit : size 0 ≤ unit)
    (hlt : unit < size n) : ∃ i, i < n ∧ size i ≤ unit ∧ unit < size (i + 1) := by
  have hsome : ∃ i, unit < size (i + 1) := by
    cases n with
    | zero => omega
    | succ n => exact ⟨n, hlt⟩
  -- The first build after which the unit is known.
  obtain ⟨i, hi, hfirst⟩ : ∃ i, unit < size (i + 1) ∧ ∀ j < i, ¬ unit < size (j + 1) :=
    ⟨Nat.find hsome, Nat.find_spec hsome, fun j hj => Nat.find_min hsome hj⟩
  have hbefore : size i ≤ unit := by
    cases i with
    | zero => exact hunit
    | succ i => exact Nat.le_of_not_lt (hfirst i (Nat.lt_succ_self i))
  refine ⟨i, ?_, hbefore, hi⟩
  by_contra hni
  cases n with
  | zero => omega
  | succ n => exact hfirst n (by omega) hlt

end Discovered

end Runs

/-! ### Breadth-first order -/

/-- The unit `referrer` is the first one that refers to `unit`. -/
structure FirstReferrer (units : List Completed) (referrer unit : Nat) : Prop where
  /-- It does refer to it. -/
  refers : ∃ first, units[referrer]? = some first ∧ unit ∈ first.body.references
  /-- No unit before it does. -/
  first : ∀ (i : Nat) (other : Completed), units[i]? = some other →
    unit ∈ other.body.references → referrer ≤ i

/-- From the one numbered `count` on, the units are in breadth-first order. -/
structure BreadthFirst (units : List Completed) (count : Nat) : Prop where
  /-- Each of them is referred to by an earlier unit. -/
  referred : ∀ unit : Nat, count ≤ unit → unit < units.length →
    ∃ referrer, referrer < unit ∧ FirstReferrer units referrer unit
  /-- Those that come first have been referred to first. -/
  ordered : ∀ unit other i j : Nat, count ≤ unit → unit ≤ other → other < units.length →
    FirstReferrer units i unit → FirstReferrer units j other → i ≤ j

/-- What has been discovered build by build is in breadth-first order. -/
theorem Discovered.breadthFirst {s₀ s : State} {size : Nat → Nat} {units : List Completed}
    (h : Discovered s₀ size units.length s) (hsize : s.progress.units.size = units.length)
    (hunits : ∀ (i : Nat) (unit : Completed), units[i]? = some unit →
      ∃ slot, s.progress.units.slots[i]? = some slot ∧ slot.body = some unit.body) :
    BreadthFirst units s₀.progress.units.size := by
  have hbody {i : Nat} (hi : i < units.length) :
      (∀ other : Nat, size i ≤ other → other < size (i + 1) →
        other ∈ units[i].body.references) ∧
      ∀ other ∈ units[i].body.references, other < size (i + 1) := by
    obtain ⟨slot, body, hslot, hbody, hrest⟩ := h.body i hi
    obtain ⟨slot', hslot', hbody'⟩ := hunits i units[i] (List.getElem?_eq_getElem hi)
    cases hslot.symm.trans hslot'
    cases hbody.symm.trans hbody'
    exact hrest
  -- A unit is first referred to where it has been discovered.
  have hfirst {unit i : Nat} (hi : i < units.length) (hle : size i ≤ unit)
      (hlt : unit < size (i + 1)) : FirstReferrer units i unit := by
    refine ⟨⟨_, List.getElem?_eq_getElem hi, (hbody hi).1 unit hle hlt⟩, fun j other hj hmem => ?_⟩
    obtain ⟨hjlt, rfl⟩ := List.getElem?_eq_some_iff.mp hj
    by_contra hji
    have hlate : unit < size (j + 1) := (hbody hjlt).2 unit hmem
    have hmono := h.mono (i := j + 1) (j := i) (by omega) (by omega)
    omega
  have hdiscovered {unit : Nat} (hunit : s₀.progress.units.size ≤ unit)
      (hlt : unit < units.length) :
      ∃ i, i < units.length ∧ size i ≤ unit ∧ unit < size (i + 1) ∧
        FirstReferrer units i unit := by
    obtain ⟨i, hi, hle, hlt'⟩ := h.exists_build (h.start ▸ hunit) (by rw [h.now, hsize]; exact hlt)
    exact ⟨i, hi, hle, hlt', hfirst hi hle hlt'⟩
  have hunique {unit i j : Nat} (hi : FirstReferrer units i unit)
      (hj : FirstReferrer units j unit) : i = j := by
    obtain ⟨first, hget, hmem⟩ := hi.refers
    obtain ⟨first', hget', hmem'⟩ := hj.refers
    exact Nat.le_antisymm (hi.first j first' hget' hmem') (hj.first i first hget hmem)
  refine ⟨fun unit hunit hlt => ?_, fun unit other i j hunit hle hlt hi hj => ?_⟩
  · obtain ⟨i, hi, hsizei, -, hreferrer⟩ := hdiscovered hunit hlt
    exact ⟨i, (h.lt i hi).trans_le hsizei, hreferrer⟩
  · obtain ⟨i', hi', hsizei, -, hreferrer⟩ := hdiscovered hunit (hle.trans_lt hlt)
    obtain ⟨j', hj', -, hsizej, hreferrer'⟩ := hdiscovered (hunit.trans hle) hlt
    rw [hunique hi hreferrer, hunique hj hreferrer']
    by_contra hji
    have hmono := h.mono (i := j' + 1) (j := i') (by omega) (by omega)
    omega

end Declgen.Walk
