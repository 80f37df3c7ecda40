import Declgen.Proofs.Alike.Runs
import Declgen.Proofs.Walk.Growth

/-!
# The error of a walk

A walk has no choice, so the first build that fails is the only one, and its error is the error of
the walk. This holds for every model, also for one in which types are missing or contain
themselves: units have different names, of which any model has fewer than there are builds.
-/

namespace Declgen.Walk

open Model TypeScript Declgen.Units

variable {setup : Setup} {a : Arena} {roots : List TypeId} {s s' : State} {n : Nat}

/-! ### Counting units -/

/-- What holds after `n` builds: the units are in order and have names of the model, and the types
that have been made are limited. -/
structure State.Counted (a : Arena) (n : Nat) (s : State) : Prop where
  /-- The model does not change. -/
  model : s.graph.model = a
  /-- The types made have no more arguments than those of the model. -/
  tame : s.graph.Tame
  /-- The units that wait are the last ones, and all have different names of the model. -/
  orderly : s.progress.Orderly (unitNames a) 0 n

/-- Nothing has been built at the start. -/
private theorem counted_start (a : Arena) : (State.start a).Counted a 0 :=
  ⟨rfl, Graph.ofModel_tame a, orderly_start .empty⟩

/-- Progress that keeps the units in order. -/
def KeepsOrder (names : Finset String) (n : Nat) (p p' : Progress) : Prop :=
  p.Orderly names 0 n → p'.Orderly names 0 n

instance {names : Finset String} : Std.Refl (KeepsOrder names n) := ⟨fun _ h => h⟩

instance {names : Finset String} : IsTrans Progress (KeepsOrder names n) :=
  ⟨fun _ _ _ h h' hp => h' (h hp)⟩

/-- A unit that is met for the first time has a new name of the model. -/
theorem unitFor_keepsOrder {g : Graph} (hg : g.Tame) (id : TypeId) :
    Leads (KeepsOrder (unitNames g.model) n) (unitFor g id) := by
  refine .lift_bind (Outcome.any _) fun key _ p => ?_
  rw [run_bind_eq (get_run p)]
  cases hlookup : p.units.lookup key with
  | some unit => exact fun h => h
  | none =>
    refine hg.header_mem.lift_bind fun header hname => ?_
    cases hreserve : p.units.reserve key header with
    | error e => trivial
    | ok r =>
      obtain ⟨rfl, hnew⟩ := (Registry.reserve_outcome hlookup).result hreserve
      exact fun h => h.reserve hnew hname

/-- A conversion keeps the units in order. -/
theorem convert_keepsOrder {ctx : Context} (hg : ctx.graph.Tame) (id : TypeId) :
    Leads (KeepsOrder (unitNames ctx.graph.model) n) (convert ctx id) :=
  convertWithin_leads_of (fun id _ _ _ _ => unitFor_keepsOrder hg id)
    (fun _ definition _ _ _ _ _ _ => unitFor_keepsOrder hg definition) _ [] id

namespace State.Counted

/-- Only so many builds can have been done. -/
theorem size_lt (h : s.Counted a n) : s.progress.units.size < 2 ^ batchBound a := by
  have hsize := h.orderly.size_le_card
  have hnames := card_unitNames_lt a
  omega

/-- Meeting a root builds nothing. -/
theorem meetRoot (h : s.Counted a n) (id : TypeId) :
    Outcome (fun s' => s'.Counted a n) (fun _ => True) (meetRoot setup s id) := by
  obtain ⟨rfl, htame, horderly⟩ := h
  refine (meetRoot_leads_of (KeepsOrder (unitNames s.graph.model) n)
    (fun _ _ _ => unitFor_keepsOrder htame id) (convert_keepsOrder htame id)).weaken
    fun s' hs' => ?_
  obtain ⟨hgraph, hkeeps⟩ := hs'
  exact ⟨congrArg Graph.model hgraph, hgraph ▸ htame, hkeeps horderly⟩

/-- Building a declaration completes nothing by itself. -/
theorem buildDeclaration (h : s.Counted a n) (name : String) (source : TypeId) :
    Outcome (fun r => r.2.Counted a n) (fun _ => True)
      (buildDeclaration setup s name source) := by
  obtain ⟨rfl, htame, horderly⟩ := h
  refine (buildDeclaration_leads_of (fun _ => KeepsOrder (unitNames s.graph.model) n)
    (fun g scope id hgraph => ?_) name source).weaken fun r hr => ?_
  · rw [← hgraph.graph.model]
    exact convert_keepsOrder (hgraph.tame htame) id
  · exact ⟨hr.1.graph.model, hr.1.tame htame, hr.2 horderly⟩

/-- A build that succeeds counts. -/
theorem step (h : s.Counted a n) (hqueue : s.progress.queue ≠ []) :
    Outcome (fun s' => s'.Counted a (n + 1)) (fun _ => True) (step setup s) := by
  obtain ⟨g, units, queue⟩ := s
  cases queue with
  | nil => exact absurd rfl hqueue
  | cons waiting queue =>
    obtain ⟨hmodel, htame, horderly⟩ := h
    obtain ⟨hunit, horderly⟩ := horderly.unit_eq
    have hnext : State.Counted a (n + 1) ⟨g, units, queue⟩ := ⟨hmodel, htame, horderly⟩
    rw [Walk.step]
    dsimp only
    refine (hnext.buildDeclaration _ waiting.source).bind fun r hr => ?_
    obtain ⟨declaration, s₁⟩ := r
    obtain ⟨hmodel, htame, horderly⟩ := hr
    rw [hunit]
    exact (horderly.complete declaration declaration.references).bind fun units' hunits =>
      ⟨hmodel, htame, hunits⟩

end State.Counted

/-- Every state of a run is counted. -/
theorem Run.counted {first : Nat} (h : Run setup n s s') (hs : s.Counted a first) :
    s'.Counted a (first + n) := by
  induction h with
  | start => exact hs
  | build _ hqueue hstep ih => exact ((ih hs).step hqueue).result hstep

/-- Nothing has been built when the roots have been met. -/
theorem counted_of_meetRoots (h : roots.foldlM (meetRoot setup) (State.start a) = .ok s) :
    s.Counted a 0 :=
  (Outcome.foldlM (fun _ id hs => hs.meetRoot id) (counted_start a)).result h

/-! ### The result of a walk -/

/-- A walk gives units exactly if its roots can be met and some run from there completes them. -/
theorem walk_eq_ok_iff {units : List Completed} : walk setup .empty a roots = .ok units ↔
    ∃ s n t, roots.foldlM (meetRoot setup) (State.start a) = .ok s ∧ Run setup n s t ∧
      t.progress.units.completed = .ok units := by
  constructor
  · intro h
    obtain ⟨t, hexplore, hunits⟩ := bind_eq_ok h
    obtain ⟨s, hmeet, hbuild⟩ := bind_eq_ok hexplore
    obtain ⟨n, hrun⟩ := exists_run_of_buildAll hbuild
    exact ⟨s, n, t, hmeet, hrun, hunits⟩
  · rintro ⟨s, n, t, hmeet, hrun, hunits⟩
    have ht := hrun.counted (counted_of_meetRoots hmeet)
    have hle := ht.orderly.first_le
    have hlt := ht.size_lt
    rw [Nat.zero_add] at hle
    have hbuild := hrun.buildAll_eq (ht.orderly.queue_eq_nil hunits) (Nat.lt_of_le_of_lt hle hlt)
    rw [walk, explore]
    change ((roots.foldlM (meetRoot setup) (State.start a) >>= _) >>= _) = _
    -- The number of batches is far too large to be computed.
    generalize batchBound a = batches at hbuild ⊢
    rw [hmeet, ok_bind, hbuild, ok_bind, hunits]

/-! ### The first error -/

/-- No two builds fail. -/
theorem Fails.unique {e e' : GenerateError} (h : Fails setup s e) (h' : Fails setup s e') :
    e = e' := by
  obtain ⟨n, t, hrun, hqueue, hstep⟩ := h
  obtain ⟨n', t', hrun', hqueue', hstep'⟩ := h'
  have hlast : t.progress.queue ≠ [] → ∀ u, step setup t ≠ .ok u := by
    intro _ u hok
    cases hstep.symm.trans hok
  obtain ⟨m, -, hrest⟩ := hrun.rest hlast hrun'
  cases m with
  | zero =>
    cases hrest
    cases hstep.symm.trans hstep'
    rfl
  | succ m =>
    obtain ⟨-, u, hu, -⟩ := hrest.head
    cases hstep'.symm.trans hu

/-- Where a build fails, there is no run to a state in which nothing waits. -/
theorem Fails.queue_ne_nil {e : GenerateError} (h : Fails setup s e) (hrun : Run setup n s s') :
    s'.progress.queue ≠ [] := by
  intro hempty
  obtain ⟨n', t, hrun', hqueue, hstep⟩ := h
  obtain ⟨m, -, hrest⟩ := hrun.rest (absurd hempty) hrun'
  cases m with
  | zero =>
    cases hrest
    exact hqueue hempty
  | succ m =>
    obtain ⟨-, u, hu, -⟩ := hrest.head
    cases hstep.symm.trans hu

/-- The error of a build is that of the walk. -/
theorem walk_eq_error_of_fails {e : GenerateError}
    (hmeet : roots.foldlM (meetRoot setup) (State.start a) = .ok s) (h : Fails setup s e) :
    walk setup .empty a roots = .error e := by
  have hcounted := counted_of_meetRoots hmeet
  have hsize {n : Nat} {t : State} (hrun : Run setup n s t) :
      n ≤ t.progress.units.size ∧ t.progress.units.size < 2 ^ batchBound a ∧
        t.progress.queue.length = t.progress.units.size - n := by
    have ht := hrun.counted hcounted
    rw [Nat.zero_add] at ht
    have hlength := congrArg List.length ht.orderly.waiting
    rw [List.length_map, List.length_range'] at hlength
    exact ⟨ht.orderly.first_le, ht.size_lt, hlength⟩
  have hqueue : s.progress.queue ≠ [] := h.queue_ne_nil (.start s)
  rw [walk, explore]
  change ((roots.foldlM (meetRoot setup) (State.start a) >>= _) >>= _) = _
  -- The number of batches is far too large to be computed.
  generalize batchBound a = batches at hsize ⊢
  rw [hmeet, ok_bind]
  have hall : Outcome _ _ (buildAll setup batches 0 s) := buildAll_run hqueue batches 0
  cases hbuild : buildAll setup batches 0 s with
  | error e' =>
    cases (hall.failure hbuild).unique h
    rfl
  | ok t =>
    obtain ⟨n, hrun, hend⟩ := hall.result hbuild
    have hwaiting := h.queue_ne_nil hrun
    obtain ⟨hle, hlt, hlength⟩ := hsize hrun
    have hn := hend.resolve_left hwaiting
    rw [Nat.zero_add, Nat.pow_zero] at hn
    refine absurd (List.length_eq_zero_iff.mp ?_) hwaiting
    omega

end Declgen.Walk
