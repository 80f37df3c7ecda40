import Declgen.Proofs.Alike.Units
import Declgen.Proofs.Walk.Termination

/-!
# What a generation depends on

A walk over one model and a walk over another one, from roots that say the same, do the same builds
in the same order. So a generation depends on what the types say, and not on how they are numbered,
which of them are shared, or how long the circles are that they form.
-/

namespace Declgen.Walk

open Model Declgen.Units

variable {setup : Setup} {a a' : Arena} {same : TypeId → TypeId → Prop} {old first n n' : Nat}
  {s s' t t' : State}

/-! ### Runs without choice -/

/-- A run starts with the build of the unit that has waited longest. -/
theorem Run.head (h : Run setup (n + 1) s t) :
    s.progress.queue ≠ [] ∧ ∃ u, step setup s = .ok u ∧ Run setup n u t := by
  induction n generalizing t with
  | zero =>
    obtain _ | ⟨before, hqueue, hstep⟩ := h
    cases before
    exact ⟨hqueue, t, hstep, .start t⟩
  | succ n ih =>
    obtain _ | ⟨before, hqueue, hstep⟩ := h
    obtain ⟨hqueue', u, hu, hrest⟩ := ih before
    exact ⟨hqueue', u, hu, .build hrest hqueue hstep⟩

/-- Of a run that cannot go on, every other run is the first part. -/
theorem Run.rest (h : Run setup n s t)
    (ht : t.progress.queue ≠ [] → ∀ u, step setup t ≠ .ok u) (h' : Run setup n' s t') :
    ∃ m, n' + m = n ∧ Run setup m t' t := by
  induction h' with
  | start => exact ⟨n, Nat.zero_add n, h⟩
  | @build n' s u t' before hqueue hstep ih =>
    obtain ⟨m, hm, hrest⟩ := ih h
    cases m with
    | zero =>
      cases hrest
      exact absurd hstep (ht hqueue _)
    | succ m =>
      obtain ⟨-, v, hv, hrest⟩ := hrest.head
      cases hstep.symm.trans hv
      exact ⟨m, by omega, hrest⟩

/-- Batches that are enough for a run do what the run does. -/
theorem Run.buildAll_eq (h : Run setup n s t) (ht : t.progress.queue = []) {batches : Nat}
    (hn : n < 2 ^ batches) : buildAll setup batches 0 s = .ok t := by
  -- A state that is as far as the run has come is its end.
  have hlast {n' : Nat} {u : State} (hrest : ∃ m, n' + m = n ∧ Run setup m u t)
      (hn' : n ≤ n') : u = t := by
    obtain ⟨m, hm, hrest⟩ := hrest
    obtain rfl : m = 0 := by omega
    cases hrest
    rfl
  by_cases hqueue : s.progress.queue = []
  · rw [buildAll_of_empty hqueue]
    cases n with
    | zero =>
      cases h
      rfl
    | succ n => exact absurd hqueue h.head.1
  · have hall : Outcome _ _ (buildAll setup batches 0 s) := buildAll_run hqueue batches 0
    cases hbuild : buildAll setup batches 0 s with
    | error e =>
      obtain ⟨n', u, hrun, hwaiting, hstep⟩ := hall.failure hbuild
      obtain ⟨m, -, hrest⟩ := h.rest (absurd ht) hrun
      cases m with
      | zero =>
        cases hrest
        exact absurd ht hwaiting
      | succ m =>
        obtain ⟨-, v, hv, -⟩ := hrest.head
        cases hstep.symm.trans hv
    | ok u =>
      obtain ⟨n', hrun, hend⟩ := hall.result hbuild
      obtain ⟨m, hm, hrest⟩ := h.rest (absurd ht) hrun
      rcases hend with hempty | hmany
      · cases m with
        | zero =>
          cases hrest
          rfl
        | succ m => exact absurd hempty hrest.head.1
      · rw [Nat.zero_add, Nat.pow_zero] at hmany
        rw [hlast ⟨m, hm, hrest⟩ (by omega)]

/-- What batches do is a run. -/
theorem exists_run_of_buildAll {batches : Nat} (h : buildAll setup batches 0 s = .ok t) :
    ∃ n, Run setup n s t := by
  by_cases hqueue : s.progress.queue = []
  · rw [buildAll_of_empty hqueue] at h
    cases h
    exact ⟨0, .start s⟩
  · obtain ⟨n, hrun, -⟩ := (buildAll_run hqueue batches 0).result h
    exact ⟨n, hrun⟩

/-! ### Walks side by side -/

/-- Where each build of one walk is followed by a build of another one, so is each run. What relates
the two walks may depend on the number of builds. -/
theorem Run.simulate {setup' : Setup} (h : Run setup n s t) (related : Nat → State → State → Prop)
    (first : Nat) (hbuild : ∀ k u u', related k u u' → u.progress.queue ≠ [] →
      u'.progress.queue ≠ [] ∧ Follows (related (k + 1)) (step setup u) (step setup' u'))
    (hs : related first s s') : ∃ t', Run setup' n s' t' ∧ related (first + n) t t' := by
  induction h with
  | start => exact ⟨s', .start s', hs⟩
  | @build n s u t before hqueue hstep ih =>
    obtain ⟨u', hrun', hu⟩ := ih hs
    obtain ⟨hqueue', hfollows⟩ := hbuild _ u u' hu hqueue
    obtain ⟨t', hstep', ht⟩ := hfollows t hstep
    exact ⟨t', .build hrun' hqueue' hstep', ht⟩

/-- A run of one walk is followed by a run of the other one. -/
theorem Run.follows (hhook : ∀ d, setup.hook d = none) (h : Run setup n s t)
    (hs : Abreast a old first s s') :
    ∃ t', Run setup n s' t' ∧ Abreast a old (first + n) t t' :=
  h.simulate (Abreast a old) first (fun _ _ _ hu hqueue =>
    ⟨ne_nil_of_forall₂ hu.queue hqueue, step_follows hhook hu hqueue⟩) hs

/-- Where one walk succeeds, so does the other one, with the same units. -/
theorem walk_follows (h : a.Corresponds a' same) (hhook : ∀ d, setup.hook d = none)
    {roots roots' : List TypeId} (hroots : List.Forall₂ same roots roots') (registry : Registry) :
    Follows Eq (walk setup registry a roots) (walk setup registry a' roots') := by
  intro units hwalk
  obtain ⟨s, hexplore, hunits⟩ := bind_eq_ok hwalk
  obtain ⟨s₀, hmet, hbuild⟩ := bind_eq_ok hexplore
  have hstart : Met (.ofModel a) (.ofModel a') registry.size registry.size
      ⟨.ofModel a, ⟨registry, []⟩⟩ ⟨.ofModel a', ⟨registry, []⟩⟩ :=
    ⟨rfl, rfl, rfl, .nil, orderly_start registry, Graph.ofModel_tame a'⟩
  obtain ⟨s₀', hmet', hs₀⟩ := Follows.foldlM hroots
    (fun i j hij _ _ ht => meetRoot_follows hhook ht (alike_of_corresponds h hij)) hstart s₀ hmet
  obtain ⟨n, hrun⟩ := exists_run_of_buildAll hbuild
  obtain ⟨s', hrun', hs⟩ : ∃ s', Run setup n s₀' s' ∧
      Abreast a' registry.size (registry.size + n) s s' := hrun.follows hhook hs₀.abreast
  -- All units of the second walk have been completed, too, so nothing waits, and its names bound
  -- the number of builds.
  rw [hs.units] at hunits
  have hempty := hs.orderly.queue_eq_nil hunits
  have hbound : n < 2 ^ batchBound a' := by
    have hcard := hs.orderly.first_le_card
    have hlt := card_unitNames_lt a'
    rw [hs.model] at hcard
    omega
  have hbuild' := hrun'.buildAll_eq hempty hbound
  refine ⟨units, ?_, rfl⟩
  rw [walk, explore]
  change ((roots'.foldlM (meetRoot setup) ⟨.ofModel a', ⟨registry, []⟩⟩ >>= _) >>= _) = _
  -- The number of batches is far too large to be computed.
  generalize batchBound a' = batches at hbuild' ⊢
  rw [hmet', ok_bind, hbuild', ok_bind, hunits]

/-- Without a hook, whatever the options and the registry to start with, walks and generations over
two models whose types correspond, from roots that are related one by one, succeed together, with
the same units and the same files. -/
theorem walk_alike (h : a.Corresponds a' same) (hhook : ∀ d, setup.hook d = none)
    {roots roots' : List TypeId} (hroots : List.Forall₂ same roots roots') (registry : Registry) :
    (∀ units, walk setup registry a roots = .ok units ↔
        walk setup registry a' roots' = .ok units) ∧
      ∀ generation, generate setup registry a roots = .ok generation ↔
        generate setup registry a' roots' = .ok generation := by
  have hwalk := walk_follows h hhook hroots registry
  have hwalk' := walk_follows h.flip hhook hroots.flip registry
  have hgenerate {x y : Except GenerateError (List Completed)} (hxy : Follows Eq x y) :
      Follows Eq (x >>= fun units => pure (Generation.mk units (Plan.files setup.options units)))
        (y >>= fun units => pure (Generation.mk units (Plan.files setup.options units))) :=
    hxy.bind fun units units' hunits => .pure (by rw [hunits])
  have hiff {α : Type} {x y : Except GenerateError α} (hxy : Follows Eq x y)
      (hyx : Follows Eq y x) (result : α) : x = .ok result ↔ y = .ok result := by
    constructor
    · intro hx
      obtain ⟨_, hy, rfl⟩ := hxy result hx
      exact hy
    · intro hy
      obtain ⟨_, hx, rfl⟩ := hyx result hy
      exact hx
  exact ⟨hiff hwalk hwalk', hiff (hgenerate hwalk) (hgenerate hwalk')⟩

/-! ### A circle of one record and a circle of two -/

/-- A record with a list of itself and a box of itself. -/
def loopModel : Arena :=
  ⟨#[some (.complex ⟨"Tree", none, [], none,
        [⟨"children", 1, false, false, none⟩, ⟨"box", 3, true, false, none⟩]⟩),
    some (.array 0),
    some (.complex ⟨"Box", none, ["T"], none, [⟨"values", 5, false, false, none⟩]⟩),
    some (.instantiation 2 [0]), some (.parameter "T"), some (.array 4)]⟩

/-- The same record twice, each with a list of the other one, in another order. -/
def twoLoopModel : Arena :=
  ⟨#[some (.parameter "T"),
    some (.complex ⟨"Tree", none, [], none,
      [⟨"children", 2, false, false, none⟩, ⟨"box", 4, true, false, none⟩]⟩),
    some (.array 3),
    some (.complex ⟨"Tree", none, [], none,
      [⟨"children", 5, false, false, none⟩, ⟨"box", 4, true, false, none⟩]⟩),
    some (.instantiation 6 [3]), some (.array 1),
    some (.complex ⟨"Box", none, ["T"], none, [⟨"values", 7, false, false, none⟩]⟩),
    some (.array 0)]⟩

/-- Which types of the two models say the same. -/
def loopPairs : List (TypeId × TypeId) :=
  [(0, 1), (0, 3), (1, 2), (1, 5), (2, 6), (3, 4), (4, 0), (5, 7)]

/-- The pairs are a correspondence: types of a pair match, and they refer to types of pairs only. -/
theorem loop_corresponds :
    loopModel.Corresponds twoLoopModel fun i j => (i, j) ∈ loopPairs where
  matching i j hij := by
    simp only [loopPairs, List.mem_cons, Prod.mk.injEq, List.not_mem_nil, or_false] at hij
    have htree (k : TypeId) (hk : (1, k) ∈ loopPairs) : Descriptor.Matches
        (fun i j => (i, j) ∈ loopPairs)
        (.complex ⟨"Tree", none, [], none,
          [⟨"children", 1, false, false, none⟩, ⟨"box", 3, true, false, none⟩]⟩)
        (.complex ⟨"Tree", none, [], none,
          [⟨"children", k, false, false, none⟩, ⟨"box", 4, true, false, none⟩]⟩) :=
      .complex ⟨rfl, rfl, rfl, .none,
        .cons ⟨rfl, hk, rfl, rfl, rfl⟩ (.cons ⟨rfl, by decide, rfl, rfl, rfl⟩ .nil)⟩
    rcases hij with ⟨rfl, rfl⟩ | ⟨rfl, rfl⟩ | ⟨rfl, rfl⟩ | ⟨rfl, rfl⟩ | ⟨rfl, rfl⟩ | ⟨rfl, rfl⟩ |
      ⟨rfl, rfl⟩ | ⟨rfl, rfl⟩
    · exact ⟨_, _, rfl, rfl, htree 2 (by decide)⟩
    · exact ⟨_, _, rfl, rfl, htree 5 (by decide)⟩
    · exact ⟨_, _, rfl, rfl, .array (by decide)⟩
    · exact ⟨_, _, rfl, rfl, .array (by decide)⟩
    · exact ⟨_, _, rfl, rfl, .complex ⟨rfl, rfl, rfl, .none,
        .cons ⟨rfl, by decide, rfl, rfl, rfl⟩ .nil⟩⟩
    · exact ⟨_, _, rfl, rfl, .instantiation (by decide) (.cons (by decide) .nil)⟩
    · exact ⟨_, _, rfl, rfl, .parameter "T"⟩
    · exact ⟨_, _, rfl, rfl, .array (by decide)⟩
  record i j definition arguments hij hi := by
    simp only [loopPairs, List.mem_cons, Prod.mk.injEq, List.not_mem_nil, or_false] at hij
    rcases hij with ⟨rfl, rfl⟩ | ⟨rfl, rfl⟩ | ⟨rfl, rfl⟩ | ⟨rfl, rfl⟩ | ⟨rfl, rfl⟩ | ⟨rfl, rfl⟩ |
      ⟨rfl, rfl⟩ | ⟨rfl, rfl⟩
    all_goals cases hi
    exact ⟨_, rfl⟩

/-- The record and its box as units. -/
def loopUnits : List Completed :=
  [⟨0, "Tree", ⟨"Tree", none, []⟩,
      ⟨.alias "Tree" [] (.object [⟨"children", .array (.reference 0 "Tree"), false, none⟩,
        ⟨"box", .reference 1 "BoxOfTree", true, none⟩]), [1]⟩⟩,
    ⟨1, "Box\x601[Tree]", ⟨"BoxOfTree", none, []⟩,
      ⟨.alias "BoxOfTree" [] (.object [⟨"values", .array (.reference 0 "Tree"), false, none⟩]),
        [0]⟩⟩]

/-- From the record of the one circle and from the second record of the other one the same units
and files are generated. -/
theorem walk_alike_loop :
    walk ⟨{}, fun _ => none⟩ .empty loopModel [0] = .ok loopUnits ∧
      walk ⟨{}, fun _ => none⟩ .empty twoLoopModel [3] = .ok loopUnits ∧
      generate ⟨{}, fun _ => none⟩ .empty twoLoopModel [3] =
        .ok ⟨loopUnits, Plan.files {} loopUnits⟩ := by
  have hwalk : walk ⟨{}, fun _ => none⟩ .empty loopModel [0] = .ok loopUnits := by decide +kernel
  have hgenerate : generate ⟨{}, fun _ => none⟩ .empty loopModel [0] =
      .ok ⟨loopUnits, Plan.files {} loopUnits⟩ := by
    rw [generate, hwalk]
    rfl
  have hhook : ∀ d, (Setup.mk {} fun _ => none).hook d = none := fun _ => rfl
  have hroots : List.Forall₂ (fun i j => (i, j) ∈ loopPairs) [0] [3] := .cons (by decide) .nil
  obtain ⟨hunits, hgeneration⟩ := walk_alike loop_corresponds hhook hroots .empty
  exact ⟨hwalk, (hunits _).mp hwalk, (hgeneration _).mp hgenerate⟩

end Declgen.Walk
