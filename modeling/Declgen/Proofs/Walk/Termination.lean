import Declgen.Proofs.Document.Names
import Declgen.Proofs.Walk.Depth
import Declgen.Proofs.Walk.Ground

/-!
# Why a walk ends

A walk meets its roots and then builds one unit after the other, always the one that has waited
longest. No unit is queued or built twice, and no two units have the same name, of which there are
only finitely many. So after finitely many builds nothing waits any more, unless a build fails.

A generic record that uses itself with ever larger arguments has no end by itself. It is the limit
on the levels of names that stops it.
-/

namespace Declgen.Walk

open Model Document TypeScript Declgen.Units

variable {setup : Setup} {roots : List TypeId} {a : Arena} {s s' s'' : State} {n n' : Nat}

/-! ### Runs -/

/-- A number of builds, each of the unit that has waited longest, lead from one state to another. -/
inductive Run (setup : Setup) : Nat → State → State → Prop
  /-- Nothing is built. -/
  | start (s : State) : Run setup 0 s s
  /-- One more unit is built. -/
  | build {n : Nat} {s s' s'' : State} (before : Run setup n s s')
      (hqueue : s'.progress.queue ≠ []) (hstep : step setup s' = .ok s'') :
    Run setup (n + 1) s s''

/-- Builds go on from where others have come. -/
theorem Run.trans (h : Run setup n s s') (h' : Run setup n' s' s'') : Run setup (n + n') s s'' := by
  induction h' with
  | start => exact h
  | build _ hqueue hstep ih => exact .build (ih h) hqueue hstep

/-- After some builds the next one fails. -/
def Fails (setup : Setup) (s : State) (e : GenerateError) : Prop :=
  ∃ n s', Run setup n s s' ∧ s'.progress.queue ≠ [] ∧ step setup s' = .error e

/-- A build that fails later fails after more builds. -/
theorem Run.fails {e : GenerateError} (h : Run setup n s s') (hfails : Fails setup s' e) :
    Fails setup s e := by
  obtain ⟨n', s'', hrun, hstep⟩ := hfails
  exact ⟨n + n', s'', h.trans hrun, hstep⟩

/-- A batch is a run that empties the queue or has as many builds as the batch has steps. -/
theorem buildUpTo_run (hqueue : s.progress.queue ≠ []) (k : Nat) :
    Outcome (fun s' => ∃ n, Run setup n s s' ∧ (s'.progress.queue = [] ∨ n = 2 ^ k))
      (Fails setup s) (buildUpTo setup k s) := by
  induction k generalizing s with
  | zero =>
    rw [buildUpTo]
    cases hstep : step setup s with
    | error e => exact ⟨0, s, .start s, hqueue, hstep⟩
    | ok s' => exact ⟨1, .build (.start s) hqueue hstep, .inr rfl⟩
  | succ k ih =>
    rw [buildUpTo]
    refine (ih hqueue).bind fun s₁ h₁ => ?_
    obtain ⟨n, hrun, hn⟩ := h₁
    by_cases hempty : s₁.progress.queue.isEmpty = true
    · simp only [if_pos hempty]
      exact ⟨n, hrun, .inl (List.isEmpty_iff.mp hempty)⟩
    · simp only [if_neg hempty]
      have hqueue₁ : s₁.progress.queue ≠ [] := fun h => hempty (List.isEmpty_iff.mpr h)
      refine (ih hqueue₁).mono (fun s' h' => ?_) fun e => hrun.fails
      obtain ⟨n', hrun', hn'⟩ := h'
      refine ⟨n + n', hrun.trans hrun', hn'.imp_right fun hn' => ?_⟩
      rw [hn', hn.resolve_left hqueue₁, Nat.pow_succ]
      omega

/-- All batches together are a run that empties the queue or is one build shorter than the next
batch would be. -/
theorem buildAll_run (hqueue : s.progress.queue ≠ []) (batches k : Nat) :
    Outcome (fun s' => ∃ n, Run setup n s s' ∧
        (s'.progress.queue = [] ∨ n + 2 ^ k = 2 ^ (k + batches)))
      (Fails setup s) (buildAll setup batches k s) := by
  induction batches generalizing s k with
  | zero => exact ⟨0, .start s, .inr (by simp)⟩
  | succ batches ih =>
    rw [buildAll]
    refine (buildUpTo_run hqueue k).bind fun s₁ h₁ => ?_
    obtain ⟨n, hrun, hn⟩ := h₁
    by_cases hempty : s₁.progress.queue.isEmpty = true
    · simp only [if_pos hempty]
      exact ⟨n, hrun, .inl (List.isEmpty_iff.mp hempty)⟩
    · simp only [if_neg hempty]
      have hqueue₁ : s₁.progress.queue ≠ [] := fun h => hempty (List.isEmpty_iff.mpr h)
      refine (ih hqueue₁ (k + 1)).mono (fun s' h' => ?_) fun e => hrun.fails
      obtain ⟨n', hrun', hn'⟩ := h'
      refine ⟨n + n', hrun.trans hrun', hn'.imp_right fun hn' => ?_⟩
      have hexponent : k + (batches + 1) = k + 1 + batches := by omega
      rw [hexponent, ← hn', hn.resolve_left hqueue₁, Nat.pow_succ]
      omega

/-- A run keeps the invariant of a walk. -/
theorem Run.sound {trees : List TypeTree} {built : Nat} (h : Run setup n s s')
    (hsound : s.Sound setup roots trees built) (hhook : ∀ d, setup.hook d = none) :
    s'.graph.model = s.graph.model ∧ ∃ trees', State.Sound setup roots trees' (built + n) s' := by
  induction h with
  | start => exact ⟨rfl, trees, hsound⟩
  | build _ hqueue hstep ih =>
    obtain ⟨hmodel, trees', hsound'⟩ := ih hsound
    obtain ⟨hgrow, -, hsound''⟩ := (hsound'.step_outcome hhook hqueue).result hstep
    exact ⟨hgrow.model.trans hmodel, hsound''⟩

/-- More builds than there can be units empty the queue. -/
theorem State.Sound.buildAll_run {trees : List TypeTree} {built batches : Nat}
    (h : s.Sound setup roots trees built) (hhook : ∀ d, setup.hook d = none)
    (hbound : ∀ s' trees' built', s'.graph.model = s.graph.model →
      State.Sound setup roots trees' built' s' → trees'.length < 2 ^ batches) :
    Outcome (fun s' => (∃ n, Run setup n s s' ∧ s'.progress.queue = []) ∧
        ∃ units, s'.progress.units.completed = .ok units)
      (Fails setup s) (buildAll setup batches 0 s) := by
  -- When nothing waits, everything has been built.
  have hend {n : Nat} {s' : State} (hrun : Run setup n s s') (hqueue : s'.progress.queue = []) :
      (∃ n, Run setup n s s' ∧ s'.progress.queue = []) ∧
        ∃ units, s'.progress.units.completed = .ok units := by
    obtain ⟨-, trees', hsound⟩ := hrun.sound h hhook
    have hlength := hsound.length
    rw [hqueue, List.length_nil, Nat.add_zero] at hlength
    rw [hlength] at hsound
    obtain ⟨units, hunits, -⟩ := hsound.completed
    exact ⟨⟨n, hrun, hqueue⟩, units, hunits⟩
  by_cases hqueue : s.progress.queue = []
  · rw [buildAll_of_empty hqueue]
    exact hend (.start s) hqueue
  · refine (Walk.buildAll_run hqueue batches 0).weaken fun s' h' => ?_
    obtain ⟨n, hrun, hn⟩ := h'
    refine hend hrun ?_
    rcases hn with hempty | hn
    · exact hempty
    · obtain ⟨hmodel, trees', hsound⟩ := hrun.sound h hhook
      have hlength := hsound.length
      have hlt := hbound s' trees' _ hmodel hsound
      rw [Nat.zero_add, Nat.pow_zero] at hn
      exact List.length_eq_zero_iff.mp (by omega)

/-! ### Roots -/

/-- The state in which nothing has been met. -/
def State.start (a : Arena) : State := ⟨⟨a, #[]⟩, ⟨.empty, []⟩⟩

/-- The roots that have been met are types of the model. -/
theorem lt_of_meetRoots {ids : List TypeId}
    (h : ids.foldlM (meetRoot setup) s = .ok s') : ∀ id : Nat, id ∈ ids → id < s.graph.size := by
  induction ids generalizing s with
  | nil => simp
  | cons id ids ih =>
    have hroot : Outcome (fun s₁ => s₁.graph = s.graph ∧ (id : Nat) < s.graph.size) (fun _ => True)
        (meetRoot setup s id) := by
      unfold meetRoot
      cases hd : s.graph.get id with
      | error e => trivial
      | ok d =>
        have hid := Graph.get_lt hd
        rw [ok_bind]
        cases setup.hook d with
        | some e => exact ⟨rfl, hid⟩
        | none =>
          dsimp only
          split
          all_goals exact (Outcome.any _).bind fun _ _ => ⟨rfl, hid⟩
    rw [List.foldlM_cons] at h
    obtain ⟨s₁, hs₁, h⟩ := bind_eq_ok h
    obtain ⟨hgraph, hid⟩ := hroot.result hs₁
    intro i hi
    rcases List.mem_cons.mp hi with rfl | hi
    · exact hid
    · exact hgraph ▸ ih h i hi

/-! ### Order -/

/-- What holds when `n` units have been built, `definitions` being the number of definitions. -/
structure State.InOrder (options : Options) (definitions : Nat) (a : Arena) (n : Nat) (s : State) :
    Prop where
  /-- The model is the given one. -/
  model : s.graph.model = a
  /-- No recursion over the types is cut off, now or while the next unit is built. -/
  settled : ∀ g, s.graph.Grows g → g.Settled
  /-- There are fewer units than the bound on the number of builds. -/
  bounded : s.progress.units.size < 2 ^ batchBound a
  /-- The first `n` units have been built, and no others. -/
  built : ∀ unit : Nat, s.progress.units.isComplete unit = true ↔ unit < n
  /-- So many units are there. -/
  built_le : n ≤ s.progress.units.size
  /-- All others wait, each of them once. -/
  waiting : s.progress.queue.map (·.unit) = List.range' n (s.progress.units.size - n)
  /-- No identity has two units. -/
  keys : (s.progress.units.entries.map fun entry => entry.1).Nodup
  /-- Every unit has been reserved for a type of at most 32 levels. -/
  reserved : ∀ entry ∈ s.progress.units.entries, ∃ id : Nat, id < s.graph.size ∧
    identity s.graph id = .ok entry.1 ∧ (s.graph.tree id).levels ≤ nameLevels
  /-- Where generic records are preserved, every unit has a definition of its own. -/
  preserved : options.generics = .preserve → ∃ ids : List Nat, ids.Nodup ∧
    (∀ id ∈ ids, id < definitions) ∧
    ids.map (identity s.graph) = s.progress.units.entries.map fun entry => .ok entry.1

/-- A unit belongs to the type at its place. -/
theorem State.Sound.exists_tree {trees : List TypeTree} {built : Nat}
    (h : s.Sound setup roots trees built) {i : Nat} {entry : String × Header}
    (hentry : s.progress.units.entries[i]? = some entry) :
    ∃ t, trees[i]? = some t ∧ entry.1 = t.spelling ∧ t.header? = some entry.2 := by
  have hlt : i < trees.length := by
    rw [← h.size, ← Registry.length_entries]
    exact (List.getElem?_eq_some_iff.mp hentry).1
  obtain ⟨header, hentry', hheader⟩ := h.entry i trees[i] (List.getElem?_eq_getElem hlt)
  rw [hentry] at hentry'
  cases hentry'
  exact ⟨trees[i], List.getElem?_eq_getElem hlt, rfl, hheader⟩

/-- The keys of units are the identities of their types. -/
theorem State.Sound.keys_eq {trees : List TypeTree} {built : Nat}
    (h : s.Sound setup roots trees built) :
    (s.progress.units.entries.map fun entry => entry.1) = trees.map TypeTree.spelling := by
  have hlength : s.progress.units.entries.length = trees.length := by
    rw [Registry.length_entries, h.size]
  refine List.ext_getElem (by simpa using hlength) fun i hi _ => ?_
  rw [List.length_map] at hi
  obtain ⟨t, ht, hkey, -⟩ := h.exists_tree (List.getElem?_eq_getElem hi)
  obtain ⟨hlt, rfl⟩ := List.getElem?_eq_some_iff.mp ht
  rw [List.getElem_map, List.getElem_map, hkey]

/-- Where generic records are preserved, the types of units are definitions of the document. -/
theorem State.Sound.exists_definitions {d : ModelDocument} {m : LoadedModel} (hm : Loaded d m)
    {trees : List TypeTree} {built : Nat} (h : s.Sound setup roots trees built)
    (hmodel : s.graph.model = m.model) (hstyle : setup.options.generics = .preserve) :
    ∃ ids : List Nat, (∀ id ∈ ids, id < d.definitions.length ∧ id < s.graph.size) ∧
      ids.map s.graph.tree = trees := by
  have hone : ∀ t ∈ trees, ∃ id : Nat,
      (id < d.definitions.length ∧ id < s.graph.size) ∧ s.graph.tree id = t := by
    intro t ht
    have hdefinition {id : Nat} {type : Descriptor} {name : String}
        (hget : s.graph.model.get id = .ok type) (hname : type.qualifiedName? = some name)
        (htree : treeOf s.graph.model id s.graph.tree type = t) :
        ∃ id : Nat, (id < d.definitions.length ∧ id < s.graph.size) ∧ s.graph.tree id = t := by
      obtain ⟨definition, hdefinition, -⟩ := hm.definition (hmodel ▸ hget) hname
      have hget' := Graph.get_model hget
      exact ⟨id, ⟨(List.getElem?_eq_some_iff.mp hdefinition).1, Graph.get_lt hget'⟩,
        (h.graph.tree_eq hget').trans htree⟩
    have hreached := h.reached t ht
    obtain ⟨id, hid, htree⟩ := h.source t ht
    have hover := h.graph.tree_over hid
    rw [htree] at hover
    rw [hstyle] at hreached
    rcases hreached.definition with ⟨id, e, rfl⟩ | ⟨id, c, rfl⟩
    · cases hover with
      | enum hget => exact hdefinition hget rfl rfl
    · cases hover with
      | record hget => exact hdefinition hget rfl rfl
  choose! definition hdefinition using hone
  refine ⟨trees.map definition, fun id hid => ?_, ?_⟩
  · obtain ⟨t, ht, rfl⟩ := List.mem_map.mp hid
    exact (hdefinition t ht).1
  · rw [List.map_map]
    exact List.map_congr_left (fun t ht => (hdefinition t ht).2) |>.trans (List.map_id trees)

/-- Every state of a walk is in order. -/
theorem State.Sound.inOrder {d : ModelDocument} {m : LoadedModel} (hm : Loaded d m)
    {trees : List TypeTree} {built : Nat} (h : s.Sound setup roots trees built)
    (hmodel : s.graph.model = m.model) :
    s.InOrder setup.options d.definitions.length m.model built where
  model := hmodel
  settled g hgrow := hgrow.wellFormed.settled
  bounded := by
    rw [h.size, ← hmodel]
    exact h.length_lt
  built unit := by
    have hsize : s.progress.units.slots.size = trees.length := h.size
    have hlength := h.length
    rw [Registry.isComplete]
    cases hslot : s.progress.units.slots[unit]? with
    | none =>
      have hunit := Array.getElem?_eq_none_iff.mp hslot
      simp only [Option.any_none, Bool.false_eq_true, false_iff, Nat.not_lt]
      omega
    | some slot =>
      rw [Option.any_some]
      by_cases hbuilt : unit < built
      · have hlt : unit < trees.length := by omega
        obtain ⟨body, hbody, -⟩ :=
          h.declared unit trees[unit] slot (List.getElem?_eq_getElem hlt) hslot hbuilt
        simp [hbody, hbuilt]
      · simp [h.waiting unit slot hslot (Nat.le_of_not_lt hbuilt), hbuilt]
  built_le := by
    rw [h.size, ← h.length]
    exact Nat.le_add_right _ _
  waiting := by
    rw [h.size, ← h.length, Nat.add_sub_cancel_left]
    refine List.ext_getElem (by simp) fun k hk hk' => ?_
    rw [List.length_map] at hk
    obtain ⟨hunit, -⟩ := h.queue k _ (List.getElem?_eq_getElem hk)
    rw [List.getElem_map, hunit, List.getElem_range', Nat.one_mul]
  keys := h.distinct.keys
  reserved entry hentry := by
    obtain ⟨i, hi⟩ := List.mem_iff_getElem?.mp hentry
    obtain ⟨t, ht, hkey, hheader⟩ := h.exists_tree hi
    obtain ⟨id, hid, rfl⟩ := h.source t (List.mem_of_getElem? ht)
    exact ⟨id, hid, hkey ▸ identity_eq h.graph hid, TypeTree.levels_le_of_header? hheader⟩
  preserved hstyle := by
    obtain ⟨ids, hids, htrees⟩ := h.exists_definitions hm hmodel hstyle
    have hkeys : ids.map (fun id => (s.graph.tree id).spelling) =
        s.progress.units.entries.map fun entry => entry.1 := by
      rw [h.keys_eq, ← htrees, List.map_map]
      rfl
    refine ⟨ids, .of_map _ (hkeys ▸ h.distinct.keys), fun id hid => (hids id hid).1, ?_⟩
    calc ids.map (identity s.graph)
        = (ids.map fun id => (s.graph.tree id).spelling).map .ok := by
          rw [List.map_map]
          exact List.map_congr_left fun id hid => identity_eq h.graph (hids id hid).2
      _ = s.progress.units.entries.map fun entry => .ok entry.1 := by
          rw [hkeys, List.map_map]
          rfl

/-! ### Reached types -/

/-- After a walk of a readable model every type that can be reached has been built. -/
theorem Walked.mem_of_reached {trees : List TypeTree} {units : List Completed}
    (h : Walked setup a roots trees s units) (ha : a.WellFormed) (hreadable : Readable a)
    (hroots : ∀ id : Nat, id ∈ roots → id < a.size) {t : TypeTree}
    (ht : Reached setup.options.generics a roots t) : t ∈ trees := by
  have hmem {t : TypeTree} (ht : Reached setup.options.generics a roots t)
      {unit : UnitId × String} (hknown : known s.progress.units t.spelling = some unit) :
      t ∈ trees :=
    List.mem_of_getElem? (h.unitOf ha hreadable hroots (ht.ground ha hroots) hknown).1
  induction ht with
  | @root id t hid ht =>
    have hcovers := h.covers id hid
    rw [State.Covers, h.model] at hcovers
    obtain ⟨unit, hunit⟩ := hcovers t ht
    exact hmem (.root hid ht) (Option.map_eq_some_iff.mpr ⟨unit, hunit, rfl⟩)
  | @dependency t u ht hu ih =>
    obtain ⟨i, hi⟩ := List.mem_iff_getElem?.mp ih
    obtain ⟨members, hmembers, m, hm, hneeds⟩ := exists_member_of_mem_dependencies hu
    -- The unit of the type has been declared, so each of its members has an expression.
    obtain ⟨_, -, -, hunitOf⟩ := h.exists_unitOf hi
    obtain ⟨e, he⟩ := hunitOf.exists_expr? hmembers hm
    obtain ⟨unit, hknown, -⟩ := TypeTree.exists_link_of_expr? he hneeds
    exact hmem (.dependency ht hu) hknown

/-- A walk of a loaded document from any roots gives units only if the roots are types of the model,
and the units belong to the types that can be reached. -/
theorem walked_of_walk {d : ModelDocument} {m : LoadedModel} (hload : load d = .ok m)
    (hhook : ∀ type, setup.hook type = none) {roots : List TypeId} {units : List Completed}
    (hwalk : walk setup .empty m.model roots = .ok units) :
    (∀ id : Nat, id ∈ roots → id < m.model.size) ∧
      ∃ trees s, Walked setup m.model roots trees s units := by
  obtain ⟨s, hexplore, hcompleted⟩ := bind_eq_ok hwalk
  obtain ⟨s', hs', -⟩ := bind_eq_ok hexplore
  have hlt : ∀ id : Nat, id ∈ roots → id < m.model.size := lt_of_meetRoots hs'
  have hexplored := (explore_outcome (loaded hload).wellFormed hhook hlt).result hexplore
  obtain ⟨trees, hwalked⟩ := hexplored.walked hexplore hcompleted
  exact ⟨hlt, trees, s, hwalked⟩

/-- For a loaded document, any hookless setup and any roots, a walk with a fresh registry ends.
First it meets the roots. Each state after `n` builds is in order: `n` is bounded, each unit waits
and is built once, no recursion over types is cut off, and the names of instantiations have at most
32 levels. The walk gives its units as soon as nothing waits any more, and otherwise the error of a
root or of a build. If a type of more than 32 levels can be reached, it is an error. -/
theorem walk_terminates {d : ModelDocument} {m : LoadedModel} (hload : load d = .ok m)
    (hhook : ∀ type, setup.hook type = none) (roots : List TypeId) :
    (∀ s n s', roots.foldlM (meetRoot setup) (.start m.model) = .ok s → Run setup n s s' →
      s'.InOrder setup.options d.definitions.length m.model n) ∧
    Outcome
      (fun units => ∃ s n s', roots.foldlM (meetRoot setup) (.start m.model) = .ok s ∧
        Run setup n s s' ∧ s'.progress.queue = [] ∧ s'.progress.units.completed = .ok units)
      (fun e => roots.foldlM (meetRoot setup) (.start m.model) = .error e ∨
        ∃ s, roots.foldlM (meetRoot setup) (.start m.model) = .ok s ∧ Fails setup s e)
      (walk setup .empty m.model roots) ∧
    (ReadableDocument d →
      ∀ t, Reached setup.options.generics m.model roots t → nameLevels < t.levels →
        ∃ e, walk setup .empty m.model roots = .error e) := by
  have hloaded := loaded hload
  have hmodel := hloaded.wellFormed
  -- Roots that have been met are types of the model, so the invariant holds after them.
  have hmet {s : State} (hs : roots.foldlM (meetRoot setup) (.start m.model) = .ok s) :
      (∀ id : Nat, id ∈ roots → id < m.model.size) ∧ s.graph.model = m.model ∧
        ∃ trees, State.Sound setup roots trees 0 s := by
    have hlt : ∀ id : Nat, id ∈ roots → id < m.model.size := lt_of_meetRoots hs
    obtain ⟨hadvances, hsound, -⟩ := (meetRoots_outcome (sound_start hmodel) hhook
      fun id hid => ⟨hlt id hid, hid⟩).result hs
    exact ⟨hlt, hadvances.model, hsound⟩
  refine ⟨fun s n s' hs hrun => ?_, ?_, fun hreadable t ht hlevels => ?_⟩
  · obtain ⟨-, hsmodel, trees, hsound⟩ := hmet hs
    obtain ⟨hmodel', trees', hsound'⟩ := hrun.sound hsound hhook
    rw [Nat.zero_add] at hsound'
    exact hsound'.inOrder hloaded (hmodel'.trans hsmodel)
  · have hbound {s : State} {trees : List TypeTree} {built : Nat} (hs : s.graph.model = m.model)
        (h : s.Sound setup roots trees built) : trees.length < 2 ^ batchBound m.model :=
      hs ▸ h.length_lt
    simp only [walk, explore]
    change Outcome _ _ ((roots.foldlM (meetRoot setup) (.start m.model) >>= _) >>= _)
    -- The number of batches is far too large to be computed.
    generalize batchBound m.model = batches at hbound ⊢
    cases hs : roots.foldlM (meetRoot setup) (.start m.model) with
    | error e => exact .inl rfl
    | ok s =>
      obtain ⟨-, hsmodel, trees, hsound⟩ := hmet hs
      have hbuild := hsound.buildAll_run hhook fun s' trees' built' hs' h =>
        hbound (hs'.trans hsmodel) h
      rw [ok_bind]
      refine (hbuild.mono (fun _ h => h) fun e he => .inr ⟨s, rfl, he⟩).bind fun s' h => ?_
      obtain ⟨⟨n, hrun, hqueue⟩, units, hunits⟩ := h
      rw [hunits]
      exact ⟨s, n, s', rfl, hrun, hqueue, hunits⟩
  · cases hwalk : walk setup .empty m.model roots with
    | error e => exact ⟨e, rfl⟩
    | ok units =>
      obtain ⟨hlt, trees, s, hwalked⟩ := walked_of_walk hload hhook hwalk
      obtain ⟨i, hi⟩ := List.mem_iff_getElem?.mp
        (hwalked.mem_of_reached hmodel (hreadable.model hloaded) hlt ht)
      obtain ⟨header, -, hheader⟩ := hwalked.sound.entry i t hi
      exact absurd (TypeTree.levels_le_of_header? hheader) (Nat.not_le_of_lt hlevels)

/-! ### A record without end -/

/-- A generic record that uses itself with a list of its argument, and a record that uses it. -/
def runaway : ModelDocument :=
  ⟨[], [
    .complex ⟨"Node", none, ["T"], none,
      [⟨"next", .generic "Node" [.array (.parameter "T")], false, false, none⟩]⟩,
    .complex ⟨"Holder", none, [], none,
      [⟨"node", .generic "Node" [.primitive .integer], false, false, none⟩]⟩]⟩

/-- The generic record in its model. -/
def runawayNode : ComplexType := ⟨"Node", none, ["T"], none, [⟨"next", 4, false, false, none⟩]⟩

/-- The model of these records. -/
def runawayModel : LoadedModel :=
  ⟨⟨#[some (.complex runawayNode),
      some (.complex ⟨"Holder", none, [], none, [⟨"node", 6, false, false, none⟩]⟩),
      some (.parameter "T"), some (.array 2), some (.instantiation 0 [3]),
      some (.primitive .integer), some (.instantiation 0 [5])]⟩,
    [], [("Node", 0), ("Holder", 1)]⟩

/-- The document that runs away is plain. -/
theorem runaway_plain : PlainDocument runaway := by
  constructor
  · decide +kernel
  · decide +kernel
  · intro definition hdefinition kind
    simp only [runaway, List.mem_cons, List.not_mem_nil, or_false] at hdefinition
    rcases hdefinition with rfl | rfl <;> cases kind <;> decide +kernel
  · intro c hc
    simp only [runaway, List.mem_cons, List.not_mem_nil, or_false, Definition.complex.injEq] at hc
    rcases hc with rfl | rfl <;> decide
  · decide

/-- Numbers in `n` lists within each other. -/
def runawayArray : Nat → TypeTree
  | 0 => .primitive .integer
  | n + 1 => .array (runawayArray n)

/-- The record that holds a number in `n` lists within each other is reached. -/
theorem reached_runaway (n : Nat) : Reached .monomorphize runawayModel.model [1]
    (.instantiation 0 runawayNode [runawayArray n]) := by
  have hclosed (n : Nat) : (runawayArray n).hasParameter = false := by
    induction n with
    | zero => rfl
    | succ n ih => exact ih
  have hneeds (n : Nat) : (TypeTree.instantiation 0 runawayNode [runawayArray n]) ∈
      (TypeTree.instantiation 0 runawayNode [runawayArray n]).needs .monomorphize := by
    simp [TypeTree.needs, hclosed]
  induction n with
  | zero =>
    have hroot : Reached .monomorphize runawayModel.model [1] (modelTree runawayModel.model 1) :=
      .root (List.mem_singleton_self 1) (List.mem_singleton_self _)
    exact hroot.dependency (List.mem_append_left [] (hneeds 0))
  | succ n ih =>
    have hmembers : (TypeTree.instantiation 0 runawayNode [runawayArray n]).members?
        runawayModel.model = some [⟨"next", .instantiation 0 runawayNode [runawayArray (n + 1)],
          false, false, none⟩] := by
      simp only [TypeTree.members?, gather, TypeTree.record?, List.map_cons, List.map_nil,
        TypeTree.replace_nil]
      rfl
    refine ih.dependency ?_
    rw [TypeTree.dependencies, hmembers]
    exact List.mem_append_left [] (hneeds (n + 1))

/-- The walk of these records ends with an error. -/
theorem walk_terminates_runaway :
    ∃ m, load runaway = .ok m ∧ ReadableDocument runaway ∧
      (∀ n, ∃ t, Reached .monomorphize m.model [1] t ∧ n < t.levels) ∧
      ∃ e, walk ⟨{}, fun _ => none⟩ .empty m.model [1] = .error e := by
  have hload : load runaway = .ok runawayModel := rfl
  have hdeep (n : Nat) : n < (runawayArray n).levels := by
    induction n with
    | zero => decide
    | succ n ih => exact Nat.succ_lt_succ ih
  have hlevels (n : Nat) : n < (TypeTree.instantiation 0 runawayNode [runawayArray n]).levels := by
    have := hdeep n
    simp only [TypeTree.levels, TypeTree.mostLevels]
    omega
  have hhook : ∀ type, (Setup.mk {} fun _ => none).hook type = none := fun _ => rfl
  obtain ⟨-, -, hfails⟩ := walk_terminates hload hhook [1]
  exact ⟨runawayModel, hload, runaway_plain.readable,
    fun n => ⟨_, reached_runaway n, hlevels n⟩,
    hfails runaway_plain.readable _ (reached_runaway nameLevels) (hlevels nameLevels)⟩

end Declgen.Walk
