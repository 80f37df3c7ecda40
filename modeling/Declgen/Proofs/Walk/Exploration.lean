import Declgen.Proofs.Walk.NameBound
import Declgen.Proofs.Walk.Soundness

/-!
# Whole walks

A walk from types of a well-formed model ends with every unit built, or it stops for a possible
cause. It ends in time because every step builds one unit and there are fewer names than steps.
-/

namespace Declgen.Walk

open Model TypeScript Declgen.Units

/-- The unit of a named type is known. -/
def Knows (units : Registry) (t : TypeTree) : Prop := ∃ unit, units.lookup t.spelling = some unit

/-- A unit that is known stays known in a larger registry. -/
theorem Knows.extends {units units' : Registry} {t : TypeTree} (h : Knows units t)
    (hextends : units.Extends units') : Knows units' t := by
  obtain ⟨unit, hunit⟩ := h
  exact ⟨unit, hextends.lookup hunit⟩

/-- What a part of a walk does: the model stays the same, and no unit is lost. -/
structure State.Advances (s s' : State) : Prop where
  /-- The model stays the same. -/
  model : s'.graph.model = s.graph.model
  /-- All units stay known. -/
  units : s.progress.units.Extends s'.progress.units

/-- A part that does nothing loses nothing. -/
theorem State.Advances.refl (s : State) : s.Advances s := ⟨rfl, .refl _⟩

/-- Parts of a walk can be put together. -/
theorem State.Advances.trans {s s' s'' : State} (h : s.Advances s') (h' : s'.Advances s'') :
    s.Advances s'' :=
  ⟨h'.model.trans h.model, h.units.trans h'.units⟩

variable {setup : Setup} {roots : List TypeId} {trees : List TypeTree} {built : Nat} {s : State}

/-- All units that a root needs are known. -/
def State.Covers (style : GenericStyle) (s : State) (id : TypeId) : Prop :=
  ∀ t ∈ (modelTree s.graph.model id).rootNeeds style, Knows s.progress.units t

/-- A root that is covered stays covered. -/
theorem State.Covers.advances {style : GenericStyle} {s s' : State} {id : TypeId}
    (h : s.Covers style id) (hadvances : s.Advances s') : s'.Covers style id := by
  intro t ht
  rw [hadvances.model] at ht
  exact (h t ht).extends hadvances.units

/-! ### Roots -/

/-- A root is met by asking for its unit or by converting it, as its tree says. -/
theorem meetRoot_cases {g : Graph} {p : Progress} (hg : g.WellFormed)
    (hhook : ∀ d, setup.hook d = none) {id : Nat} (hid : id < g.size) :
    ((g.tree id).isNamed = true ∧
      (∀ style, (g.tree id).rootNeeds style = [g.tree id]) ∧
      (∀ style units, (g.tree id).rootExpr? style units = reference? units (g.tree id)) ∧
      meetRoot setup ⟨g, p⟩ id = (do
        let r ← (unitFor g id).run p
        pure ⟨g, r.2⟩)) ∨
    ((∀ style, (g.tree id).rootNeeds style = (g.tree id).needs style) ∧
      (∀ style units, (g.tree id).rootExpr? style units = (g.tree id).expr? style units []) ∧
      meetRoot setup ⟨g, p⟩ id = (do
        let r ← (convert ⟨g, setup.options, setup.hook, []⟩ id).run p
        pure ⟨g, r.2⟩)) := by
  obtain ⟨d, hd, -⟩ := hg.exists_get hid
  have htree := hg.tree_eq hd
  rw [meetRoot, hd, ok_bind, hhook]
  cases d with
  | enum e =>
    rw [htree]
    exact .inl ⟨rfl, fun _ => rfl, fun _ _ => rfl, rfl⟩
  | complex c =>
    rw [htree]
    exact .inl ⟨rfl, fun _ => rfl, fun _ _ => rfl, rfl⟩
  | instantiation definition arguments =>
    obtain ⟨c, hc, -⟩ := hg.definition hd
    rw [hg.tree_instantiation hd hc]
    exact .inr ⟨fun _ => rfl, fun _ _ => rfl, rfl⟩
  | _ =>
    rw [htree]
    exact .inr ⟨fun _ => rfl, fun _ _ => rfl, rfl⟩

/-- Meeting a root makes the units that it needs known. -/
theorem meetRoot_outcome (h : s.Sound setup roots trees built) (hhook : ∀ d, setup.hook d = none)
    {id : Nat} (hid : id < s.graph.model.size) (hroot : id ∈ roots) :
    Outcome (fun s' => s.Advances s' ∧ (∃ trees', State.Sound setup roots trees' built s') ∧
        s'.Covers setup.options.generics id)
      GenerateError.Possible (meetRoot setup s id) := by
  obtain ⟨g, p⟩ := s
  have hsize : id < g.size := Nat.lt_add_right _ hid
  have hmodel := h.graph.modelTree_eq hid
  -- Whatever the root, it is enough that what it needs has been met.
  have hmet {p' : Progress}
      (hmeets : Meets g ((g.tree id).rootNeeds setup.options.generics) p p') :
      State.Advances ⟨g, p⟩ ⟨g, p'⟩ ∧
        (∃ trees', State.Sound setup roots trees' built ⟨g, p'⟩) ∧
        State.Covers setup.options.generics ⟨g, p'⟩ id := by
    refine ⟨⟨rfl, hmeets.extends⟩, h.meets hmeets fun t ht => ?_, fun t ht => ?_⟩
    · exact .root hroot (hmodel ▸ ht)
    · exact hmeets.known (hmodel ▸ ht)
  rcases meetRoot_cases (p := p) h.graph hhook hsize with
    ⟨hnamed, hneeds, -, heq⟩ | ⟨hneeds, -, heq⟩
  · rw [heq]
    exact (unitFor_outcome h.graph hsize hnamed p).bind fun r hr =>
      hmet (hneeds _ ▸ hr.1.single)
  · have hrun : Outcome _ _ ((convert ⟨g, setup.options, setup.hook, []⟩ id).run p) :=
      convert_outcome h.graph hhook hsize p
    rw [heq]
    exact hrun.bind fun r hr => hmet (hneeds _ ▸ hr.1)

/-- A root that has been met can be written. -/
theorem exists_rootExpr?_of_meetRoot (h : s.Sound setup roots trees built)
    (hhook : ∀ d, setup.hook d = none) {id : Nat} (hid : id < s.graph.model.size) {s' : State}
    (hmeet : meetRoot setup s id = .ok s') : ∃ e,
      (modelTree s.graph.model id).rootExpr? setup.options.generics s'.progress.units = some e := by
  obtain ⟨g, p⟩ := s
  have hsize : id < g.size := Nat.lt_add_right _ hid
  rw [h.graph.modelTree_eq hid]
  rcases meetRoot_cases (p := p) h.graph hhook hsize with
    ⟨hnamed, -, hexpr, heq⟩ | ⟨-, hexpr, heq⟩
  · rw [heq] at hmeet
    obtain ⟨r, hr, hmeet⟩ := bind_eq_ok hmeet
    cases hmeet
    have hknown := ((unitFor_outcome h.graph hsize hnamed p).result hr).2
    exact ⟨_, (hexpr _ _).trans (Option.map_eq_some_iff.mpr ⟨_, hknown, rfl⟩)⟩
  · rw [heq] at hmeet
    obtain ⟨r, hr, hmeet⟩ := bind_eq_ok hmeet
    cases hmeet
    have hrun : Outcome _ _ ((convert ⟨g, setup.options, setup.hook, []⟩ id).run p) :=
      convert_outcome h.graph hhook hsize p
    exact ⟨_, (hexpr _ _).trans (hrun.result hr).2⟩

/-- Meeting one root after the other. -/
theorem meetRoots_outcome (h : s.Sound setup roots trees built) (hhook : ∀ d, setup.hook d = none)
    {ids : List TypeId} (hids : ∀ id : Nat, id ∈ ids → id < s.graph.model.size ∧ id ∈ roots) :
    Outcome (fun s' => s.Advances s' ∧ (∃ trees', State.Sound setup roots trees' built s') ∧
        ∀ id ∈ ids, s'.Covers setup.options.generics id)
      GenerateError.Possible (ids.foldlM (meetRoot setup) s) := by
  induction ids generalizing s trees with
  | nil => exact ⟨.refl s, ⟨trees, h⟩, by simp⟩
  | cons id ids ih =>
    obtain ⟨hid, hroot⟩ := hids id (by simp)
    rw [List.foldlM_cons]
    refine (meetRoot_outcome h hhook hid hroot).bind fun s₁ h₁ => ?_
    obtain ⟨hadvances, ⟨trees₁, hsound⟩, hcovers⟩ := h₁
    have hrest : ∀ i : Nat, i ∈ ids → i < s₁.graph.model.size ∧ i ∈ roots := by
      intro i hi
      rw [hadvances.model]
      exact hids i (by simp [hi])
    refine (ih hsound hrest).weaken fun s' h' => ?_
    obtain ⟨hadvances', hsound', hcovers'⟩ := h'
    refine ⟨hadvances.trans hadvances', hsound', fun i hi => ?_⟩
    rcases List.mem_cons.mp hi with rfl | hi
    · exact hcovers.advances hadvances'
    · exact hcovers' i hi

/-- All roots that have been met, one after the other, can be written. -/
theorem exists_rootExpr?_of_meetRoots (h : s.Sound setup roots trees built)
    (hhook : ∀ d, setup.hook d = none) {ids : List TypeId}
    (hids : ∀ id : Nat, id ∈ ids → id < s.graph.model.size ∧ id ∈ roots)
    {s' : State} (hmeet : ids.foldlM (meetRoot setup) s = .ok s') : ∀ id ∈ ids, ∃ e,
      (modelTree s.graph.model id).rootExpr? setup.options.generics s'.progress.units = some e := by
  induction ids generalizing s trees with
  | nil => simp
  | cons id ids ih =>
    obtain ⟨hid, hroot⟩ := hids id (by simp)
    rw [List.foldlM_cons] at hmeet
    obtain ⟨s₁, hs₁, hmeet⟩ := bind_eq_ok hmeet
    obtain ⟨hadvances, ⟨trees₁, hsound₁⟩, -⟩ := (meetRoot_outcome h hhook hid hroot).result hs₁
    have hrest : ∀ i : Nat, i ∈ ids → i < s₁.graph.model.size ∧ i ∈ roots := fun i hi =>
      hadvances.model ▸ hids i (by simp [hi])
    have hadvances' := ((meetRoots_outcome hsound₁ hhook hrest).result hmeet).1
    refine List.forall_mem_cons.mpr ⟨?_, fun i hi => ?_⟩
    · obtain ⟨e, he⟩ := exists_rootExpr?_of_meetRoot h hhook hid hs₁
      exact ⟨e, TypeTree.rootExpr?_extends hadvances'.units he⟩
    · rw [← hadvances.model]
      exact ih hsound₁ hrest hmeet i hi

/-! ### Steps -/

/-- A batch of steps empties the queue or builds as many units as it has steps. -/
theorem buildUpTo_outcome (h : s.Sound setup roots trees built) (hhook : ∀ d, setup.hook d = none)
    (hqueue : s.progress.queue ≠ []) (k : Nat) :
    Outcome (fun s' => s.Advances s' ∧ ∃ trees' built', State.Sound setup roots trees' built' s' ∧
        (s'.progress.queue = [] ∨ built + 2 ^ k ≤ built'))
      GenerateError.Possible (buildUpTo setup k s) := by
  induction k generalizing s trees built with
  | zero =>
    refine (h.step_outcome hhook hqueue).weaken fun s' h' => ?_
    obtain ⟨hgrow, hextends, trees', hsound⟩ := h'
    exact ⟨⟨hgrow.model, hextends⟩, trees', built + 1, hsound, .inr (Nat.le_refl _)⟩
  | succ k ih =>
    rw [buildUpTo]
    refine (ih h hqueue).bind fun s₁ h₁ => ?_
    obtain ⟨hadvances, trees₁, built₁, hsound, hbuilt⟩ := h₁
    by_cases hempty : s₁.progress.queue.isEmpty = true
    · simp only [if_pos hempty]
      exact ⟨hadvances, trees₁, built₁, hsound, .inl (List.isEmpty_iff.mp hempty)⟩
    · simp only [if_neg hempty]
      have hqueue₁ : s₁.progress.queue ≠ [] := fun h => hempty (List.isEmpty_iff.mpr h)
      refine (ih hsound hqueue₁).weaken fun s' h' => ?_
      obtain ⟨hadvances', trees', built', hsound', hbuilt'⟩ := h'
      refine ⟨hadvances.trans hadvances', trees', built', hsound', ?_⟩
      rw [Nat.pow_succ]
      rcases hbuilt with hbuilt | hbuilt
      · exact absurd hbuilt hqueue₁
      · exact hbuilt'.imp_right fun hbuilt' => by omega

/-- All batches together empty the queue or build one unit less than the next batch would. -/
theorem buildAll_outcome (h : s.Sound setup roots trees built) (hhook : ∀ d, setup.hook d = none)
    (hqueue : s.progress.queue ≠ []) (batches k : Nat) :
    Outcome (fun s' => s.Advances s' ∧ ∃ trees' built', State.Sound setup roots trees' built' s' ∧
        (s'.progress.queue = [] ∨ built + 2 ^ (k + batches) ≤ built' + 2 ^ k))
      GenerateError.Possible (buildAll setup batches k s) := by
  induction batches generalizing s trees built k with
  | zero => exact ⟨.refl s, trees, built, h, .inr (Nat.le_refl _)⟩
  | succ batches ih =>
    rw [buildAll]
    refine (buildUpTo_outcome h hhook hqueue k).bind fun s₁ h₁ => ?_
    obtain ⟨hadvances, trees₁, built₁, hsound, hbuilt⟩ := h₁
    by_cases hempty : s₁.progress.queue.isEmpty = true
    · simp only [if_pos hempty]
      exact ⟨hadvances, trees₁, built₁, hsound, .inl (List.isEmpty_iff.mp hempty)⟩
    · simp only [if_neg hempty]
      have hqueue₁ : s₁.progress.queue ≠ [] := fun h => hempty (List.isEmpty_iff.mpr h)
      refine (ih hsound hqueue₁ (k + 1)).weaken fun s' h' => ?_
      obtain ⟨hadvances', trees', built', hsound', hbuilt'⟩ := h'
      refine ⟨hadvances.trans hadvances', trees', built', hsound', ?_⟩
      rcases hbuilt with hbuilt | hbuilt
      · exact absurd hbuilt hqueue₁
      · refine hbuilt'.imp_right fun hbuilt' => ?_
        have hexponent : k + (batches + 1) = k + 1 + batches := by omega
        rw [Nat.pow_succ] at hbuilt'
        rw [hexponent]
        omega

/-- When nothing waits nothing is left to do. -/
theorem buildAll_of_empty (hqueue : s.progress.queue = []) (batches k : Nat) :
    buildAll setup batches k s = .ok s := by
  have hstep : step setup s = .ok s := by
    simp only [step, hqueue]
    rfl
  have hupTo (k : Nat) : buildUpTo setup k s = .ok s := by
    induction k with
    | zero => exact hstep
    | succ k ih =>
      rw [buildUpTo, ih]
      simp only [bind, Except.bind, hqueue, List.isEmpty_nil, if_true]
      rfl
  cases batches with
  | zero => rfl
  | succ batches =>
    rw [buildAll, hupTo k]
    simp only [bind, Except.bind, hqueue, List.isEmpty_nil, if_true]
    rfl

/-- The units of a walk are fewer than its steps could be, since their names differ. -/
theorem State.Sound.length_lt (h : s.Sound setup roots trees built) :
    trees.length < 2 ^ batchBound s.graph.model := by
  have hheaders : ∀ header ∈ s.progress.units.entries.map (·.2),
      ∃ t : TypeTree, t.Over s.graph.model ∧ t.header? = some header := by
    intro header hheader
    obtain ⟨entry, hentry, rfl⟩ := List.mem_map.mp hheader
    obtain ⟨i, hi⟩ := List.mem_iff_getElem?.mp hentry
    have hlt : i < trees.length := by
      rw [← h.size, ← Registry.length_entries]
      exact (List.getElem?_eq_some_iff.mp hi).1
    obtain ⟨header, hi', htheader⟩ := h.entry i trees[i] (List.getElem?_eq_getElem hlt)
    rw [hi] at hi'
    cases hi'
    obtain ⟨id, hid, htree⟩ := h.source trees[i] (List.getElem_mem hlt)
    exact ⟨trees[i], htree ▸ h.graph.tree_over hid, htheader⟩
  have hnames : ((s.progress.units.entries.map (·.2)).map (·.name)).Nodup := by
    rw [List.map_map]
    exact h.distinct.names
  have hlength := length_headers_lt hheaders hnames
  rwa [List.length_map, Registry.length_entries, h.size] at hlength

/-! ### Walks -/

/-- The state at the end of a walk: everything that can be reached has been built. -/
structure Explored (setup : Setup) (a : Arena) (roots : List TypeId) (s : State) : Prop where
  /-- The model is the given one. -/
  model : s.graph.model = a
  /-- All units have been built. -/
  sound : ∃ trees, s.Sound setup roots trees trees.length
  /-- What the roots need is known. -/
  covers : ∀ id ∈ roots, s.Covers setup.options.generics id

variable {a : Arena}

/-- Nothing has been met yet. -/
theorem sound_start (ha : a.WellFormed) :
    State.Sound setup roots [] 0 ⟨⟨a, #[]⟩, ⟨.empty, []⟩⟩ where
  graph := Graph.ofModel_wellFormed ha
  distinct := Registry.distinct_empty
  reached := by simp
  source := by simp
  size := rfl
  entry := by simp
  declared := by simp
  waiting := by simp [Registry.empty]
  length := rfl
  queue := by simp

/-- A walk that starts from types of a well-formed model with a fresh registry ends with all units
built, unless it stops for a possible cause. -/
theorem explore_outcome (ha : a.WellFormed) (hhook : ∀ d, setup.hook d = none)
    (hroots : ∀ id : Nat, id ∈ roots → id < a.size) :
    Outcome (Explored setup a roots) GenerateError.Possible
      (explore setup .empty a roots) := by
  have hbound {s : State} {trees : List TypeTree} {built : Nat} (hmodel : s.graph.model = a)
      (h : s.Sound setup roots trees built) : trees.length < 2 ^ batchBound a :=
    hmodel ▸ h.length_lt
  simp only [explore]
  -- The number of batches is far too large to be computed.
  generalize batchBound a = batches at hbound ⊢
  refine (meetRoots_outcome (sound_start ha) hhook fun id hid => ⟨hroots id hid, hid⟩).bind
    fun s₁ h₁ => ?_
  obtain ⟨hadvances, ⟨trees₁, hsound⟩, hcovers⟩ := h₁
  -- The number of steps is more than enough, so nothing waits at the end.
  have hend : Outcome
      (fun s => s₁.Advances s ∧ ∃ trees, State.Sound setup roots trees trees.length s)
      GenerateError.Possible (buildAll setup batches 0 s₁) := by
    by_cases hqueue : s₁.progress.queue = []
    · rw [buildAll_of_empty hqueue]
      have hlength := hsound.length
      rw [hqueue] at hlength
      exact ⟨.refl s₁, trees₁, hlength ▸ hsound⟩
    · refine (buildAll_outcome hsound hhook hqueue batches 0).weaken fun s h => ?_
      obtain ⟨hadvances', trees, built, hsound', hbuilt⟩ := h
      have hlength := hsound'.length
      have hlt := hbound (hadvances'.model.trans hadvances.model) hsound'
      have hdone : built = trees.length := by
        rcases hbuilt with hempty | hbuilt
        · rwa [hempty] at hlength
        · simp only [Nat.zero_add, Nat.pow_zero] at hbuilt
          omega
      exact ⟨hadvances', trees, hdone ▸ hsound'⟩
  refine hend.weaken fun s h => ?_
  obtain ⟨hadvances', hsound'⟩ := h
  exact ⟨hadvances'.model.trans hadvances.model, hsound',
    fun id hid => (hcovers id hid).advances hadvances'⟩

/-- When all units have been built, every unit is complete. -/
theorem State.Sound.completed (hsound : s.Sound setup roots trees trees.length) :
    ∃ units, s.progress.units.completed = .ok units ∧
      ∀ i : Nat, units[i]? = (s.progress.units.slots[i]?).bind fun slot : Slot =>
        slot.body.map fun body => ⟨i, slot.key, slot.header, body⟩ := by
  refine Registry.completed_eq fun slot hslot => ?_
  obtain ⟨i, hi⟩ := List.mem_iff_getElem?.mp hslot
  have hlt : i < trees.length := by
    rw [← hsound.size, Registry.size, ← Array.length_toList]
    exact (List.getElem?_eq_some_iff.mp hi).1
  rw [Array.getElem?_toList] at hi
  obtain ⟨body, hbody, -⟩ := hsound.declared i trees[i] slot (List.getElem?_eq_getElem hlt) hi hlt
  simp [hbody]

/-- After a walk every unit is complete. -/
theorem Explored.completed (h : Explored setup a roots s) :
    ∃ units, s.progress.units.completed = .ok units ∧
      ∀ i : Nat, units[i]? = (s.progress.units.slots[i]?).bind fun slot : Slot =>
        slot.body.map fun body => ⟨i, slot.key, slot.header, body⟩ := by
  obtain ⟨trees, hsound⟩ := h.sound
  exact hsound.completed

end Declgen.Walk
