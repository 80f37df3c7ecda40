import Declgen.Proofs.Types.Spelling

/-!
# Replacing parameters in a graph

Replacing the parameters of a type adds types to the graph where something changes. It never fails
in a well-formed graph, it keeps the graph well-formed, and on trees it is plain replacement.
-/

namespace Declgen.Walk

open Model

namespace Graph

/-- A graph has grown to another one that is well-formed again. -/
structure Grows (g g' : Graph) : Prop extends g.Extends g' where
  /-- The larger graph is well-formed. -/
  wellFormed : g'.WellFormed

/-- The parameters of bindings with the trees bound to them. -/
def bound (g : Graph) (bindings : Bindings) : List (String × TypeTree) :=
  bindings.map fun binding => (binding.1, g.tree binding.2)

/-- Every type that a parameter is bound to is in the graph. -/
def Holds (g : Graph) (bindings : Bindings) : Prop :=
  ∀ (name : String) (id : Nat), (name, id) ∈ bindings → id < g.size

variable {g g' g'' : Graph} {id : Nat} {d : Descriptor} {bindings : Bindings}

/-- A well-formed graph that stays as it is has grown. -/
theorem WellFormed.grows_refl (hg : g.WellFormed) : g.Grows g := ⟨.refl g, hg⟩

/-- Growth can be put together from steps. -/
theorem Grows.trans (h : g.Grows g') (h' : g'.Grows g'') : g.Grows g'' :=
  ⟨h.toExtends.trans h'.toExtends, h'.wellFormed⟩

/-- Numbers of a graph are numbers of a larger one. -/
theorem Extends.lt_size (h : g.Extends g') (hid : id < g.size) : id < g'.size :=
  Nat.lt_of_lt_of_le hid h.size_le

/-- A larger graph holds the bound types, too. -/
theorem Holds.extends (hb : g.Holds bindings) (h : g.Extends g') : g'.Holds bindings :=
  fun name id hmem => h.lt_size (hb name id hmem)

/-- In a larger graph the bound types read the same. -/
theorem WellFormed.bound_extends (hg : g.WellFormed) (h : g.Extends g') (hb : g.Holds bindings) :
    g'.bound bindings = g.bound bindings := by
  refine List.map_congr_left fun binding hmem => ?_
  rw [hg.tree_extends h (hb binding.1 binding.2 hmem)]

/-- What is bound to a parameter is read in the graph. -/
private theorem lookup_bound (g : Graph) (bindings : Bindings) (name : String) :
    (g.bound bindings).lookup name = (bindings.lookup name).map g.tree :=
  lookup_map_snd g.tree bindings name

/-- A type that is bound to a parameter is in the graph. -/
theorem Holds.of_lookup (hb : g.Holds bindings) {name : String}
    (h : bindings.lookup name = some id) : id < g.size := by
  obtain ⟨before, after, rfl, -⟩ := List.lookup_eq_some_iff.mp h
  exact hb name id (by simp)

/-! ### Adding a type -/

/-- A type that fits the next place can be added. -/
theorem WellFormed.add (hg : g.WellFormed) (hd : d.isComposite = true)
    (hfits : g.model.Fits g.size d) : g.Grows (g.add d).1 ∧ (g.add d).1.get g.size = .ok d := by
  have hnot : ¬ g.model.size + g.made.size < g.model.size := by omega
  refine ⟨⟨⟨rfl, ?_⟩, hg.model, ?_⟩, ?_⟩
  · simp [Graph.add]
  · intro i e hi
    simp only [Graph.add, Array.getElem?_push] at hi
    by_cases hsize : i = g.made.size
    · rw [if_pos hsize] at hi
      subst hsize
      cases hi
      exact ⟨hd, hfits⟩
    · rw [if_neg hsize] at hi
      exact hg.made i e hi
  · simp [Graph.get, Graph.add, Graph.size, hnot]

/-- Whether or not a type is kept, the result stands for the descriptor that was built. -/
theorem keepOrAdd_outcome (hg : g.WellFormed) {unchanged : Bool}
    (hkeep : unchanged = true → g.get id = .ok d) (hd : d.isComposite = true)
    (hfits : g.model.Fits g.size d) {bad : GenerateError → Prop} :
    Outcome (fun r => g.Grows r.2 ∧ r.2.get r.1 = .ok d) bad
      ((keepOrAdd id unchanged d).run g) := by
  cases unchanged with
  | true => exact ⟨hg.grows_refl, hkeep rfl⟩
  | false => exact hg.add hd hfits

end Graph

/-! ### Replacing -/

/-- The type `id` of the graph `g` has become the type `id'` of `g'` by replacing parameters. -/
def Replaces (bindings : Bindings) (id : TypeId) (g : Graph) (id' : TypeId) (g' : Graph) : Prop :=
  g.Grows g' ∧ id' < g'.size ∧ g'.tree id' = (g.tree id).replace (g.bound bindings)

variable {g g' : Graph} {id : Nat} {bindings : Bindings}

/-- Where a type is put together from parts that have been replaced, the whole has been replaced. -/
theorem replaces_keepOrAdd {g₁ : Graph} {d : Descriptor} (hgrow : g.Grows g₁) {unchanged : Bool}
    (hkeep : unchanged = true → g₁.get id = .ok d) (hd : d.isComposite = true)
    (hfits : g₁.model.Fits g₁.size d)
    (htree : treeOf g₁.model id g₁.tree d = (g.tree id).replace (g.bound bindings))
    {bad : GenerateError → Prop} :
    Outcome (fun r => Replaces bindings id g r.1 r.2) bad ((keepOrAdd id unchanged d).run g₁) := by
  refine (Graph.keepOrAdd_outcome hgrow.wellFormed hkeep hd hfits).weaken fun r hr => ?_
  obtain ⟨hgrow', hget⟩ := hr
  refine ⟨hgrow.trans hgrow', Graph.get_lt hget, ?_⟩
  rw [hgrow'.wellFormed.tree_eq hget, ← htree]
  exact hgrow.wellFormed.treeOf_extends hgrow'.toExtends hd hfits

/-- Replacing in one type after the other replaces in all of them. -/
theorem replaces_all {ids ids' : List TypeId} (h : Calls (Replaces bindings) ids g ids' g')
    (hg : g.WellFormed) (hids : ∀ i : Nat, i ∈ ids → i < g.size) (hb : g.Holds bindings) :
    g.Grows g' ∧ (∀ i : Nat, i ∈ ids' → i < g'.size) ∧
      ids'.map g'.tree = (ids.map g.tree).map (TypeTree.replace (g.bound bindings)) := by
  induction h with
  | nil => exact ⟨hg.grows_refl, by simp, rfl⟩
  | @cons i i' ids ids' g g₁ g' head tail ih =>
    obtain ⟨hgrow, hlt, htree⟩ := head
    obtain ⟨hgrow', hlt', htrees⟩ := ih hgrow.wellFormed
      (fun j hj => hgrow.lt_size (hids j (by simp [hj]))) (hb.extends hgrow.toExtends)
    have hhead : g'.tree i' = g₁.tree i' := hgrow.wellFormed.tree_extends hgrow'.toExtends hlt
    have htail : ids.map g₁.tree = ids.map g.tree :=
      List.map_congr_left fun j hj => hg.tree_extends hgrow.toExtends (hids j (by simp [hj]))
    refine ⟨hgrow.trans hgrow', ?_, ?_⟩
    · intro j hj
      rcases List.mem_cons.mp hj with rfl | hj
      · exact hgrow'.lt_size hlt
      · exact hlt' j hj
    · rw [List.map_cons, hhead, htree, htrees, htail, hg.bound_extends hgrow.toExtends hb]
      rfl

/-- A look that is deep enough replaces in the whole tree of a type and does not fail. -/
theorem substituteWithin_outcome (hg : g.WellFormed) {depth : Nat} {above : List TypeId}
    (hid : id < g.size) (hdepth : id < depth) (habove : ∀ a : Nat, a ∈ above → id < a)
    (hb : g.Holds bindings) {bad : GenerateError → Prop} :
    Outcome (fun r => Replaces bindings id g r.1 r.2) bad
      ((substituteWithin bindings depth above id).run g) := by
  induction depth generalizing g id above with
  | zero => omega
  | succ depth ih =>
    obtain ⟨d, hd, hfits⟩ := hg.exists_get hid
    -- A part may be reached after other parts have been added.
    have hpart {g₁ : Graph} (hgrow : g.Grows g₁) (i : Nat) (hi : i < id) :
        Outcome (fun r => Replaces bindings i g₁ r.1 r.2) bad
          ((substituteWithin bindings depth (id :: above) i).run g₁) :=
      ih hgrow.wellFormed (hgrow.lt_size (by omega)) (by omega) (lt_of_mem_above hi habove)
        (hb.extends hgrow.toExtends)
    have htree := hg.tree_eq hd
    rw [substituteWithin, if_neg (contains_above_eq_false habove)]
    simp only [StateT.run_bind, StateT.run_get, pure_bind]
    rw [hd]
    change Outcome _ _ (StateT.run _ g)
    cases d with
    | primitive kind => exact ⟨hg.grows_refl, hid, by rw [htree]; rfl⟩
    | enum e => exact ⟨hg.grows_refl, hid, by rw [htree]; rfl⟩
    | complex c => exact ⟨hg.grows_refl, hid, by rw [htree]; rfl⟩
    | parameter name =>
      change Replaces bindings id g ((bindings.lookup name).getD id) g
      unfold Replaces
      rw [htree, treeOf, TypeTree.replace, Graph.lookup_bound]
      cases hlookup : bindings.lookup name with
      | none => exact ⟨hg.grows_refl, hid, htree⟩
      | some argument => exact ⟨hg.grows_refl, hb.of_lookup hlookup, rfl⟩
    | nullable inner =>
      simp only [StateT.run_bind]
      refine (hpart hg.grows_refl inner hfits).bind fun r hr => ?_
      obtain ⟨hgrow, hlt, hr⟩ := hr
      refine replaces_keepOrAdd (d := .nullable r.1) hgrow (fun heq => ?_) rfl hlt ?_
      · rw [eq_of_beq heq]
        exact hgrow.get hd
      · simp only [htree, treeOf, TypeTree.replace, hr]
    | array element =>
      simp only [StateT.run_bind]
      refine (hpart hg.grows_refl element hfits).bind fun r hr => ?_
      obtain ⟨hgrow, hlt, hr⟩ := hr
      refine replaces_keepOrAdd (d := .array r.1) hgrow (fun heq => ?_) rfl hlt ?_
      · rw [eq_of_beq heq]
        exact hgrow.get hd
      · simp only [htree, treeOf, TypeTree.replace, hr]
    | dictionary key value =>
      have hvalue : value < g.size := Nat.lt_trans hfits.2 hid
      simp only [StateT.run_bind]
      refine (hpart hg.grows_refl key hfits.1).bind fun r hr => ?_
      obtain ⟨hgrow, hlt, hr⟩ := hr
      refine (hpart hgrow value hfits.2).bind fun r' hr' => ?_
      obtain ⟨hgrow', hlt', hr'⟩ := hr'
      rw [hgrow.wellFormed.tree_extends hgrow'.toExtends hlt |>.symm] at hr
      rw [hg.tree_extends hgrow.toExtends hvalue, hg.bound_extends hgrow.toExtends hb] at hr'
      refine replaces_keepOrAdd (d := .dictionary r.1 r'.1) (hgrow.trans hgrow')
        (fun heq => ?_) rfl ⟨hgrow'.lt_size hlt, hlt'⟩ ?_
      · rw [Bool.and_eq_true, beq_iff_eq, beq_iff_eq] at heq
        rw [heq.1, heq.2]
        exact (hgrow.trans hgrow').get hd
      · simp only [htree, treeOf, TypeTree.replace, hr, hr']
    | instantiation definition arguments =>
      obtain ⟨hdefinition, harguments, hinstantiates, c, hc, hlength⟩ := hfits
      have harguments' (i : Nat) (hi : i ∈ arguments) : i < g.size :=
        Nat.lt_trans (harguments i hi) hid
      simp only [StateT.run_bind]
      refine (Outcome.mapM_calls (Replaces bindings) g.Grows
        (fun i hi g₁ hgrow => (hpart hgrow i (harguments i hi)).weaken fun r hr =>
          ⟨hr, hgrow.trans hr.1⟩) hg.grows_refl).bind fun r hr => ?_
      obtain ⟨hgrow, hlt, htrees⟩ := replaces_all hr.1 hg harguments' hb
      have hlength' : r.1.length = arguments.length := by
        simpa using congrArg List.length htrees
      have hc' : r.2.model.get definition = .ok (.complex c) := by rw [hgrow.model, hc]
      refine replaces_keepOrAdd (d := .instantiation definition r.1) hgrow (fun heq => ?_) rfl
        ⟨hgrow.lt_size (by omega), hlt, hgrow.model ▸ hinstantiates, c, hc', by omega⟩ ?_
      · rw [eq_of_beq heq]
        exact hgrow.get hd
      · simp only [htree, treeOf, hc, hc', TypeTree.replace, TypeTree.replaceAll_eq_map, htrees]

/-- The bound on the depth is larger than every number of a type. -/
theorem Graph.size_lt_depthBound (g : Graph) : g.size < g.depthBound := by
  have hsquare := Nat.le_mul_self (g.size + 1)
  unfold Graph.depthBound
  omega

/-- Replacing parameters in a type of a well-formed graph does not fail. -/
theorem substitute_outcome (hg : g.WellFormed) (hid : id < g.size) (hb : g.Holds bindings)
    {bad : GenerateError → Prop} :
    Outcome (fun r => Replaces bindings id g r.1 r.2) bad ((substitute bindings id).run g) := by
  unfold substitute
  cases bindings with
  | nil => exact ⟨hg.grows_refl, hid, by simp [Graph.bound]⟩
  | cons binding bindings =>
    have hdepth : id < g.depthBound := Nat.lt_trans hid g.size_lt_depthBound
    have habove : ∀ a : Nat, a ∈ ([] : List TypeId) → id < a := by simp
    exact substituteWithin_outcome hg hid hdepth habove hb

end Declgen.Walk
