import Declgen.Proofs.Walk.Declarations
import Declgen.Walk.Run

/-!
# The invariant of a walk

Units are built in the order in which they were met, so at any time the first ones are built and
all others wait in the queue. Every unit belongs to a type that can be reached from the roots: it
has the key and the header of its tree, and once it is built it has the declaration of its tree.
-/

namespace Declgen.Walk

open Model TypeScript Declgen.Units

/-- The named types that a root makes a walk meet. -/
def TypeTree.rootNeeds (style : GenericStyle) : TypeTree → List TypeTree
  | .enum id e => [.enum id e]
  | .record id c => [.record id c]
  | t => t.needs style

/-- What a walk writes for a root: a reference to a record or an enumeration, and the expression of
any other type. -/
def TypeTree.rootExpr? (style : GenericStyle) (units : Registry) : TypeTree → Option Expr
  | .enum id e => reference? units (.enum id e)
  | .record id c => reference? units (.record id c)
  | t => t.expr? style units []

/-- What is written for a root stays the same when more units are known. -/
theorem TypeTree.rootExpr?_extends {style : GenericStyle} {units units' : Registry} {t : TypeTree}
    {e : Expr} (h : units.Extends units') (he : t.rootExpr? style units = some e) :
    t.rootExpr? style units' = some e := by
  cases t with
  | enum id type => exact reference?_extends h he
  | record id c => exact reference?_extends h he
  | _ => exact expr?_extends h he

/-- The named types that can be reached from the roots: those that a root needs, and those that
the declaration of a reached type needs. -/
inductive Reached (style : GenericStyle) (a : Arena) (roots : List TypeId) : TypeTree → Prop
  /-- A type that a root needs. -/
  | root {id : TypeId} {t : TypeTree} (hid : id ∈ roots)
      (ht : t ∈ (modelTree a id).rootNeeds style) : Reached style a roots t
  /-- A type that a declaration needs. -/
  | dependency {t u : TypeTree} (ht : Reached style a roots t)
      (hu : u ∈ t.dependencies style a) : Reached style a roots u

/-- The state of a walk whose units belong to the types `trees`, the first `built` of which have
been built. -/
structure State.Sound (setup : Setup) (roots : List TypeId) (trees : List TypeTree) (built : Nat)
    (s : State) : Prop where
  /-- The graph is well-formed. -/
  graph : s.graph.WellFormed
  /-- No key and no name is repeated. -/
  distinct : s.progress.units.Distinct
  /-- Every type can be reached. -/
  reached : ∀ t ∈ trees, Reached setup.options.generics s.graph.model roots t
  /-- Every type is in the graph. -/
  source : ∀ t ∈ trees, ∃ id : Nat, id < s.graph.size ∧ s.graph.tree id = t
  /-- There is one unit for each type. -/
  size : s.progress.units.size = trees.length
  /-- A unit has the key and the header of its type. -/
  entry : ∀ (i : Nat) (t : TypeTree), trees[i]? = some t →
    ∃ header, s.progress.units.entries[i]? = some (t.spelling, header) ∧ t.header? = some header
  /-- A unit that has been built has the declaration of its type, and refers to the other units
  in it. -/
  declared : ∀ (i : Nat) (t : TypeTree) (slot : Slot), trees[i]? = some t →
    s.progress.units.slots[i]? = some slot → i < built →
    ∃ body, slot.body = some body ∧
      t.declaration? setup.options s.graph.model s.progress.units slot.header.name =
        some body.declaration ∧
      body.references = body.declaration.references.filter (· != i)
  /-- All other units lack their bodies. -/
  waiting : ∀ (i : Nat) (slot : Slot), s.progress.units.slots[i]? = some slot → built ≤ i →
    slot.body = none
  /-- As many units wait as have not been built. -/
  length : built + s.progress.queue.length = trees.length
  /-- They wait in order, each with its type. -/
  queue : ∀ (k : Nat) (pending : Pending), s.progress.queue[k]? = some pending →
    pending.unit = built + k ∧
    (pending.source : Nat) < s.graph.size ∧ trees[built + k]? = some (s.graph.tree pending.source)

/-- What stands at a place of a list with one more element at its end. -/
private theorem getElem?_concat_cases {α : Type} {as : List α} {a b : α} {i : Nat}
    (h : (as ++ [a])[i]? = some b) : as[i]? = some b ∨ i = as.length ∧ a = b := by
  rcases Nat.lt_trichotomy i as.length with hi | rfl | hi
  · rw [List.getElem?_append_left hi] at h
    exact .inl h
  · simp only [List.getElem?_concat_length, Option.some.injEq] at h
    exact .inr ⟨rfl, h⟩
  · rw [List.getElem?_eq_none (by simp; omega)] at h
    cases h

namespace State.Sound

variable {setup : Setup} {roots : List TypeId} {trees : List TypeTree} {built : Nat} {s : State}

/-- A larger graph does not change what is known about the units. -/
theorem grow (h : s.Sound setup roots trees built) {g : Graph} (hgrow : s.graph.Grows g) :
    State.Sound setup roots trees built ⟨g, s.progress⟩ where
  graph := hgrow.wellFormed
  distinct := h.distinct
  reached := by
    rw [hgrow.model]
    exact h.reached
  source t ht := by
    obtain ⟨id, hid, htree⟩ := h.source t ht
    exact ⟨id, hgrow.lt_size hid, by rw [h.graph.tree_extends hgrow.toExtends hid, htree]⟩
  size := h.size
  entry := h.entry
  declared := by
    rw [hgrow.model]
    exact h.declared
  waiting := h.waiting
  length := h.length
  queue k pending hpending := by
    obtain ⟨hunit, hsource, htree⟩ := h.queue k pending hpending
    refine ⟨hunit, hgrow.lt_size hsource, ?_⟩
    rw [h.graph.tree_extends hgrow.toExtends hsource, htree]

/-- Meeting a type that can be reached either finds its unit or adds it at the end. -/
theorem meet (h : s.Sound setup roots trees built) {t : TypeTree} {p : Progress}
    (hmeet : Meet s.graph t s.progress p)
    (ht : Reached setup.options.generics s.graph.model roots t) :
    ∃ trees', State.Sound setup roots trees' built ⟨s.graph, p⟩ := by
  cases hmeet with
  | again => exact ⟨trees, h⟩
  | @first id header hid htree hkey hheader hname =>
    refine ⟨trees ++ [t], ?_⟩
    have hextends : s.progress.units.Extends (s.progress.units.append t.spelling header) :=
      Registry.extends_append
    have hsize := h.size
    have hlength := h.length
    have hslot (i : Nat) (slot : Slot)
        (hi : (s.progress.units.append t.spelling header).slots[i]? = some slot) :
        s.progress.units.slots[i]? = some slot ∨
          i = trees.length ∧ slot = ⟨t.spelling, header, none⟩ := by
      rw [Registry.append, Array.getElem?_push] at hi
      by_cases heq : i = s.progress.units.slots.size
      · rw [if_pos heq] at hi
        exact .inr ⟨heq.trans hsize, by simpa using hi.symm⟩
      · rw [if_neg heq] at hi
        exact .inl hi
    constructor
    · exact h.graph
    · exact h.distinct.append hkey hname
    · intro u hu
      rcases List.mem_append.mp hu with hu | hu
      · exact h.reached u hu
      · exact List.mem_singleton.mp hu ▸ ht
    · intro u hu
      rcases List.mem_append.mp hu with hu | hu
      · exact h.source u hu
      · exact ⟨id, hid, htree.trans (List.mem_singleton.mp hu).symm⟩
    · simp only [Registry.append, Registry.size, Array.size_push, List.length_append,
        List.length_singleton, Nat.add_right_cancel_iff]
      exact hsize
    · intro i u hu
      rcases getElem?_concat_cases hu with hu | ⟨rfl, rfl⟩
      · obtain ⟨header', hentry, hheader'⟩ := h.entry i u hu
        exact ⟨header', hextends.getElem? hentry, hheader'⟩
      · refine ⟨header, ?_, hheader⟩
        rw [Registry.entries_append, ← hsize, ← Registry.length_entries,
          List.getElem?_concat_length]
    · intro i u slot hu hi hbuilt
      rw [List.getElem?_append_left (by omega)] at hu
      rcases hslot i slot hi with hi | ⟨rfl, -⟩
      · obtain ⟨body, hbody, hdeclaration, hreferences⟩ := h.declared i u slot hu hi hbuilt
        exact ⟨body, hbody, TypeTree.declaration?_extends hextends hdeclaration, hreferences⟩
      · omega
    · intro i slot hi hbuilt
      rcases hslot i slot hi with hi | ⟨-, rfl⟩
      · exact h.waiting i slot hi hbuilt
      · rfl
    · simp only [List.length_append, List.length_singleton]
      omega
    · intro k pending hpending
      rcases getElem?_concat_cases hpending with hk | ⟨rfl, rfl⟩
      · obtain ⟨hunit, hsource, htree'⟩ := h.queue k pending hk
        have hlt := (List.getElem?_eq_some_iff.mp htree').1
        exact ⟨hunit, hsource, by rw [List.getElem?_append_left hlt, htree']⟩
      · refine ⟨by rw [hlength]; exact hsize, hid, ?_⟩
        rw [hlength, List.getElem?_concat_length, ← htree]

/-- Meeting several types that can be reached. -/
theorem meets {ts : List TypeTree} {p : Progress} (hmeets : Meets s.graph ts s.progress p)
    (h : s.Sound setup roots trees built)
    (hts : ∀ t ∈ ts, Reached setup.options.generics s.graph.model roots t) :
    ∃ trees', State.Sound setup roots trees' built ⟨s.graph, p⟩ := by
  obtain ⟨g, p'⟩ := s
  dsimp only at hmeets hts
  induction hmeets generalizing trees with
  | nil => exact ⟨trees, h⟩
  | cons head _ ih =>
    obtain ⟨trees', h'⟩ := h.meet head (hts _ (by simp))
    exact ih h' fun t ht => hts t (by simp [ht])

/-- Completing the unit that has waited longest. -/
theorem complete {g : Graph} {units : Registry} {pending : Pending} {queue : List Pending}
    (h : State.Sound setup roots trees built ⟨g, ⟨units, pending :: queue⟩⟩)
    {declaration : Declaration}
    (hdeclaration : (g.tree pending.source).declaration? setup.options g.model units
      (unitName units pending.unit) = some declaration) :
    ∃ units', units.complete pending.unit declaration declaration.references = .ok units' ∧
      units'.entries = units.entries ∧
      State.Sound setup roots trees (built + 1) ⟨g, ⟨units', queue⟩⟩ := by
  obtain ⟨hunit, hsource, htree⟩ := h.queue 0 pending rfl
  rw [Nat.add_zero] at hunit htree
  have hlt : built < units.slots.size := by
    rw [show units.slots.size = trees.length from h.size]
    exact (List.getElem?_eq_some_iff.mp htree).1
  obtain ⟨slot, hslot⟩ : ∃ slot, units.slots[built]? = some slot :=
    ⟨_, Array.getElem?_eq_getElem hlt⟩
  have hname : unitName units built = slot.header.name := by
    simp [unitName, Registry.header?, hslot]
  rw [hunit, hname] at hdeclaration
  rw [hunit]
  obtain ⟨body, hbody⟩ : ∃ body : Body,
      body = ⟨declaration, declaration.references.filter (· != built)⟩ := ⟨_, rfl⟩
  obtain ⟨units', hunits'⟩ : ∃ units' : Registry,
      units' = ⟨units.slots.setIfInBounds built { slot with body := some body }⟩ := ⟨_, rfl⟩
  have hcomplete : units.complete built declaration declaration.references = .ok units' := by
    rw [hunits', hbody]
    exact Registry.complete_eq hslot (h.waiting built slot hslot (Nat.le_refl _)) _ _
  have hentries : units'.entries = units.entries := by
    rw [hunits']
    exact Registry.entries_set hslot _
  refine ⟨units', hcomplete, hentries, ?_⟩
  have hextends : units.Extends units' := .of_entries_eq hentries
  have hother (i : Nat) (hi : built ≠ i) : units'.slots[i]? = units.slots[i]? := by
    rw [hunits', Array.getElem?_setIfInBounds_ne hi]
  constructor
  · exact h.graph
  · exact ⟨hentries ▸ h.distinct.keys, hentries ▸ h.distinct.names⟩
  · exact h.reached
  · exact h.source
  · have hsize : units'.size = units.size := by simp [hunits', Registry.size]
    exact hsize.trans h.size
  · intro i t ht
    obtain ⟨header, hentry, hheader⟩ := h.entry i t ht
    exact ⟨header, hextends.getElem? hentry, hheader⟩
  · intro i t slot' ht hi hbuilt
    by_cases heq : built = i
    · subst heq
      rw [htree] at ht
      cases ht
      rw [hunits', Array.getElem?_setIfInBounds_self_of_lt hlt] at hi
      cases hi
      refine ⟨body, rfl, ?_, ?_⟩
      · rw [hbody]
        exact TypeTree.declaration?_extends hextends hdeclaration
      · rw [hbody]
    · rw [hother i heq] at hi
      obtain ⟨body, hbody, hdeclaration', hreferences⟩ := h.declared i t slot' ht hi (by omega)
      exact ⟨body, hbody, TypeTree.declaration?_extends hextends hdeclaration', hreferences⟩
  · intro i slot' hi hbuilt
    rw [hother i (by omega)] at hi
    exact h.waiting i slot' hi (by omega)
  · have hlength := h.length
    simp only [List.length_cons] at hlength ⊢
    omega
  · intro k pending' hk
    obtain ⟨hunit', hsource', htree'⟩ := h.queue (k + 1) pending' hk
    rw [Nat.add_right_comm built 1 k]
    exact ⟨hunit', hsource', htree'⟩

/-- The unit that has waited longest can be built, or the walk stops for a possible cause. -/
theorem step_outcome (h : s.Sound setup roots trees built) (hhook : ∀ d, setup.hook d = none)
    (hqueue : s.progress.queue ≠ []) :
    Outcome (fun s' => s.graph.Grows s'.graph ∧ s.progress.units.Extends s'.progress.units ∧
        ∃ trees', State.Sound setup roots trees' (built + 1) s')
      GenerateError.Possible (step setup s) := by
  obtain ⟨g, units, queue⟩ := s
  cases queue with
  | nil => exact absurd rfl hqueue
  | cons pending queue =>
    obtain ⟨hunit, hsource, htree⟩ := h.queue 0 pending rfl
    have hmem := List.mem_of_getElem? htree
    obtain ⟨header, hentry, hheader⟩ := h.entry _ _ htree
    have hbuild : Outcome _ _ (buildDeclaration setup ⟨g, units, queue⟩
        (unitName units pending.unit) pending.source) :=
      buildDeclaration_outcome (s := ⟨g, units, queue⟩) h.graph hhook hsource
        (TypeTree.isNamed_of_header? hheader)
    unfold step
    refine hbuild.bind fun r hr => ?_
    obtain ⟨declaration, g', units', queue'⟩ := r
    obtain ⟨⟨hgrow, hmeets⟩, hdeclaration⟩ := hr
    dsimp only at hgrow hmeets hdeclaration
    obtain ⟨trees', h'⟩ := (h.grow hgrow).meets (hmeets.behind pending) fun u hu => by
      dsimp only
      rw [hgrow.model]
      exact .dependency (h.reached _ hmem) hu
    have hknown : unitName units' pending.unit = unitName units pending.unit := by
      rw [hunit, unitName_of_entry hentry, unitName_of_entry (hmeets.extends.getElem? hentry)]
    rw [← hgrow.model, ← h.graph.tree_extends hgrow.toExtends hsource, ← hknown] at hdeclaration
    obtain ⟨units'', hcomplete, hentries, h''⟩ := h'.complete hdeclaration
    dsimp only at hcomplete ⊢
    rw [hcomplete]
    exact ⟨hgrow, hmeets.extends.trans (.of_entries_eq hentries), trees', h''⟩

end State.Sound

end Declgen.Walk
