import Declgen.Proofs.Alike.Conversion
import Declgen.Proofs.Alike.Members

/-!
# Building units side by side

Two walks that have come equally far build the same declaration next, and go on equally far. That
the types they have made on the way are numbered differently shows in none of their units.
-/

namespace Declgen.Walk

open Model TypeScript Declgen.Units

variable {setup : Setup} {a : Arena} {old first : Nat} {s s' : State} {i j : TypeId}

/-! ### Units that wait -/

section Orderly

variable {names : Finset String} {units : Registry} {w : Pending} {queue : List Pending}

/-- The unit that has waited longest is the first one that lacks its body. -/
theorem Progress.Orderly.unit_eq (h : Progress.Orderly names old first ⟨units, w :: queue⟩) :
    w.unit = first ∧ Progress.Orderly names old (first + 1) ⟨units, queue⟩ := by
  have hwaiting := h.waiting
  have hlength := congrArg List.length hwaiting
  simp only [List.map_cons, List.length_cons, List.length_map, List.length_range'] at hlength
  have hsize : units.size - first = (units.size - (first + 1)) + 1 := by omega
  simp only [List.map_cons, hsize, List.range'_succ, List.cons.injEq] at hwaiting
  refine ⟨hwaiting.1, Nat.le_succ_of_le h.old_le, ?_, hwaiting.2, ?_, h.nodup, h.subset⟩
  · change first + 1 ≤ units.size
    omega
  · exact fun unit slot hslot hle => h.bodies unit slot hslot (Nat.le_of_succ_le hle)

/-- When all units could be completed, none waits. -/
theorem Progress.Orderly.queue_eq_nil {p : Progress} (h : p.Orderly names old first)
    {units : List Completed} (hunits : p.units.completed = .ok units) : p.queue = [] := by
  have hwaiting := h.waiting
  by_cases hend : first < p.units.size
  · have hslot : p.units.slots[first]? = some p.units.slots[first] := Array.getElem?_eq_getElem hend
    exact absurd (h.bodies first _ hslot (Nat.le_refl _))
      (Registry.body_ne_none_of_completed hunits hslot)
  · rw [Nat.sub_eq_zero_of_le (Nat.le_of_not_lt hend)] at hwaiting
    exact List.map_eq_nil_iff.mp hwaiting

/-- Completing the last unit that has been taken from the queue changes none that waits. -/
theorem Progress.Orderly.complete (h : Progress.Orderly names old (first + 1) ⟨units, queue⟩)
    (declaration : Declaration) (references : List UnitId) :
    Outcome (fun units' => Progress.Orderly names old (first + 1) ⟨units', queue⟩) (fun _ => True)
      (units.complete first declaration references) := by
  cases hslot : units.slots[first]? with
  | none =>
    rw [Registry.complete, hslot]
    exact h
  | some slot =>
    cases hbody : slot.body with
    | some body =>
      rw [Registry.complete, hslot]
      simp only [hbody]
      trivial
    | none =>
      rw [Registry.complete_eq hslot hbody]
      generalize some (Body.mk declaration _) = body
      have hentries := Registry.entries_set hslot body
      have hsize := congrArg List.length hentries
      simp only [Registry.length_entries] at hsize
      constructor
      · exact h.old_le
      · exact hsize ▸ h.first_le
      · exact hsize ▸ h.waiting
      · intro unit other hother hle
        have hne : first ≠ unit := by omega
        rw [Array.getElem?_setIfInBounds_ne hne] at hother
        exact h.bodies unit other hother hle
      · exact hentries ▸ h.nodup
      · exact hentries ▸ h.subset

end Orderly

/-! ### States side by side -/

/-- Two walks have come equally far, the second one over the model `a`. -/
structure Abreast (a : Arena) (old first : Nat) (s s' : State) : Prop extends
    InStep old first s.graph s'.graph s.progress s'.progress where
  /-- The model does not change. -/
  model : s'.graph.model = a

/-- Two computations give equal results and end in states that are abreast. -/
def AbreastResults (a : Arena) (old first : Nat) {α : Type} (r r' : α × State) : Prop :=
  r.1 = r'.1 ∧ Abreast a old first r.2 r'.2

/-- Records that are alike have the same object type. -/
theorem objectType_follows (hhook : ∀ d, setup.hook d = none) {scope : List String}
    {unit : String} (hs : Abreast a old first s s') (h : Alike s.graph s'.graph i j) :
    Follows (AbreastResults a old first) (objectType setup s scope unit i)
      (objectType setup s' scope unit j) := by
  rw [objectType, objectType]
  refine (membersOf_follows h).bind fun r r' hr => ?_
  obtain ⟨members, g⟩ := r
  obtain ⟨members', g'⟩ := r'
  obtain ⟨hgrown, hmembers⟩ := hr
  refine (convertMembers_follows hhook hmembers (hs.toInStep.grown hgrown)).bind
    fun r r' hr => ?_
  exact .pure ⟨by rw [hr.1], hr.2, hgrown.right.model.trans hs.model⟩

/-- Types that are alike have the same declaration. -/
theorem buildDeclaration_follows (hhook : ∀ d, setup.hook d = none) {name : String}
    (hs : Abreast a old first s s') (h : Alike s.graph s'.graph i j) :
    Follows (AbreastResults a old first) (buildDeclaration setup s name i)
      (buildDeclaration setup s' name j) := by
  obtain ⟨d, d', hd, hd', hmatch⟩ := h.exists_get
  rw [buildDeclaration, buildDeclaration, hd, hd', ok_bind, ok_bind]
  cases hmatch with
  | enum e => exact .pure ⟨rfl, hs⟩
  | complex hmatch =>
    dsimp only
    rw [hmatch.typeParams]
    refine (objectType_follows hhook hs h).bind fun r r' hr => ?_
    exact .pure ⟨by rw [hr.1], hr.2⟩
  | instantiation hdefinition harguments =>
    refine (objectType_follows hhook hs h).bind fun r r' hr => ?_
    exact .pure ⟨by rw [hr.1], hr.2⟩
  | _ => exact .error _ _

/-- Where one walk can build the unit that has waited longest, so can the other one. -/
theorem step_follows (hhook : ∀ d, setup.hook d = none) (hs : Abreast a old first s s')
    (hqueue : s.progress.queue ≠ []) :
    Follows (Abreast a old (first + 1)) (step setup s) (step setup s') := by
  obtain ⟨g, ⟨units, queue⟩⟩ := s
  obtain ⟨g', ⟨units', queue'⟩⟩ := s'
  obtain ⟨⟨hunits, hwaiting, horderly, htame⟩, hmodel⟩ := hs
  dsimp only at hmodel htame hunits hwaiting horderly hqueue
  subst hunits
  cases hwaiting with
  | nil => exact absurd rfl hqueue
  | @cons w w' queue queue' hw hwaiting =>
    obtain ⟨hunit, hsource⟩ := hw
    obtain ⟨hfirst, horderly'⟩ := horderly.unit_eq
    have hs' : Abreast a old (first + 1) ⟨g, ⟨units, queue⟩⟩ ⟨g', ⟨units, queue'⟩⟩ :=
      ⟨⟨rfl, hwaiting, horderly', htame⟩, hmodel⟩
    rw [step, step]
    dsimp only
    rw [hunit, hfirst]
    refine (buildDeclaration_follows hhook hs' hsource).bind fun r r' hr => ?_
    obtain ⟨declaration, t⟩ := r
    obtain ⟨declaration', t'⟩ := r'
    obtain ⟨hdeclaration, ht⟩ := hr
    dsimp only at hdeclaration ht ⊢
    subst hdeclaration
    rw [ht.units]
    have hcomplete := ht.orderly.complete declaration declaration.references
    cases hunits : t'.progress.units.complete first declaration declaration.references with
    | error e => exact .error _ _
    | ok units' =>
      exact .pure ⟨⟨rfl, ht.queue, hcomplete.result hunits, ht.tame⟩, ht.model⟩

/-- The states of two walks that have met roots only, so that their graphs are the given ones. -/
def Met (g g' : Graph) (old first : Nat) (s s' : State) : Prop :=
  s.graph = g ∧ s'.graph = g' ∧ InStep old first g g' s.progress s'.progress

/-- Walks that have met roots only are abreast. -/
theorem Met.abreast {g g' : Graph} (h : Met g g' old first s s') :
    Abreast g'.model old first s s' := by
  obtain ⟨rfl, rfl, hp⟩ := h
  exact ⟨hp, rfl⟩

/-- Where one walk can meet a root, so can the other one. -/
theorem meetRoot_follows (hhook : ∀ d, setup.hook d = none) {g g' : Graph}
    (hs : Met g g' old first s s') (h : Alike g g' i j) :
    Follows (Met g g' old first) (meetRoot setup s i) (meetRoot setup s' j) := by
  obtain ⟨rfl, rfl, hp⟩ := hs
  obtain ⟨d, d', hd, hd', hmatch⟩ := h.exists_get
  -- Whichever way the units of the root are met, only the progress changes.
  have hmeet {α : Type} {x x' : Discovery α} (hx : Follows (SameResults old first s.graph s'.graph)
      (x.run s.progress) (x'.run s'.progress)) :
      Follows (Met s.graph s'.graph old first)
        (do
          let (_, progress) ← x.run s.progress
          pure { s with progress := progress })
        (do
          let (_, progress) ← x'.run s'.progress
          pure { s' with progress := progress }) :=
    hx.bind fun r r' hr => .pure ⟨rfl, rfl, hr.2⟩
  rw [meetRoot, meetRoot, hd, hd', ok_bind, ok_bind, hhook, hhook]
  cases hmatch with
  | complex hmatch => exact hmeet (unitFor_follows h hp)
  | enum e => exact hmeet (unitFor_follows h hp)
  | _ => exact hmeet (convert_follows hhook h hp)

end Declgen.Walk
