import Declgen.Proofs.Nullability.Conversion
import Declgen.Proofs.Walk.Failing

/-!
# Walks up to repeated nullability

Two walks over models that agree up to repeated nullability, from roots that agree, do the same
builds in the same order, and end with the same units. Where generic records are preserved, the
models may differ in arguments, too; otherwise these show in the units.
-/

namespace Declgen.Walk

open Model TypeScript Declgen.Units

variable {inside : Bool} {setup : Setup} {s s' t : State} {i j n : Nat} {a a' : Arena}

/-! ### Fields -/

/-- Members that agree become the same fields. -/
theorem convertMembers_agrees {g g' : Graph} {p p' : Progress} {options : Options} {hook : Hook}
    {scope : List String} (hg : g.WellFormed) (hg' : g'.WellFormed) (hhook : ∀ d, hook d = none)
    (hinside : inside = true → options.generics = .preserve) {unit : String}
    {taken : List (String × String)} {members members' : List Member}
    (h : List.Forall₂ (TreeMember.Agrees inside) (members.map g.member) (members'.map g'.member))
    (hheld : g.HoldsMembers members) (hheld' : g'.HoldsMembers members')
    (hp : ProgressAgrees inside g g' p p') :
    Follows (AgreedResults inside g g')
      ((convertMembers ⟨g, options, hook, scope⟩ unit taken members).run p)
      ((convertMembers ⟨g', options, hook, scope⟩ unit taken members').run p') := by
  rw [List.forall₂_map_left_iff, List.forall₂_map_right_iff] at h
  induction h generalizing taken p p' with
  | nil => exact .pure ⟨rfl, hp⟩
  | @cons m m' members members' head _ ih =>
    simp only [Graph.HoldsMembers, List.map_cons, List.forall_mem_cons] at hheld hheld'
    obtain ⟨hname, htype, hoptional, hnullable, hdoc⟩ := head
    dsimp only [Graph.member] at hname htype hoptional hnullable hdoc
    have hfield : Follows (AgreedResults inside g g')
        ((convertMember ⟨g, options, hook, scope⟩ m).run p)
        ((convertMember ⟨g', options, hook, scope⟩ m').run p') := by
      refine (convert_agrees hg hg' hhook hinside hheld.1 hheld'.1 htype hp).run_bind
        fun e p₁ e' p₁' hr => ?_
      obtain ⟨rfl, hp₁⟩ := hr
      exact .pure ⟨by rw [hname, hoptional, hnullable, hdoc], hp₁⟩
    rw [convertMembers, convertMembers]
    refine hfield.run_bind fun field p₁ field' p₁' hr => ?_
    obtain ⟨rfl, hp₁⟩ := hr
    cases taken.lookup field.name with
    | some other => exact .error _ _
    | none =>
      rw [hname]
      refine (ih hheld.2 hheld'.2 hp₁).run_bind fun fields p₂ fields' p₂' hr => ?_
      obtain ⟨rfl, hp₂⟩ := hr
      exact .pure ⟨rfl, hp₂⟩

/-! ### Units -/

/-- Two walks have come equally far. -/
structure StateAgrees (inside : Bool) (s s' : State) : Prop where
  /-- The first graph is well-formed. -/
  left : s.graph.WellFormed
  /-- So is the second one. -/
  right : s'.graph.WellFormed
  /-- Their models agree. -/
  models : ModelsAgree inside s.graph.model s'.graph.model
  /-- The same units have been met. -/
  progress : ProgressAgrees inside s.graph s'.graph s.progress s'.progress

/-- Records that agree have the same object type. -/
theorem objectType_agrees (hhook : ∀ d, setup.hook d = none)
    (hinside : inside = true → setup.options.generics = .preserve) (hs : StateAgrees inside s s')
    {scope : List String} {unit : String} (hi : i < s.graph.size) (hj : j < s'.graph.size)
    (h : (s.graph.tree i).Agrees inside true (s'.graph.tree j)) :
    Follows (fun r r' => r.1 = r'.1 ∧ StateAgrees inside r.2 r'.2)
      (objectType setup s scope unit i) (objectType setup s' scope unit j) := by
  refine (membersOf_agrees hs.left hs.right hs.models hi hj h).bind fun r r' hr => ?_
  obtain ⟨members, g⟩ := r
  obtain ⟨members', g'⟩ := r'
  obtain ⟨⟨hgrow, hheld⟩, ⟨hgrow', hheld'⟩, hmembers⟩ := hr
  dsimp only at hgrow hheld hgrow' hheld' hmembers
  refine (convertMembers_agrees hgrow.wellFormed hgrow'.wellFormed hhook hinside hmembers hheld
    hheld' (hs.progress.grows hs.left hs.right hgrow hgrow')).bind fun r r' hr => ?_
  refine .pure ⟨by rw [hr.1], hgrow.wellFormed, hgrow'.wellFormed, ?_, hr.2⟩
  rw [hgrow.model, hgrow'.model]
  exact hs.models

/-- Types that agree have the same declaration. -/
theorem buildDeclaration_agrees (hhook : ∀ d, setup.hook d = none)
    (hinside : inside = true → setup.options.generics = .preserve) (hs : StateAgrees inside s s')
    {name : String} (hi : i < s.graph.size) (hj : j < s'.graph.size)
    (h : (s.graph.tree i).Agrees inside true (s'.graph.tree j)) :
    Follows (fun r r' => r.1 = r'.1 ∧ StateAgrees inside r.2 r'.2)
      (buildDeclaration setup s name i) (buildDeclaration setup s' name j) := by
  have hobject (scope : List String) :
      Follows (fun r r' => r.1 = r'.1 ∧ StateAgrees inside r.2 r'.2)
        (objectType setup s scope name i) (objectType setup s' scope name j) :=
    objectType_agrees hhook hinside hs hi hj h
  have hshow := hs.left.shows hi
  have hshow' := hs.right.shows hj
  generalize s.graph.tree i = t, s'.graph.tree j = u at h hshow hshow'
  rw [buildDeclaration, buildDeclaration]
  cases h with
  | enum id e =>
    rw [show s.graph.get i = _ from hshow, show s'.graph.get j = _ from hshow', ok_bind, ok_bind]
    exact .pure ⟨rfl, hs⟩
  | record id hhead =>
    rw [show s.graph.get i = _ from hshow, show s'.graph.get j = _ from hshow', ok_bind, ok_bind]
    dsimp only
    rw [hhead.typeParams]
    refine (hobject _).bind fun r r' hr => ?_
    exact .pure ⟨by rw [hr.1], hr.2⟩
  | instantiation =>
    obtain ⟨_, hd, -⟩ := hshow
    obtain ⟨_, hd', -⟩ := hshow'
    rw [hd, hd', ok_bind, ok_bind]
    refine (hobject []).bind fun r r' hr => ?_
    exact .pure ⟨by rw [hr.1], hr.2⟩
  | primitive | parameter =>
    rw [show s.graph.get i = _ from hshow]
    exact .error _ _
  | nullable | left | array =>
    obtain ⟨_, hd, -⟩ := hshow
    rw [hd]
    exact .error _ _
  | right hright =>
    obtain ⟨_, rfl⟩ := hright.exists_nullable
    obtain ⟨_, hd, -⟩ := hshow
    rw [hd]
    exact .error _ _
  | dictionary =>
    obtain ⟨_, _, hd, -⟩ := hshow
    rw [hd]
    exact .error _ _

/-- Where one walk can build the unit that has waited longest, so can the other one. -/
theorem step_agrees (hhook : ∀ d, setup.hook d = none)
    (hinside : inside = true → setup.options.generics = .preserve) (hs : StateAgrees inside s s')
    (hqueue : s.progress.queue ≠ []) :
    Follows (StateAgrees inside) (step setup s) (step setup s') := by
  obtain ⟨g, ⟨units, queue⟩⟩ := s
  obtain ⟨g', ⟨units', queue'⟩⟩ := s'
  obtain ⟨hg, hg', hmodels, hunits, hwaiting⟩ := hs
  dsimp only at hg hg' hmodels hunits hwaiting hqueue
  subst hunits
  cases hwaiting with
  | nil => exact absurd rfl hqueue
  | @cons w w' queue queue' hw hwaiting =>
    obtain ⟨hunit, hi, hj, hagree⟩ := hw
    have hs' : StateAgrees inside ⟨g, ⟨units, queue⟩⟩ ⟨g', ⟨units, queue'⟩⟩ :=
      ⟨hg, hg', hmodels, rfl, hwaiting⟩
    rw [step, step]
    dsimp only
    rw [hunit]
    refine (buildDeclaration_agrees hhook hinside hs' hi hj hagree).bind fun r r' hr => ?_
    obtain ⟨declaration, t⟩ := r
    obtain ⟨declaration', t'⟩ := r'
    obtain ⟨hdeclaration, ht⟩ := hr
    dsimp only at hdeclaration ht ⊢
    subst hdeclaration
    rw [ht.progress.units]
    cases t'.progress.units.complete w'.unit declaration declaration.references with
    | error e => exact .error _ _
    | ok units' => exact .pure ⟨ht.left, ht.right, ht.models, rfl, ht.progress.queue⟩

/-! ### Walks -/

/-- A run of one walk is followed by a run of the other one. -/
theorem Run.agrees (hhook : ∀ d, setup.hook d = none)
    (hinside : inside = true → setup.options.generics = .preserve) (h : Run setup n s t)
    (hs : StateAgrees inside s s') :
    ∃ t', Run setup n s' t' ∧ StateAgrees inside t t' :=
  h.simulate (fun _ => StateAgrees inside) 0 (fun _ _ _ hu hqueue =>
    ⟨ne_nil_of_forall₂ hu.progress.queue hqueue, step_agrees hhook hinside hu hqueue⟩) hs

/-- Where one walk can meet a root, so can the other one. -/
theorem meetRoot_agrees (hhook : ∀ d, setup.hook d = none)
    (hinside : inside = true → setup.options.generics = .preserve) (hs : StateAgrees inside s s')
    (hi : i < s.graph.size) (hj : j < s'.graph.size)
    (h : (s.graph.tree i).Agrees inside true (s'.graph.tree j)) :
    Follows (fun t t' => t.graph = s.graph ∧ t'.graph = s'.graph ∧ StateAgrees inside t t')
      (meetRoot setup s i) (meetRoot setup s' j) := by
  -- Whichever way the units of the root are met, only the progress changes.
  have hmeet {α : Type} {x x' : Discovery α}
      (hx : Follows (AgreedResults inside s.graph s'.graph) (x.run s.progress)
        (x'.run s'.progress)) :
      Follows (fun t t' => t.graph = s.graph ∧ t'.graph = s'.graph ∧ StateAgrees inside t t')
        (do
          let (_, progress) ← x.run s.progress
          pure { s with progress := progress })
        (do
          let (_, progress) ← x'.run s'.progress
          pure { s' with progress := progress }) :=
    hx.bind fun r r' hr => .pure ⟨rfl, rfl, hs.left, hs.right, hs.models, hr.2⟩
  have hconvert : Follows (AgreedResults inside s.graph s'.graph)
      ((convert ⟨s.graph, setup.options, setup.hook, []⟩ i).run s.progress)
      ((convert ⟨s'.graph, setup.options, setup.hook, []⟩ j).run s'.progress) :=
    convert_agrees hs.left hs.right hhook hinside hi hj h hs.progress
  have hshow := hs.left.shows hi
  have hshow' := hs.right.shows hj
  generalize ht : s.graph.tree i = t, hu : s'.graph.tree j = u at h hshow hshow'
  rw [meetRoot, meetRoot]
  cases h with
  | enum id e =>
    rw [show s.graph.get i = _ from hshow, show s'.graph.get j = _ from hshow', ok_bind, ok_bind,
      hhook]
    have hsame : (TypeTree.enum id e).Agrees inside true (.enum id e) := .enum id e
    exact hmeet (unitFor_agrees hs.left hs.right hsame hi ht hj hu rfl (.inr (by simp)) hs.progress)
  | @record _ id c c' hhead =>
    rw [show s.graph.get i = _ from hshow, show s'.graph.get j = _ from hshow', ok_bind, ok_bind,
      hhook, hhook]
    have hsame : (TypeTree.record id c).Agrees inside true (.record id c') := .record id hhead
    exact hmeet (unitFor_agrees hs.left hs.right hsame hi ht hj hu rfl (.inr (by simp)) hs.progress)
  | primitive | parameter =>
    rw [show s.graph.get i = _ from hshow, show s'.graph.get j = _ from hshow', ok_bind, ok_bind,
      hhook]
    exact hmeet hconvert
  | nullable | array =>
    obtain ⟨_, hd, -⟩ := hshow
    obtain ⟨_, hd', -⟩ := hshow'
    rw [hd, hd', ok_bind, ok_bind, hhook, hhook]
    exact hmeet hconvert
  | left hleft =>
    obtain ⟨_, rfl⟩ := hleft.symm.exists_nullable
    obtain ⟨_, hd, -⟩ := hshow
    obtain ⟨_, hd', -⟩ := hshow'
    rw [hd, hd', ok_bind, ok_bind, hhook, hhook]
    exact hmeet hconvert
  | right hright =>
    obtain ⟨_, rfl⟩ := hright.exists_nullable
    obtain ⟨_, hd, -⟩ := hshow
    obtain ⟨_, hd', -⟩ := hshow'
    rw [hd, hd', ok_bind, ok_bind, hhook, hhook]
    exact hmeet hconvert
  | dictionary =>
    obtain ⟨_, _, hd, -⟩ := hshow
    obtain ⟨_, _, hd', -⟩ := hshow'
    rw [hd, hd', ok_bind, ok_bind, hhook, hhook]
    exact hmeet hconvert
  | instantiation =>
    obtain ⟨_, hd, -⟩ := hshow
    obtain ⟨_, hd', -⟩ := hshow'
    rw [hd, hd', ok_bind, ok_bind, hhook, hhook]
    exact hmeet hconvert

/-- The walk starts with the same units, none at all. -/
theorem stateAgrees_start {a a' : Arena} (ha : Graph.WellFormed (.ofModel a))
    (ha' : Graph.WellFormed (.ofModel a')) (hmodels : ModelsAgree inside a a') :
    StateAgrees inside (.start a) (.start a') :=
  ⟨ha, ha', hmodels, rfl, .nil⟩

/-- Where one walk succeeds, so does the other one, with the same units. -/
theorem walk_agrees {a a' : Arena} (hhook : ∀ d, setup.hook d = none)
    (hinside : inside = true → setup.options.generics = .preserve)
    (ha : Graph.WellFormed (.ofModel a)) (ha' : Graph.WellFormed (.ofModel a'))
    (hmodels : ModelsAgree inside a a') {roots roots' : List TypeId}
    (hroots : List.Forall₂ (fun i j : Nat => i < a.size ∧ j < a'.size ∧
      (modelTree a i).Agrees inside true (modelTree a' j)) roots roots') :
    Follows Eq (walk setup .empty a roots) (walk setup .empty a' roots') := by
  intro units hwalk
  obtain ⟨s, n, t, hmeet, hrun, hunits⟩ := walk_eq_ok_iff.mp hwalk
  have hfold : Follows
      (fun t t' => t.graph = .ofModel a ∧ t'.graph = .ofModel a' ∧ StateAgrees inside t t')
      (roots.foldlM (meetRoot setup) (.start a)) (roots'.foldlM (meetRoot setup) (.start a')) := by
    refine Follows.foldlM hroots (fun i j hij s s' hs => ?_)
      ⟨rfl, rfl, stateAgrees_start ha ha' hmodels⟩
    obtain ⟨hi, hj, hagree⟩ := hij
    obtain ⟨hleft, hright, hs⟩ := hs
    rw [← hleft, ← hright]
    refine meetRoot_agrees hhook hinside hs ?_ ?_ ?_
    · rw [hleft]
      exact hi
    · rw [hright]
      exact hj
    · rw [hleft, hright]
      exact hagree
  obtain ⟨s', hmeet', -, -, hs⟩ := hfold s hmeet
  obtain ⟨t', hrun', ht⟩ := hrun.agrees hhook hinside hs
  rw [ht.progress.units] at hunits
  exact ⟨units, walk_eq_ok_iff.mpr ⟨s', n, t', hmeet', hrun', hunits⟩, rfl⟩

end Declgen.Walk
