import Declgen.Proofs.Nullability.Members
import Declgen.Proofs.Walk.Failing
import Declgen.Proofs.Walk.Naming
import Declgen.Proofs.Walk.Succeeding

/-!
# Registries that are enough for a walk

A registry is enough for some roots if all that can be reached from these has a unit in it, with a
declaration whose fields have different names. Then a walk that starts with a fresh registry meets
units of this registry only, under whatever numbers. So no two of them have the same name, and all
types on the way have expressions: the walk succeeds, in whatever order and however often its roots
are given.
-/

namespace Declgen.Walk

open Model TypeScript Declgen.Units

/-- A registry has the unit of a named type and knows all that its declaration takes. -/
structure Declares (options : Options) (a : Arena) (registry : Registry) (t : TypeTree) :
    Prop where
  /-- There is a unit with the key and the header of the type. -/
  entry : ∃ header, t.header? = some header ∧ (t.spelling, header) ∈ registry.entries
  /-- The type has a declaration. -/
  declaration : ∃ name declaration, t.declaration? options a registry name = some declaration
  /-- The fields of its members have different names. -/
  fields : ∀ members, t.members? a = some members →
    (members.map fun m => memberField options.fields m.name).Nodup

/-- A registry is enough for a walk from some roots. -/
structure Sufficient (options : Options) (a : Arena) (roots : List TypeId) (registry : Registry) :
    Prop where
  /-- No key and no name is repeated. -/
  distinct : registry.Distinct
  /-- Every root is a type of the model that can be written. -/
  root : ∀ id : Nat, id ∈ roots →
    id < a.size ∧ ∃ e, (modelTree a id).rootExpr? options.generics registry = some e
  /-- All that can be reached can be declared. -/
  declares : ∀ t, Reached options.generics a roots t → Declares options a registry t

/-- All units that have been met are units of a registry. -/
def Progress.Within (registry : Registry) (p : Progress) : Prop :=
  ∀ entry ∈ p.units.entries, entry ∈ registry.entries

namespace Sufficient

variable {setup : Setup} {a : Arena} {roots : List TypeId} {registry : Registry} {s : State}
  {trees : List TypeTree} {built : Nat}

/-- The unit of a type that can be reached can be met among units of the registry. -/
theorem served {options : Options} (h : Sufficient options a roots registry) {g : Graph}
    (hg : g.WellFormed) {t : TypeTree} (ht : Reached options.generics a roots t) :
    Served (Progress.Within registry) g t := by
  rintro id hid rfl p hp
  obtain ⟨header, hheader, hentry⟩ := (h.declares _ ht).entry
  rw [unitFor, run_bind_eq (identity_run hg hid p), run_bind_eq (get_run p)]
  cases hkey : p.units.lookup (g.tree id).spelling with
  | some unit => exact hp
  | none =>
    -- A unit with this name would be the unit of the type, but there is none yet.
    have hname : ∀ entry ∈ p.units.entries, entry.2.name ≠ header.name := by
      intro entry hmem hname
      have heq := List.inj_on_of_nodup_map h.distinct.names (hp entry hmem) hentry hname
      exact Registry.lookup_eq_none_iff.mp hkey entry hmem (congrArg Prod.fst heq)
    rw [header_eq hg hid hheader, lift_ok_bind, Registry.reserve_eq hkey hname, lift_ok_bind]
    intro entry hmem
    change entry ∈ (p.units.append _ header).entries at hmem
    rw [Registry.entries_append, List.mem_append, List.mem_singleton] at hmem
    rcases hmem with hmem | rfl
    · exact hp entry hmem
    · exact hentry

/-- A walk from the roots has met units of the registry only. -/
theorem within (h : Sufficient setup.options a roots registry)
    (hsound : s.Sound setup roots trees built) (hmodel : s.graph.model = a) :
    s.progress.Within registry := by
  intro entry hentry
  obtain ⟨i, hi⟩ := List.mem_iff_getElem?.mp hentry
  obtain ⟨t, ht, hkey, hheader⟩ := hsound.exists_tree hi
  have hreached := hmodel ▸ hsound.reached t (List.mem_of_getElem? ht)
  obtain ⟨header, hheader', hmem⟩ := (h.declares t hreached).entry
  cases hheader.symm.trans hheader'
  rw [← hkey] at hmem
  exact hmem

/-! ### Declarations -/

/-- A record or an instantiation that can be reached becomes an object type. -/
theorem objectType (h : Sufficient setup.options a roots registry)
    (hhook : ∀ d, setup.hook d = none) (hg : s.graph.WellFormed) (hmodel : s.graph.model = a)
    (hs : s.progress.Within registry) {id : Nat} (hid : id < s.graph.size) {t : TypeTree}
    (htree : s.graph.tree id = t) (ht : Reached setup.options.generics a roots t)
    (henum : ∀ id e, t ≠ .enum id e) (unit : String) :
    Outcome (fun _ => True) (fun _ => False) (objectType setup s t.scope unit id) := by
  subst htree
  obtain ⟨name, declaration, hdeclaration⟩ := (h.declares _ ht).declaration
  obtain ⟨members, fields, hmembers, hfields, -⟩ := TypeTree.exists_fields henum hdeclaration
  obtain ⟨r, hrun⟩ := exists_membersOf hg hid (hmodel ▸ hmembers)
  obtain ⟨hgrow, hholds, hmembers'⟩ := (membersOf_outcome hg hid).result hrun
  rw [hmodel, hmembers, Option.some.injEq] at hmembers'
  subst hmembers'
  have hexpr : ∀ m ∈ r.1.map r.2.member, ∃ e,
      m.type.expr? setup.options.generics registry (s.graph.tree id).scope = some e := by
    intro m hm
    obtain ⟨field, -, hfield⟩ := exists_mem_of_mapM hfields hm
    obtain ⟨e, he, -⟩ := Option.map_eq_some_iff.mp hfield
    exact ⟨e, he⟩
  rw [Walk.objectType, hrun, ok_bind]
  have hconvert : Succeeds (Progress.Within registry)
      (convertMembers ⟨r.2, setup.options, setup.hook, (s.graph.tree id).scope⟩ unit [] r.1) := by
    refine convertMembers_succeeds hgrow.wellFormed hhook hholds (fun m hm u hu => ?_) hexpr ?_
      (by simp)
    · -- What a member needs can be reached, too.
      refine h.served hgrow.wellFormed (.dependency ht ?_)
      rw [TypeTree.dependencies, hmembers]
      exact List.mem_flatMap.mpr ⟨m, hm, hu⟩
    · have hnames := (h.declares _ ht).fields _ hmembers
      rwa [List.map_map] at hnames
  exact (hconvert s.progress hs).bind fun _ _ => trivial

/-- A type that can be reached is declared. -/
theorem buildDeclaration (h : Sufficient setup.options a roots registry)
    (hhook : ∀ d, setup.hook d = none) (hg : s.graph.WellFormed) (hmodel : s.graph.model = a)
    (hs : s.progress.Within registry) {id : Nat} (hid : id < s.graph.size)
    (ht : Reached setup.options.generics a roots (s.graph.tree id)) (name : String) :
    Outcome (fun _ => True) (fun _ => False) (buildDeclaration setup s name id) := by
  obtain ⟨d, hd, -⟩ := hg.exists_get hid
  obtain ⟨header, hheader, -⟩ := (h.declares _ ht).entry
  have hnamed := TypeTree.isNamed_of_header? hheader
  have hobject {t : TypeTree} (htree : s.graph.tree id = t) (henum : ∀ id e, t ≠ .enum id e) :=
    h.objectType hhook hg hmodel hs hid htree (htree ▸ ht) henum name
  rw [Walk.buildDeclaration, hd, ok_bind]
  cases d with
  | enum e => trivial
  | complex c => exact (hobject (hg.tree_eq hd) (by simp [treeOf])).bind fun _ _ => trivial
  | instantiation definition arguments =>
    obtain ⟨c, hc, -⟩ := hg.definition hd
    exact (hobject (hg.tree_instantiation hd hc) (by simp)).bind fun _ _ => trivial
  | _ =>
    rw [hg.tree_eq hd] at hnamed
    cases hnamed

/-- The unit that has waited longest can be built. -/
theorem step (h : Sufficient setup.options a roots registry) (hhook : ∀ d, setup.hook d = none)
    (hsound : s.Sound setup roots trees built) (hmodel : s.graph.model = a)
    (hqueue : s.progress.queue ≠ []) : ∃ s', step setup s = .ok s' := by
  -- Building the declaration succeeds, so only the completion could fail.
  have hlate : Outcome (fun _ => True) (fun e => ∃ name, e = .completedTwice name)
      (Walk.step setup s) := by
    have hwithin := h.within hsound hmodel
    have hg := hsound.graph
    have hhead := hsound.queue 0
    have hreached := hsound.reached
    obtain ⟨g, units, queue⟩ := s
    cases queue with
    | nil => exact absurd rfl hqueue
    | cons pending queue =>
      obtain ⟨-, hsource, htree⟩ := hhead pending rfl
      dsimp only at hmodel hsource htree
      subst hmodel
      have hbuild : Outcome _ _ (Walk.buildDeclaration setup ⟨g, units, queue⟩
          (unitName units pending.unit) pending.source) :=
        h.buildDeclaration (s := ⟨g, units, queue⟩) hhook hg rfl hwithin hsource
          (hreached _ (List.mem_of_getElem? htree)) _
      rw [Walk.step]
      refine (hbuild.mono (fun _ h => h) fun _ h => h.elim).bind fun r _ => ?_
      have hcomplete : Outcome (fun _ => True) (fun e => ∃ name, e = .completedTwice name)
          (r.2.progress.units.complete pending.unit r.1 r.1.references) := by
        unfold Registry.complete
        split
        · trivial
        · split
          · exact ⟨_, rfl⟩
          · trivial
      exact hcomplete.bind fun _ _ => trivial
  have hboth := (hsound.step_outcome hhook hqueue).and hlate
  refine (hboth.mono (fun _ h => h) ?_).exists_ok
  rintro e ⟨hpossible, name, rfl⟩
  exact hpossible

/-! ### Roots -/

/-- A root can be met. -/
theorem meetRoot (h : Sufficient setup.options a roots registry)
    (hhook : ∀ d, setup.hook d = none) (hsound : s.Sound setup roots trees built)
    (hmodel : s.graph.model = a) {id : Nat} (hid : id ∈ roots) :
    ∃ s', meetRoot setup s id = .ok s' := by
  obtain ⟨hlt, e, he⟩ := h.root id hid
  have hwithin := h.within hsound hmodel
  have hg := hsound.graph
  obtain ⟨g, p⟩ := s
  dsimp only at hmodel hwithin hg
  subst hmodel
  have hsize : id < g.size := Nat.lt_add_right _ hlt
  have hserved : ∀ u ∈ (g.tree id).rootNeeds setup.options.generics,
      Served (Progress.Within registry) g u := by
    intro u hu
    rw [← hg.modelTree_eq hlt] at hu
    exact h.served hg (.root hid hu)
  rw [hg.modelTree_eq hlt] at he
  suffices houtcome : Outcome (fun _ => True) (fun _ => False)
      (Walk.meetRoot setup ⟨g, p⟩ id) from houtcome.exists_ok
  rcases meetRoot_cases (p := p) hg hhook hsize with
    ⟨-, hneeds, -, heq⟩ | ⟨hneeds, hexpr, heq⟩
  · rw [heq]
    have hunit := hserved (g.tree id) (hneeds _ ▸ List.mem_singleton_self _)
    exact (hunit id hsize rfl p hwithin).bind fun _ _ => trivial
  · rw [hneeds] at hserved
    rw [hexpr] at he
    rw [heq]
    exact (convert_succeeds hg hhook hsize hserved he p hwithin).bind fun _ _ => trivial

/-- Roots can be met one after the other. -/
theorem meetRoots (h : Sufficient setup.options a roots registry) (ha : a.WellFormed)
    (hhook : ∀ d, setup.hook d = none) {ids : List TypeId} (hids : ∀ id ∈ ids, id ∈ roots) :
    ∃ s, ids.foldlM (Walk.meetRoot setup) (.start a) = .ok s ∧ s.graph.model = a ∧
      ∃ trees, s.Sound setup roots trees 0 := by
  have hmeet {ids : List TypeId} {s₀ : State} {trees : List TypeTree}
      (hids : ∀ id ∈ ids, id ∈ roots) (hsound : s₀.Sound setup roots trees 0)
      (hmodel : s₀.graph.model = a) :
      ∃ s, ids.foldlM (Walk.meetRoot setup) s₀ = .ok s ∧ s.graph.model = a ∧
        ∃ trees, s.Sound setup roots trees 0 := by
    induction ids generalizing s₀ trees with
    | nil => exact ⟨s₀, rfl, hmodel, trees, hsound⟩
    | cons id ids ih =>
      have hroot := hids id (by simp)
      obtain ⟨s₁, hs₁⟩ := h.meetRoot hhook hsound hmodel hroot
      obtain ⟨hadvances, ⟨trees₁, hsound₁⟩, -⟩ :=
        (meetRoot_outcome hsound hhook (hmodel ▸ (h.root id hroot).1) hroot).result hs₁
      rw [List.foldlM_cons, hs₁, ok_bind]
      exact ih (fun i hi => hids i (by simp [hi])) hsound₁ (hadvances.model.trans hmodel)
  exact hmeet hids (sound_start ha) rfl

/-! ### Walks -/

/-- A walk succeeds if a registry is enough for its roots. -/
theorem walk (h : Sufficient setup.options a roots registry) (ha : a.WellFormed)
    (hhook : ∀ d, setup.hook d = none) {ids : List TypeId} (hids : ∀ id ∈ ids, id ∈ roots) :
    ∃ units, walk setup .empty a ids = .ok units := by
  obtain ⟨s, hmeet, hmodel, trees, hsound⟩ := h.meetRoots ha hhook hids
  have hbound (s' : State) (trees' : List TypeTree) (built' : Nat)
      (hs' : s'.graph.model = s.graph.model) (h' : s'.Sound setup roots trees' built') :
      trees'.length < 2 ^ batchBound a := by
    rw [← hmodel, ← hs']
    exact h'.length_lt
  -- The number of batches is far too large to be computed.
  generalize batchBound a = batches at hbound
  have hbuild := hsound.buildAll_run hhook hbound
  have hnone : ∀ e, ¬ Fails setup s e := by
    rintro e ⟨n, s', hrun, hqueue, hfailed⟩
    obtain ⟨hmodel', trees', hsound'⟩ := hrun.sound hsound hhook
    obtain ⟨s'', hstep⟩ := h.step hhook hsound' (hmodel'.trans hmodel) hqueue
    cases hfailed.symm.trans hstep
  obtain ⟨t, ht⟩ := (hbuild.mono (fun _ h => h) hnone).exists_ok
  obtain ⟨⟨n, hrun, -⟩, units, hunits⟩ := hbuild.result ht
  exact ⟨units, walk_eq_ok_iff.mpr ⟨s, n, t, hmeet, hrun, hunits⟩⟩

end Sufficient

end Declgen.Walk
