import Declgen.Proofs.Walk.Flattening
import Declgen.Proofs.Walk.Order
import Declgen.Proofs.Walk.Renumbered
import Declgen.Proofs.Walk.Sharing
import Declgen.Proofs.Walk.Sufficient

/-!
# The order of roots

The order of the roots, and how often each of them is given, decides in which order units are met,
which of several equal types each unit is built from, and which types are made on the way. None of
this shows in the units but for their numbers. A walk that has succeeded leaves a registry that is
enough for any other walk from the same roots, so this one succeeds, too. Both reach the same types,
each of which has one header and, up to the numbers of units, one declaration.
-/

namespace Declgen.Walk

open Model Document TypeScript Declgen.Units

variable {setup : Setup} {a : Arena} {roots roots' : List TypeId} {trees trees' : List TypeTree}
  {built : Nat} {s s' s₀ : State} {units units' : List Completed}

/-! ### Units that have been built -/

/-- The fields of members are named after the members. -/
theorem map_name_of_calls {ctx : Context} {members : List Member} {p p' : Progress}
    {fields : List (TypeScript.Field Expr)} (h : Calls (FieldOf ctx) members p fields p') :
    fields.map (·.name) = members.map fun m => memberField ctx.options.fields m.name := by
  induction h with
  | nil => rfl
  | cons head _ ih =>
    obtain ⟨type, -, rfl⟩ := head
    rw [List.map_cons, List.map_cons, ih]

/-- Members that have been converted have fields with different names. -/
theorem nodup_fields_of_objectType (hg : s.graph.WellFormed) {id : Nat} (hid : id < s.graph.size)
    {scope : List String} {unit : String} {r : Expr × State}
    (hbuild : objectType setup s scope unit id = .ok r) {members : List TreeMember}
    (hmembers : (s.graph.tree id).members? s.graph.model = some members) :
    (members.map fun m => memberField setup.options.fields m.name).Nodup := by
  obtain ⟨⟨members', g⟩, hrun, hbuild⟩ := bind_eq_ok hbuild
  obtain ⟨⟨fields, p⟩, hfields, -⟩ := bind_eq_ok hbuild
  obtain ⟨hcalls, hnodup, -⟩ := convertMembers_eq_ok_iff.mp hfields
  obtain ⟨-, -, hmembers'⟩ := (membersOf_outcome hg hid).result hrun
  cases hmembers.symm.trans hmembers'
  rw [map_name_of_calls hcalls] at hnodup
  rw [List.map_map]
  exact hnodup

/-- What is built is a type that can be reached, and its fields have different names. -/
theorem Built.nodup_fields {unit : Completed} {source : TypeId} {type : Descriptor}
    (h : Built setup s₀ unit s source type) (hsound : s₀.Sound setup roots trees 0)
    (hhook : ∀ d, setup.hook d = none) :
    Reached setup.options.generics s.graph.model roots (s.graph.tree source) ∧
      ∀ members, (s.graph.tree source).members? s.graph.model = some members →
        (members.map fun m => memberField setup.options.fields m.name).Nodup := by
  obtain ⟨n, hrun⟩ := h.run
  obtain ⟨-, trees', hsound'⟩ := hrun.sound hsound hhook
  have hg := hsound'.graph
  have hhead := h.waiting
  obtain ⟨s', hstep, -⟩ := h.step
  have hget := h.get
  have hreached := hsound'.reached
  have hwaiting := hsound'.queue 0
  obtain ⟨g, units, queue⟩ := s
  obtain ⟨queue, rfl⟩ := List.head?_eq_some_iff.mp hhead
  obtain ⟨-, hsource, htree⟩ := hwaiting _ rfl
  dsimp only at hg hget hreached hsource htree ⊢
  refine ⟨hreached _ (List.mem_of_getElem? htree), fun members hmembers => ?_⟩
  rw [Walk.step] at hstep
  obtain ⟨r, hbuild, -⟩ := bind_eq_ok hstep
  rw [buildDeclaration, hget, ok_bind] at hbuild
  have hobject {scope : List String} {name : String} {r : Expr × State}
      (hobject : objectType setup ⟨g, units, queue⟩ scope name source = .ok r) :=
    nodup_fields_of_objectType (s := ⟨g, units, queue⟩) hg hsource hobject hmembers
  cases type with
  | complex c =>
    obtain ⟨r, hr, -⟩ := bind_eq_ok hbuild
    exact hobject hr
  | instantiation definition arguments =>
    obtain ⟨r, hr, -⟩ := bind_eq_ok hbuild
    exact hobject hr
  | _ =>
    rw [hg.tree_eq hget] at hmembers
    cases hmembers

/-! ### What a walk leaves -/

/-- What is reached depends on the set of the roots only. -/
theorem Reached.of_subset {style : GenericStyle} {t : TypeTree} (h : Reached style a roots t)
    (hroots : ∀ id ∈ roots, id ∈ roots') : Reached style a roots' t := by
  induction h with
  | root hid ht => exact .root (hroots _ hid) ht
  | dependency _ hu ih => exact .dependency ih hu

/-- The registry at the end of a walk is enough for its roots. -/
theorem Walked.sufficient (h : Walked setup a roots trees s units) (ha : a.WellFormed)
    (hreadable : Readable a) (hhook : ∀ d, setup.hook d = none)
    (hlt : ∀ id : Nat, id ∈ roots → id < a.size)
    (hwalk : walk setup .empty a roots = .ok units) :
    Sufficient setup.options a roots s.progress.units := by
  obtain ⟨s', hexplore, hunits⟩ := bind_eq_ok hwalk
  cases h.explored.symm.trans hexplore
  obtain ⟨s₀, hmeet, hbuild⟩ := bind_eq_ok hexplore
  obtain ⟨n, hrun⟩ := exists_run_of_buildAll hbuild
  have hids : ∀ id : Nat, id ∈ roots → id < a.size ∧ id ∈ roots := fun id hid => ⟨hlt id hid, hid⟩
  obtain ⟨hadvances, ⟨trees₀, hsound₀⟩, -⟩ :=
    (meetRoots_outcome (sound_start ha) hhook hids).result hmeet
  refine ⟨h.sound.distinct, fun id hid => ⟨hlt id hid, ?_⟩, fun t ht => ?_⟩
  · obtain ⟨e, he⟩ := exists_rootExpr?_of_meetRoots (sound_start ha) hhook hids hmeet id hid
    obtain ⟨size, hdiscovered⟩ := hrun.discovered hsound₀ hhook
    exact ⟨e, TypeTree.rootExpr?_extends hdiscovered.units he⟩
  · obtain ⟨i, hi⟩ := List.mem_iff_getElem?.mp (h.mem_of_reached ha hreadable hlt ht)
    obtain ⟨unit, hunit, -, hunitOf⟩ := h.exists_unitOf hi
    obtain ⟨header, hentry, hheader⟩ := h.sound.entry i t hi
    refine ⟨⟨header, hheader, List.mem_of_getElem? hentry⟩, ⟨_, _, hunitOf.declaration⟩, ?_⟩
    obtain ⟨s', source, type, hbuilt⟩ := (hrun.traced (traced_of_meetRoots hmeet)).exists_built
      hunits (List.mem_of_getElem? hunit)
    obtain ⟨hmodel, hkey, -⟩ := hbuilt.key_eq hsound₀ hhook
    obtain ⟨hreached, hfields⟩ := hbuilt.nodup_fields hsound₀ hhook
    rw [hmodel.trans hadvances.model] at hreached hfields
    -- The unit has been built from another type perhaps, but from one with this tree.
    have htree : s'.graph.tree source = t :=
      TypeTree.spelling_injective hreadable (hreached.ground ha hlt) (ht.ground ha hlt)
        (hkey.symm.trans hunitOf.key)
    rw [htree] at hfields
    exact hfields

/-! ### Units under other numbers -/

/-- The units of one type in two registries with the same entries differ in numbers only. -/
theorem UnitOf.renumber_eq {options : Options} {registry registry' : Registry} {t : TypeTree}
    {unit unit' : Completed} {f : UnitId → UnitId} (h : UnitOf options a registry t unit)
    (h' : UnitOf options a registry' t unit') (hf : Function.Injective f)
    (hknown : Renumbered f registry registry') (hid : f unit.id = unit'.id) :
    unit.renumber f = unit' := by
  have hheader : unit.header = unit'.header := Option.some.inj (h.header.symm.trans h'.header)
  have hdeclaration : unit.body.declaration.renumber f = unit'.body.declaration := by
    have hdeclaration' := h'.declaration
    rw [TypeTree.declaration?_renumbered hf hknown, ← hheader, h.declaration] at hdeclaration'
    exact Option.some.inj hdeclaration'
  have hreferences : unit.body.references.map f = unit'.body.references := by
    rw [h'.references, h.references, ← hid, ← hdeclaration, Declaration.references_renumber hf,
      List.filter_map]
    refine congrArg _ (List.filter_congr fun target _ => ?_)
    rw [Function.comp_apply, Bool.eq_iff_iff, bne_iff_ne, bne_iff_ne, hf.ne_iff]
  rw [Completed.renumber, hid, h.key.trans h'.key.symm, hheader, hdeclaration, hreferences]

section TwoWalks

/-- The registries of two walks that reach the same types hold the same entries. -/
theorem Walked.sameEntries (h : Walked setup a roots trees s units)
    (h' : Walked setup a roots' trees' s' units') (htrees : ∀ t, t ∈ trees ↔ t ∈ trees') :
    s.progress.units.SameEntries s'.progress.units := by
  have hsub {roots roots' : List TypeId} {trees trees' : List TypeTree} {s s' : State}
      {units units' : List Completed} (h : Walked setup a roots trees s units)
      (h' : Walked setup a roots' trees' s' units') (htrees : ∀ t ∈ trees, t ∈ trees')
      (entry : String × Header) (hentry : entry ∈ s.progress.units.entries) :
      entry ∈ s'.progress.units.entries := by
    obtain ⟨i, hi⟩ := List.mem_iff_getElem?.mp hentry
    obtain ⟨t, ht, hkey, hheader⟩ := h.sound.exists_tree hi
    obtain ⟨j, hj⟩ := List.mem_iff_getElem?.mp (htrees t (List.mem_of_getElem? ht))
    obtain ⟨header, hentry', hheader'⟩ := h'.sound.entry j t hj
    cases hheader.symm.trans hheader'
    rw [← hkey] at hentry'
    exact List.mem_of_getElem? hentry'
  exact fun entry => ⟨hsub h h' (fun t => (htrees t).mp) entry,
    hsub h' h (fun t => (htrees t).mpr) entry⟩

/-- The units of two walks that reach the same types differ in numbers and order only. -/
theorem Walked.exists_renumbering (h : Walked setup a roots trees s units)
    (h' : Walked setup a roots' trees' s' units') (htrees : ∀ t, t ∈ trees ↔ t ∈ trees') :
    ∃ f : Equiv.Perm UnitId, (units.map (Completed.renumber f)).Perm units' := by
  have hsame := h.sameEntries h' htrees
  have hdistinct := h.sound.distinct
  have hdistinct' := h'.sound.distinct
  have hknown := renumbered_of_sameEntries hsame hdistinct hdistinct'
  -- The units of one type correspond to each other.
  have heq {t : TypeTree} {i j : Nat} (hi : trees[i]? = some t) (hj : trees'[j]? = some t)
      {unit unit' : Completed} (hunit : unit.id = i) (hunit' : unit'.id = j)
      (hof : UnitOf setup.options a s.progress.units t unit)
      (hof' : UnitOf setup.options a s'.progress.units t unit') :
      unit.renumber (hsame.equiv hdistinct hdistinct') = unit' := by
    refine hof.renumber_eq hof' (Equiv.injective _) hknown ?_
    obtain ⟨header, hentry, -⟩ := h.sound.entry i t hi
    obtain ⟨header', hentry', -⟩ := h'.sound.entry j t hj
    rw [hunit, hunit']
    exact Registry.renumbering_of_lookup hentry (Registry.lookup_of_entry hdistinct' hentry')
  have hnodup : (units.map (Completed.renumber (hsame.equiv hdistinct hdistinct'))).Nodup := by
    refine .of_map (fun unit => unit.key) ?_
    rw [List.map_map]
    exact h.nodup_keys
  refine ⟨hsame.equiv hdistinct hdistinct',
    (List.perm_ext_iff_of_nodup hnodup (.of_map _ h'.nodup_keys)).mpr fun unit' => ?_⟩
  constructor
  · intro hmem
    obtain ⟨unit, hunit, rfl⟩ := List.mem_map.mp hmem
    obtain ⟨i, hi⟩ := List.mem_iff_getElem?.mp hunit
    obtain ⟨hid, t, ht, hof⟩ := h.unit i unit hi
    obtain ⟨j, hj⟩ := List.mem_iff_getElem?.mp ((htrees t).mp (List.mem_of_getElem? ht))
    obtain ⟨unit', hunit', hid', hof'⟩ := h'.exists_unitOf hj
    rw [heq ht hj hid hid' hof hof']
    exact List.mem_of_getElem? hunit'
  · intro hunit'
    obtain ⟨j, hj⟩ := List.mem_iff_getElem?.mp hunit'
    obtain ⟨hid', t, ht, hof'⟩ := h'.unit j unit' hj
    obtain ⟨i, hi⟩ := List.mem_iff_getElem?.mp ((htrees t).mpr (List.mem_of_getElem? ht))
    obtain ⟨unit, hunit, hid, hof⟩ := h.exists_unitOf hi
    rw [← heq hi ht hid hid' hof hof']
    exact List.mem_map_of_mem (List.mem_of_getElem? hunit)

end TwoWalks

/-- A walk of a readable document does not depend on the order of its roots or on how often each of
them is given. With the same set of roots it succeeds in the same cases. And then it gives the same
units under other numbers: the renumbering takes each unit to the one with its key, which has the
same name, namespace and type parameters, and the same declaration and references once the units in
these are renumbered, too. -/
theorem walk_root_set {d : ModelDocument} {m : LoadedModel} (hload : load d = .ok m)
    (hreadable : ReadableDocument d) (options : Options) {roots roots' : List TypeId}
    (hroots : ∀ id, id ∈ roots ↔ id ∈ roots') :
    ((∃ units, walk ⟨options, fun _ => none⟩ .empty m.model roots = .ok units) ↔
      ∃ units', walk ⟨options, fun _ => none⟩ .empty m.model roots' = .ok units') ∧
    ∀ units units', walk ⟨options, fun _ => none⟩ .empty m.model roots = .ok units →
      walk ⟨options, fun _ => none⟩ .empty m.model roots' = .ok units' →
      ∃ f : Equiv.Perm UnitId, (units.map (Completed.renumber f)).Perm units' := by
  have hloaded := loaded hload
  have hmodel := hloaded.wellFormed
  have hreadable' := hreadable.model hloaded
  have hhook : ∀ type, (Setup.mk options fun _ => none).hook type = none := fun _ => rfl
  have hsucceeds {roots roots' : List TypeId} (hroots : ∀ id ∈ roots', id ∈ roots)
      {units : List Completed}
      (hwalk : walk ⟨options, fun _ => none⟩ .empty m.model roots = .ok units) :
      ∃ units', walk ⟨options, fun _ => none⟩ .empty m.model roots' = .ok units' := by
    obtain ⟨hlt, trees, s, h⟩ := walked_of_walk hload hhook hwalk
    exact (h.sufficient hmodel hreadable' hhook hlt hwalk).walk hmodel hhook hroots
  refine ⟨⟨fun ⟨_, h⟩ => hsucceeds (fun id => (hroots id).mpr) h,
    fun ⟨_, h⟩ => hsucceeds (fun id => (hroots id).mp) h⟩, fun units units' hwalk hwalk' => ?_⟩
  obtain ⟨hlt, trees, s, h⟩ := walked_of_walk hload hhook hwalk
  obtain ⟨hlt', trees', s', h'⟩ := walked_of_walk hload hhook hwalk'
  refine h.exists_renumbering h' fun t => ⟨fun ht => ?_, fun ht => ?_⟩
  · exact h'.mem_of_reached hmodel hreadable' hlt'
      ((h.model ▸ h.sound.reached t ht).of_subset fun id => (hroots id).mp)
  · exact h.mem_of_reached hmodel hreadable' hlt
      ((h'.model ▸ h'.sound.reached t ht).of_subset fun id => (hroots id).mpr)

/-- The box of a number stands at two places of the model, and each order of the roots builds it
from another one. -/
theorem walk_root_set_threeBoxes :
    ∃ (units units' : List Completed) (f : Equiv.Perm UnitId),
      load threeBoxes = .ok threeBoxesModel ∧
      ReadableDocument threeBoxes ∧ (∀ id : TypeId, id ∈ [1, 4, 9, 7] ↔ id ∈ [9, 7, 4, 1, 9]) ∧
      walk ⟨{}, fun _ => none⟩ .empty threeBoxesModel.model [1, 4, 9, 7] = .ok units ∧
      walk ⟨{}, fun _ => none⟩ .empty threeBoxesModel.model [9, 7, 4, 1, 9] = .ok units' ∧
      units.map (fun unit => unit.key) =
        ["Holder", "Box\x601[integer]", "Box\x601[integer[]]"] ∧
      units'.map (fun unit => unit.key) =
        ["Box\x601[integer]", "Box\x601[integer[]]", "Holder"] ∧
      (units.map (Completed.renumber f)).Perm units' := by
  have hload : load threeBoxes = .ok threeBoxesModel := rfl
  have hroots : ∀ id : TypeId, id ∈ [1, 4, 9, 7] ↔ id ∈ [9, 7, 4, 1, 9] := by
    intro id
    simp only [List.mem_cons, List.not_mem_nil, or_false]
    grind
  have hwalk : (walk ⟨{}, fun _ => none⟩ .empty threeBoxesModel.model [1, 4, 9, 7]).map
      (·.map fun unit => unit.key) =
        .ok ["Holder", "Box\x601[integer]", "Box\x601[integer[]]"] := by decide +kernel
  have hwalk' : (walk ⟨{}, fun _ => none⟩ .empty threeBoxesModel.model [9, 7, 4, 1, 9]).map
      (·.map fun unit => unit.key) =
        .ok ["Box\x601[integer]", "Box\x601[integer[]]", "Holder"] := by decide +kernel
  obtain ⟨units, hwalk, hkeys⟩ := exists_of_map_eq_ok hwalk
  obtain ⟨units', hwalk', hkeys'⟩ := exists_of_map_eq_ok hwalk'
  obtain ⟨f, hperm⟩ :=
    (walk_root_set hload threeBoxes_readable {} hroots).2 units units' hwalk hwalk'
  exact ⟨units, units', f, hload, threeBoxes_readable, hroots, hwalk, hwalk', hkeys, hkeys', hperm⟩

end Declgen.Walk
