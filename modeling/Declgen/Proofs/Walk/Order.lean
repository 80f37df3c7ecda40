import Declgen.Proofs.Document.Faithful
import Declgen.Proofs.Walk.BreadthFirst

/-!
# Roots and the order of units

When records and enumerations are the roots of a walk, the first units have their identities, in the
order of the roots, and all other units follow breadth first. Distinct roots have distinct units
unless the identity of a record with parameters, its name with its arity, is the name of another
root.
-/

namespace Declgen.Walk

open Model Document TypeScript Declgen.Units

/-! ### Roots -/

section Roots

variable {setup : Setup} {a : Arena} {ids : List TypeId} {s s' : State}

/-- What is known when records and enumerations have been met as roots. -/
structure RootsMet (setup : Setup) (a : Arena) (ids : List TypeId) (s : State) : Prop where
  /-- No type has been made. -/
  graph : s.graph = .ofModel a
  /-- Nothing has been built. -/
  sound : ∃ trees, s.Sound setup ids trees 0
  /-- There is one unit for each identity of a root, in the order in which the identities occur. -/
  keys : (s.progress.units.entries.map fun entry => entry.1) =
    (ids.map fun id => ((Graph.ofModel a).tree id).spelling).eraseDups
  /-- Only roots wait. -/
  sources : ∀ waiting ∈ s.progress.queue, waiting.source ∈ ids

/-- Meeting a record or an enumeration as a root asks for its unit. -/
theorem meetRoot_named (hs : s.graph.WellFormed) (hhook : ∀ d, setup.hook d = none) {id : Nat}
    {d : Descriptor} {name : String} (hget : s.graph.get id = .ok d)
    (hname : d.qualifiedName? = some name) (h : meetRoot setup s id = .ok s') :
    s'.graph = s.graph ∧ Meet s.graph (s.graph.tree id) s.progress s'.progress ∧
      ∀ waiting ∈ s'.progress.queue, waiting ∈ s.progress.queue ∨ waiting.source = id := by
  have hid := Graph.get_lt hget
  have htree := hs.tree_eq hget
  have hunit (hnamed : (s.graph.tree id).isNamed = true)
      (h : (do
        let r ← (unitFor s.graph id).run s.progress
        pure { s with progress := r.2 }) = Except.ok s') :
      s'.graph = s.graph ∧ Meet s.graph (s.graph.tree id) s.progress s'.progress ∧
        ∀ waiting ∈ s'.progress.queue, waiting ∈ s.progress.queue ∨ waiting.source = id := by
    obtain ⟨r, hr, h⟩ := bind_eq_ok h
    cases h
    have hleads : Leads (Gains fun waiting => waiting.source = id) (unitFor s.graph id) :=
      unitFor_leads fun _ => rfl
    exact ⟨rfl, ((unitFor_outcome hs hid hnamed s.progress).result hr).1,
      ((hleads s.progress).result hr).queue⟩
  rw [meetRoot, hget, ok_bind, hhook] at h
  cases d with
  | enum e => exact hunit (by rw [htree]; rfl) h
  | complex c => exact hunit (by rw [htree]; rfl) h
  | _ => cases hname

/-- The keys after a type has been met. -/
theorem Meet.keys {g : Graph} {t : TypeTree} {p p' : Progress} (h : Meet g t p p') :
    (p'.units.entries.map fun entry => entry.1) =
      if t.spelling ∈ p.units.entries.map (fun entry => entry.1) then
        p.units.entries.map fun entry => entry.1
      else (p.units.entries.map fun entry => entry.1) ++ [t.spelling] := by
  cases h with
  | again hkey =>
    obtain ⟨header, hentry⟩ := Registry.exists_entry hkey
    rw [if_pos (List.mem_map.mpr ⟨_, List.mem_of_getElem? hentry, rfl⟩)]
  | first _ _ hkey =>
    rw [if_neg, Registry.entries_append, List.map_append]
    · rfl
    · intro hmem
      obtain ⟨entry, hentry, heq⟩ := List.mem_map.mp hmem
      exact Registry.lookup_eq_none_iff.mp hkey entry hentry heq

/-- Meeting records and enumerations as roots, one after the other. -/
theorem rootsMet (ha : a.WellFormed) (hhook : ∀ d, setup.hook d = none)
    (hids : ∀ id ∈ ids, id ∈ a.namedTypes)
    (h : ids.foldlM (meetRoot setup) (State.start a) = .ok s) : RootsMet setup a ids s := by
  have hlt : ∀ id : Nat, id ∈ ids → id < a.size := by
    intro id hid
    obtain ⟨d, name, hget, -⟩ := Arena.exists_of_mem_namedTypes (hids id hid)
    exact Arena.get_lt hget
  have hsound := ((meetRoots_outcome (sound_start ha) hhook
    fun id hid => ⟨hlt id hid, hid⟩).result h).2.1
  suffices hmet : s.graph = .ofModel a ∧
      (s.progress.units.entries.map fun entry => entry.1) =
        (ids.map fun id => ((Graph.ofModel a).tree id).spelling).eraseDups ∧
      ∀ waiting ∈ s.progress.queue, waiting.source ∈ ids from
    ⟨hmet.1, hsound, hmet.2.1, hmet.2.2⟩
  clear hsound hlt
  -- The roots are met from the first to the last.
  induction ids using List.reverseRecOn generalizing s with
  | nil =>
    cases h
    exact ⟨rfl, rfl, by simp [State.start]⟩
  | append_singleton ids id ih =>
    rw [List.foldlM_append] at h
    obtain ⟨s₁, hfirst, h⟩ := bind_eq_ok h
    obtain ⟨hgraph, hkeys, hsources⟩ := ih (fun id hid => hids id (by simp [hid])) hfirst
    rw [List.foldlM_cons] at h
    obtain ⟨s₂, hmeet, h⟩ := bind_eq_ok h
    cases h
    obtain ⟨d, name, hget, hname⟩ := Arena.exists_of_mem_namedTypes (hids id (by simp))
    have hget' : s₁.graph.get id = .ok d := by
      rw [hgraph]
      exact Graph.get_model (g := .ofModel a) hget
    obtain ⟨hgraph', hmeet', hqueue⟩ :=
      meetRoot_named (hgraph ▸ Graph.ofModel_wellFormed ha) hhook hget' hname hmeet
    refine ⟨hgraph'.trans hgraph, ?_, fun waiting hwaiting => ?_⟩
    · rw [hmeet'.keys, hkeys, hgraph, List.map_append, List.map_singleton, eraseDups_concat]
      simp only [List.mem_eraseDups]
    · rcases hqueue waiting hwaiting with hold | hnew
      · exact List.mem_append_left _ (hsources waiting hold)
      · simp [hnew]

end Roots

/-! ### Roots with one identity -/

section Identities

variable {a : Arena} {i j : TypeId}

/-- Two records with parameters and one identity have one name: the arity has no backtick. -/
theorem qualifiedName_eq_of_generic {c c' : ComplexType} (hc : c.isGeneric = true)
    (hc' : c'.isGeneric = true) (h : recordIdentity c = recordIdentity c') :
    c.qualifiedName = c'.qualifiedName := by
  have hshorter {c c' : ComplexType} {more : List Char}
      (hname : c'.qualifiedName.toList = c.qualifiedName.toList ++ more)
      (hrest : '\x60' :: Nat.toDigits 10 c.typeParams.length =
        more ++ '\x60' :: Nat.toDigits 10 c'.typeParams.length) :
      c.qualifiedName = c'.qualifiedName := by
    cases more with
    | nil =>
      rw [List.append_nil] at hname
      exact String.toList_injective hname.symm
    | cons ch more =>
      obtain ⟨-, hrest⟩ := List.cons.inj hrest
      have hmem : '\x60' ∈ Nat.toDigits 10 c.typeParams.length := by simp [hrest]
      exact absurd (isDigit_of_mem_arity hmem) (by decide)
  have hlist := congrArg String.toList h
  rw [toList_recordIdentity, toList_recordIdentity, if_pos hc, if_pos hc'] at hlist
  rcases List.append_eq_append_iff.mp hlist with ⟨more, hname, hrest⟩ | ⟨more, hname, hrest⟩
  · exact hshorter hname hrest
  · exact (hshorter hname hrest).symm

/-- A record has type parameters, and another type has none but has the identity of the record as
its name. -/
def TakesIdentity (a : Arena) (record other : TypeId) : Prop :=
  ∃ c type, a.get record = .ok (.complex c) ∧ c.isGeneric = true ∧ a.get other = .ok type ∧
    type.qualifiedName? = some (recordIdentity c) ∧
    ∀ c', type = .complex c' → c'.isGeneric = false

/-- The identity of a record or an enumeration of a model. -/
def rootKey (a : Arena) (id : TypeId) : String := ((Graph.ofModel a).tree id).spelling

/-- The identity of a record, as a root. -/
theorem rootKey_complex (ha : a.WellFormed) {c : ComplexType} (h : a.get i = .ok (.complex c)) :
    rootKey a i = recordIdentity c := by
  rw [rootKey, (Graph.ofModel_wellFormed ha).tree_eq (Graph.get_model (g := .ofModel a) h)]
  rfl

/-- The identity of an enumeration, as a root. -/
theorem rootKey_enum (ha : a.WellFormed) {e : EnumType} (h : a.get i = .ok (.enum e)) :
    rootKey a i = e.qualifiedName := by
  rw [rootKey, (Graph.ofModel_wellFormed ha).tree_eq (Graph.get_model (g := .ofModel a) h)]
  rfl

/-- A type without parameters is told by its name. -/
theorem rootKey_plain (ha : a.WellFormed) {type : Descriptor} {name : String}
    (h : a.get i = .ok type) (hname : type.qualifiedName? = some name)
    (hplain : ∀ c, type = .complex c → c.isGeneric = false) : rootKey a i = name := by
  cases type with
  | enum e =>
    cases hname
    exact rootKey_enum ha h
  | complex c =>
    cases hname
    rw [rootKey_complex ha h, recordIdentity, if_neg (by simp [hplain c rfl])]
  | _ => cases hname

/-- Two records or enumerations have one identity only if one of them takes that of the other. -/
theorem rootKey_eq_iff (ha : a.WellFormed) (hdistinct : a.NamesDistinct) (hi : i ∈ a.namedTypes)
    (hj : j ∈ a.namedTypes) :
    rootKey a i = rootKey a j ↔ i = j ∨ TakesIdentity a i j ∨ TakesIdentity a j i := by
  obtain ⟨type, name, hget, hname⟩ := Arena.exists_of_mem_namedTypes hi
  obtain ⟨type', name', hget', hname'⟩ := Arena.exists_of_mem_namedTypes hj
  -- A type has parameters, or its name is its identity.
  have hcases (type : Descriptor) :
      (∃ c, type = .complex c ∧ c.isGeneric = true) ∨
        ∀ c, type = .complex c → c.isGeneric = false := by
    by_cases h : ∃ c, type = .complex c ∧ c.isGeneric = true
    · exact .inl h
    · exact .inr fun c hc => by_contra fun hgeneric => h ⟨c, hc, by simpa using hgeneric⟩
  constructor
  · intro h
    rcases hcases type with ⟨c, rfl, hc⟩ | hplain <;>
      rcases hcases type' with ⟨c', rfl, hc'⟩ | hplain'
    · rw [rootKey_complex ha hget, rootKey_complex ha hget'] at h
      have heq := qualifiedName_eq_of_generic hc hc' h
      exact .inl (hdistinct hget hget' rfl (congrArg some heq.symm))
    · rw [rootKey_complex ha hget, rootKey_plain ha hget' hname' hplain'] at h
      exact .inr (.inl ⟨c, type', hget, hc, hget', h ▸ hname', hplain'⟩)
    · rw [rootKey_plain ha hget hname hplain, rootKey_complex ha hget'] at h
      exact .inr (.inr ⟨c', type, hget', hc', hget, h ▸ hname, hplain⟩)
    · rw [rootKey_plain ha hget hname hplain, rootKey_plain ha hget' hname' hplain'] at h
      exact .inl (hdistinct hget hget' hname (h ▸ hname'))
  · have htaken {i j : TypeId} (h : TakesIdentity a i j) : rootKey a i = rootKey a j := by
      obtain ⟨c, type, hc, -, hother, hname, hplain⟩ := h
      rw [rootKey_complex ha hc, rootKey_plain ha hother hname hplain]
    rintro (rfl | h | h)
    · rfl
    · exact htaken h
    · exact (htaken h).symm

/-- No type takes its own identity. -/
theorem TakesIdentity.ne (h : TakesIdentity a i j) : i ≠ j := by
  obtain ⟨c, type, hc, hgeneric, hother, -, hplain⟩ := h
  rintro rfl
  cases hc.symm.trans hother
  rw [hplain c rfl] at hgeneric
  cases hgeneric

end Identities

/-! ### Walks -/

section Walks

variable {setup : Setup} {roots : List TypeId} {trees : List TypeTree} {s₀ s : State}
  {unit : Completed} {source : TypeId} {type : Descriptor}

/-- A unit has the identity of the type it is built from, and what waited at the start has not been
overtaken. -/
theorem Built.key_eq (h : Built setup s₀ unit s source type)
    (hsound : s₀.Sound setup roots trees 0) (hhook : ∀ d, setup.hook d = none) :
    s.graph.model = s₀.graph.model ∧ unit.key = (s.graph.tree source).spelling ∧
      s₀.progress.queue.drop unit.id <+: s.progress.queue := by
  obtain ⟨n, hrun⟩ := h.run
  obtain ⟨hmodel, trees', hsound'⟩ := hrun.sound hsound hhook
  obtain ⟨size, hdiscovered⟩ := hrun.discovered hsound hhook
  rw [Nat.zero_add] at hsound'
  have hhead : s.progress.queue[0]? = some ⟨unit.id, source⟩ := by
    rw [← List.head?_eq_getElem?]
    exact h.waiting
  obtain ⟨hunit, -, htree⟩ := hsound'.queue 0 _ hhead
  rw [Nat.add_zero] at hunit htree
  dsimp only at hunit htree
  obtain ⟨header, hentry, -⟩ := hsound'.entry n _ htree
  refine ⟨hmodel, ?_, hunit ▸ hdiscovered.queue⟩
  obtain ⟨s', hstep, hslot⟩ := h.step
  have hqueue : s.progress.queue ≠ [] := by
    rintro hnil
    rw [hnil] at hhead
    cases hhead
  obtain ⟨-, hextends, -⟩ := (hsound'.step_outcome hhook hqueue).result hstep
  have hentry' := hextends.getElem? hentry
  rw [Registry.getElem?_entries, ← hunit, hslot] at hentry'
  simp only [Option.map_some, Option.some.injEq, Prod.mk.injEq] at hentry'
  exact hentry'.1

/-- The units of a walk from the state `s₀` are in the order of their discovery: first those of the
distinct roots in the order in which these occur, each built from its root, then all others, each of
them once and breadth first. -/
structure InDiscoveryOrder (setup : Setup) (s₀ : State) (roots : List TypeId)
    (units : List Completed) : Prop where
  /-- Each distinct root has the unit at its place. -/
  first : ∀ (i : Nat) (id : TypeId), roots.eraseDups[i]? = some id →
    ∃ unit s type, units[i]? = some unit ∧ Built setup s₀ unit s id type
  /-- No unit occurs twice. -/
  once : (units.map fun unit => unit.key).Nodup
  /-- The others come breadth first. -/
  others : BreadthFirst units roots.eraseDups.length

/-- Those that wait when the roots have been met have the identities of the roots. -/
theorem RootsMet.map_rootKey {a : Arena} (h : RootsMet setup a roots s₀) :
    s₀.progress.queue.map (fun waiting => rootKey a waiting.source) =
      (roots.map (rootKey a)).eraseDups := by
  obtain ⟨trees, hsound⟩ := h.sound
  refine Eq.trans ?_ h.keys
  rw [hsound.keys_eq]
  refine List.ext_getElem ?_ fun k hk _ => ?_
  · rw [List.length_map, List.length_map, ← hsound.length, Nat.zero_add]
  · rw [List.length_map] at hk
    obtain ⟨-, -, htree⟩ := hsound.queue k _ (List.getElem?_eq_getElem hk)
    rw [Nat.zero_add] at htree
    obtain ⟨hlt, htree⟩ := List.getElem?_eq_some_iff.mp htree
    rw [List.getElem_map, List.getElem_map, htree, h.graph]
    rfl

/-- Where distinct roots have distinct identities, each of them waits at its place. -/
theorem RootsMet.exists_waiting {a : Arena} (h : RootsMet setup a roots s₀)
    (hapart : ∀ id ∈ roots, ∀ other ∈ roots, rootKey a id = rootKey a other → id = other) {i : Nat}
    {id : TypeId} (hid : roots.eraseDups[i]? = some id) :
    ∃ waiting, s₀.progress.queue[i]? = some waiting ∧ waiting.source = id := by
  have hkeys := h.map_rootKey
  rw [eraseDups_map hapart] at hkeys
  have hget := congrArg (·[i]?) hkeys
  simp only [List.getElem?_map, hid, Option.map_some, Option.map_eq_some_iff] at hget
  obtain ⟨waiting, hwaiting, hkey⟩ := hget
  have hroot : id ∈ roots := List.mem_eraseDups.mp (List.mem_of_getElem? hid)
  exact ⟨waiting, hwaiting,
    hapart _ (h.sources _ (List.mem_of_getElem? hwaiting)) _ hroot hkey⟩

/-- A walk has met records and enumerations as roots, has come to the state `s₀`, and has built all
units from there on. -/
structure WalkedFrom (setup : Setup) (a : Arena) (roots : List TypeId) (s₀ s : State)
    (units : List Completed) : Prop where
  /-- The roots have been met. -/
  meet : roots.foldlM (meetRoot setup) (State.start a) = .ok s₀
  /-- Nothing else has been met with them. -/
  rootsMet : RootsMet setup a roots s₀
  /-- As many builds as there are units lead to the end of the walk. -/
  run : Run setup units.length s₀ s
  /-- The units belong to types. -/
  walked : ∃ trees, Walked setup a roots trees s units
  /-- They are those of the registry. -/
  completed : s.progress.units.completed = .ok units

/-- Every walk from records and enumerations is of this kind. -/
theorem exists_walkedFrom {d : ModelDocument} {m : LoadedModel} (hload : load d = .ok m)
    (hhook : ∀ type, setup.hook type = none) (hroots : ∀ id ∈ roots, id ∈ m.model.namedTypes)
    {units : List Completed} (hwalk : walk setup .empty m.model roots = .ok units) :
    ∃ s₀ s, WalkedFrom setup m.model roots s₀ s units := by
  obtain ⟨-, trees, s, hwalked⟩ := walked_of_walk hload hhook hwalk
  obtain ⟨s', hexplore, hcompleted⟩ := bind_eq_ok hwalk
  cases hexplore.symm.trans hwalked.explored
  obtain ⟨s₀, hmeet, hbuild⟩ := bind_eq_ok hwalked.explored
  obtain ⟨n, hrun⟩ := exists_run_of_buildAll hbuild
  have hmet : RootsMet setup m.model roots s₀ :=
    rootsMet (loaded hload).wellFormed hhook hroots hmeet
  obtain ⟨trees₀, hsound₀⟩ := hmet.sound
  obtain ⟨-, trees', hsound⟩ := hrun.sound hsound₀ hhook
  -- All units have been built, so the run has as many builds as there are units.
  have hn : n = units.length := by
    have hlength := congrArg List.length hwalked.entries
    rw [List.length_map, Registry.length_entries] at hlength
    have hall := hwalked.sound.length
    have hdone := hsound.length
    have hsize := hwalked.sound.size
    have hsize' := hsound.size
    omega
  exact ⟨s₀, s, hmeet, hmet, hn ▸ hrun, ⟨trees, hwalked⟩, hcompleted⟩

namespace WalkedFrom

variable {a : Arena} {units : List Completed}

/-- The units have the keys of the registry, in order. -/
theorem keys_eq (h : WalkedFrom setup a roots s₀ s units) : units.map (fun unit => unit.key) =
    s.progress.units.entries.map fun entry => entry.1 := by
  obtain ⟨trees, hwalked⟩ := h.walked
  rw [← hwalked.entries, List.map_map]
  rfl

/-- There are as many units as the registry has. -/
theorem length_eq (h : WalkedFrom setup a roots s₀ s units) :
    s.progress.units.size = units.length := by
  rw [← Registry.length_entries, ← List.length_map fun entry : String × Header => entry.1,
    ← h.keys_eq, List.length_map]

/-- No two units have the same key. -/
theorem nodup_keys (h : WalkedFrom setup a roots s₀ s units) :
    (units.map fun unit => unit.key).Nodup := by
  obtain ⟨trees, hwalked⟩ := h.walked
  exact hwalked.nodup_keys

/-- Without a hook, all builds have been discoveries. -/
theorem exists_discovered (h : WalkedFrom setup a roots s₀ s units)
    (hhook : ∀ d, setup.hook d = none) : ∃ size, Discovered s₀ size units.length s := by
  obtain ⟨trees, hsound⟩ := h.rootsMet.sound
  exact h.run.discovered hsound hhook

/-- The first keys are the identities of the roots. -/
theorem keys_prefix (h : WalkedFrom setup a roots s₀ s units)
    (hhook : ∀ d, setup.hook d = none) :
    (roots.map (rootKey a)).eraseDups <+: units.map fun unit => unit.key := by
  obtain ⟨size, hdiscovered⟩ := h.exists_discovered hhook
  rw [h.keys_eq]
  exact h.rootsMet.keys ▸ hdiscovered.units.map _

/-- The other units come breadth first. -/
theorem breadthFirst (h : WalkedFrom setup a roots s₀ s units)
    (hhook : ∀ d, setup.hook d = none) :
    BreadthFirst units (roots.map (rootKey a)).eraseDups.length := by
  obtain ⟨size, hdiscovered⟩ := h.exists_discovered hhook
  obtain ⟨trees, hwalked⟩ := h.walked
  obtain ⟨units', hcompleted, hget⟩ := hwalked.sound.completed
  cases h.completed.symm.trans hcompleted
  have hsize : s₀.progress.units.size = (roots.map (rootKey a)).eraseDups.length := by
    rw [← Registry.length_entries, ← List.length_map fun entry : String × Header => entry.1,
      h.rootsMet.keys]
    rfl
  rw [← hsize]
  refine hdiscovered.breadthFirst h.length_eq fun i unit hunit => ?_
  rw [hget, Option.bind_eq_some_iff] at hunit
  obtain ⟨slot, hslot, hunit⟩ := hunit
  obtain ⟨body, hbody, rfl⟩ := Option.map_eq_some_iff.mp hunit
  exact ⟨slot, hslot, hbody⟩

/-- Where distinct roots have distinct identities, the unit at the place of a root has been built
from it. -/
theorem exists_built (h : WalkedFrom setup a roots s₀ s units) (hhook : ∀ d, setup.hook d = none)
    (hapart : ∀ id ∈ roots, ∀ other ∈ roots, rootKey a id = rootKey a other → id = other) {i : Nat}
    {id : TypeId} (hid : roots.eraseDups[i]? = some id) :
    ∃ unit s type, units[i]? = some unit ∧ Built setup s₀ unit s id type := by
  obtain ⟨waiting, hwaiting, rfl⟩ := h.rootsMet.exists_waiting hapart hid
  obtain ⟨trees₀, hsound₀⟩ := h.rootsMet.sound
  obtain ⟨trees, hwalked⟩ := h.walked
  have hi : i < units.length := by
    have hle := (h.keys_prefix hhook).length_le
    have hlt := (List.getElem?_eq_some_iff.mp hid).1
    rw [eraseDups_map hapart, List.length_map, List.length_map] at hle
    omega
  have hunit : units[i]? = some units[i] := List.getElem?_eq_getElem hi
  obtain ⟨s', source, type, hbuilt⟩ :=
    (h.run.traced (traced_of_meetRoots h.meet)).exists_built h.completed (List.getElem_mem hi)
  refine ⟨units[i], s', type, hunit, ?_⟩
  -- The unit has waited for the root ever since the roots were met.
  obtain ⟨-, -, more, hmore⟩ := hbuilt.key_eq hsound₀ hhook
  have hhead := hbuilt.waiting
  rw [(hwalked.unit i _ hunit).1] at hmore hhead
  rw [← hmore, List.head?_append, List.head?_drop, hwaiting] at hhead
  cases hhead
  exact hbuilt

/-- If each of the distinct roots has a unit built from it at its place, they have distinct
identities. -/
theorem eq_of_rootKey_eq (h : WalkedFrom setup a roots s₀ s units) (ha : a.WellFormed)
    (hhook : ∀ d, setup.hook d = none) (hlt : ∀ id : Nat, id ∈ roots → id < a.size)
    (hfirst : ∀ (i : Nat) (id : TypeId), roots.eraseDups[i]? = some id →
      ∃ unit s type, units[i]? = some unit ∧ Built setup s₀ unit s id type)
    {id other : TypeId} (hid : id ∈ roots) (hother : other ∈ roots)
    (hkey : rootKey a id = rootKey a other) : id = other := by
  obtain ⟨trees₀, hsound₀⟩ := h.rootsMet.sound
  have hplace {id : TypeId} (hid : id ∈ roots) : ∃ i : Nat, roots.eraseDups[i]? = some id ∧
      (units.map fun unit => unit.key)[i]? = some (rootKey a id) := by
    obtain ⟨i, hi⟩ := List.mem_iff_getElem?.mp (List.mem_eraseDups.mpr hid)
    obtain ⟨unit, s', type, hunit, hbuilt⟩ := hfirst i id hi
    obtain ⟨hmodel, hkey, -⟩ := hbuilt.key_eq hsound₀ hhook
    refine ⟨i, hi, ?_⟩
    rw [List.getElem?_map, hunit, Option.map_some, hkey,
      Graph.tree_ofModel ha (hmodel.trans (congrArg Graph.model h.rootsMet.graph)) (hlt id hid)]
    rfl
  obtain ⟨i, hi, hplaced⟩ := hplace hid
  obtain ⟨j, hj, hplaced'⟩ := hplace hother
  have hij : i = j := by
    refine (List.getElem?_inj (List.getElem?_eq_some_iff.mp hplaced).1 h.nodup_keys).mp ?_
    rw [hplaced, hplaced', hkey]
  rw [hij, hj, Option.some.injEq] at hi
  exact hi.symm

end WalkedFrom

/-- A walk of a loaded document from records and enumerations discovers its units breadth first. The
first units have the identities of the roots, each identity once and in the order in which they
occur. Each of the others is referred to by an earlier unit, and those that are referred to first
come first. So the walk starts with the units of the distinct roots exactly if none of these is a
record with parameters whose identity is the name of another one without parameters. -/
theorem walk_discovers {d : ModelDocument} {m : LoadedModel} (hload : load d = .ok m)
    (hhook : ∀ type, setup.hook type = none) (hroots : ∀ id ∈ roots, id ∈ m.model.namedTypes)
    {units : List Completed} (hwalk : walk setup .empty m.model roots = .ok units) :
    ∃ s₀ keys, roots.foldlM (meetRoot setup) (State.start m.model) = .ok s₀ ∧
      roots.mapM (identity (.ofModel m.model)) = .ok keys ∧
      (units.take keys.eraseDups.length).map (fun unit => unit.key) = keys.eraseDups ∧
      (units.map fun unit => unit.key).Nodup ∧ BreadthFirst units keys.eraseDups.length ∧
      (InDiscoveryOrder setup s₀ roots units ↔
        ∀ id ∈ roots, ∀ other ∈ roots, ¬ TakesIdentity m.model id other) := by
  have hloaded := loaded hload
  have hmodel := hloaded.wellFormed
  have hlt : ∀ id : Nat, id ∈ roots → id < m.model.size := by
    intro id hid
    obtain ⟨type, name, hget, -⟩ := Arena.exists_of_mem_namedTypes (hroots id hid)
    exact Arena.get_lt hget
  have hiff {id other : TypeId} (hid : id ∈ roots) (hother : other ∈ roots) :=
    rootKey_eq_iff hmodel hloaded.namesDistinct (hroots id hid) (hroots other hother)
  obtain ⟨s₀, s, h⟩ := exists_walkedFrom hload hhook hroots hwalk
  have hprefix := h.keys_prefix hhook
  have hbreadth := h.breadthFirst hhook
  refine ⟨s₀, roots.map (rootKey m.model), h.meet, mapM_eq_ok fun id hid =>
    identity_eq (Graph.ofModel_wellFormed hmodel) (hlt id hid), ?_, h.nodup_keys, hbreadth,
    fun horder id hid other hother htakes => ?_, fun hapart => ?_⟩
  · rw [List.map_take]
    exact (List.prefix_iff_eq_take.mp hprefix).symm
  · exact htakes.ne (h.eq_of_rootKey_eq hmodel hhook hlt horder.first hid hother
      ((hiff hid hother).mpr (.inr (.inl htakes))))
  · have hdistinct : ∀ id ∈ roots, ∀ other ∈ roots,
        rootKey m.model id = rootKey m.model other → id = other := by
      intro id hid other hother hkey
      rcases (hiff hid hother).mp hkey with heq | htakes | htakes
      · exact heq
      · exact absurd htakes (hapart id hid other hother)
      · exact absurd htakes (hapart other hother id hid)
    rw [eraseDups_map hdistinct, List.length_map] at hbreadth
    exact ⟨fun i id hid => h.exists_built hhook hdistinct hid, h.nodup_keys, hbreadth⟩

end Walks

/-! ### A root that takes the identity of another one -/

/-- The generic record and the one that uses it are discovered in this order. -/
theorem walk_discovers_boxes :
    ∃ units s₀, load boxes = .ok boxesModel ∧
      walk ⟨{ generics := .preserve }, fun _ => none⟩ .empty boxesModel.model [1, 1] = .ok units ∧
      units.map (fun unit => unit.key) = ["Holder", "Box\x601"] ∧
      InDiscoveryOrder ⟨{ generics := .preserve }, fun _ => none⟩ s₀ [1, 1] units := by
  have hwalk : (walk ⟨{ generics := .preserve }, fun _ => none⟩ .empty boxesModel.model
      [1, 1]).map (·.map fun unit => unit.key) = .ok ["Holder", "Box\x601"] := by decide +kernel
  obtain ⟨units, hwalk, hkeys⟩ := exists_of_map_eq_ok hwalk
  obtain ⟨s₀, keys, -, -, -, -, -, horder⟩ := walk_discovers load_boxes (fun _ => rfl)
    (by decide) hwalk
  refine ⟨units, s₀, load_boxes, hwalk, hkeys, horder.mpr ?_⟩
  rintro id hid other hother ⟨c, type, hc, hgeneric, -⟩
  obtain rfl : id = 1 := by simpa using hid
  cases hc
  cases hgeneric

/-- A record whose name is the identity of a record with parameters. -/
def tickedBoxes : ModelDocument :=
  ⟨[], [.complex ⟨"Box\x601", none, [], none, []⟩, .complex ⟨"Box", none, ["T"], none, []⟩]⟩

/-- The model of these records. -/
def tickedBoxesModel : LoadedModel :=
  ⟨⟨#[some (.complex ⟨"Box\x601", none, [], none, []⟩),
      some (.complex ⟨"Box", none, ["T"], none, []⟩)]⟩, [], [("Box\x601", 0), ("Box", 1)]⟩

/-- The two records are different roots, and only the first of them is built. -/
theorem tickedBoxes_merged :
    load tickedBoxes = .ok tickedBoxesModel ∧
      (∀ id ∈ [0, 1], id ∈ tickedBoxesModel.model.namedTypes) ∧
      ∃ unit, walk ⟨{}, fun _ => none⟩ .empty tickedBoxesModel.model [0, 1] = .ok [unit] ∧
        unit.header.name = "Box1" ∧
        ∀ s₀, ¬ InDiscoveryOrder ⟨{}, fun _ => none⟩ s₀ [0, 1] [unit] := by
  have hwalk : walk ⟨{}, fun _ => none⟩ .empty tickedBoxesModel.model [0, 1] =
      .ok [⟨0, "Box\x601", ⟨"Box1", none, []⟩, ⟨.alias "Box1" [] (.object []), []⟩⟩] := by
    decide +kernel
  refine ⟨rfl, by decide, _, hwalk, rfl, fun s₀ h => ?_⟩
  obtain ⟨unit, s, type, hunit, -⟩ := h.first 1 1 (by decide)
  cases hunit

end Declgen.Walk
