import Declgen.Proofs.Document.Loaded
import Declgen.Proofs.Walk.Exploration

/-!
# Walks of loaded documents

A loaded document is all that a walk relies on. When a walk stops, the cause is in the document:
two types have the same name, or a type has no form in TypeScript. It is never a dangling or
mismatched reference, a type within itself, or a unit that was built twice or not at all.
-/

namespace Declgen.Walk

open Model Document TypeScript Declgen.Units

variable {d : ModelDocument} {m : LoadedModel} {setup : Setup} {roots : List TypeId}

/-- A walk of a loaded document explores all of it or stops for a possible cause. -/
theorem explore_loaded (hload : load d = .ok m) (hhook : ∀ type, setup.hook type = none)
    (hroots : ∀ id : Nat, id ∈ roots → id < d.definitions.length) :
    Outcome (Explored setup m.model roots) GenerateError.Possible
      (explore setup .empty m.model roots) :=
  explore_outcome (loaded hload).wellFormed hhook fun id hid =>
    (loaded hload).lt_size (hroots id hid)

/-- A unit belongs to a type: it has the key, the header and the declaration of the type, and it
refers to the other units in this declaration. -/
structure UnitOf (options : Options) (a : Arena) (registry : Registry) (t : TypeTree)
    (unit : Completed) : Prop where
  /-- The key is the identity of the type. -/
  key : unit.key = t.spelling
  /-- The header is that of the type. -/
  header : t.header? = some unit.header
  /-- So is the declaration. -/
  declaration : t.declaration? options a registry unit.header.name = some unit.body.declaration
  /-- A unit does not refer to itself. -/
  references : unit.body.references = unit.body.declaration.references.filter (· != unit.id)

/-- A walk has ended in the state `s` with the given units, which belong to the types `trees`. -/
structure Walked (setup : Setup) (a : Arena) (roots : List TypeId) (trees : List TypeTree)
    (s : State) (units : List Completed) : Prop where
  /-- This is the state at the end of the walk. -/
  explored : explore setup .empty a roots = .ok s
  /-- The model is the given one. -/
  model : s.graph.model = a
  /-- All units have been built. -/
  sound : s.Sound setup roots trees trees.length
  /-- What the roots need is known. -/
  covers : ∀ id ∈ roots, s.Covers setup.options.generics id
  /-- The units are those of the registry. -/
  entries : units.map (fun unit => (unit.key, unit.header)) = s.progress.units.entries
  /-- Every unit belongs to the type at its place. -/
  unit : ∀ (i : Nat) (unit : Completed), units[i]? = some unit →
    unit.id = i ∧ ∃ t, trees[i]? = some t ∧ UnitOf setup.options a s.progress.units t unit

/-- Completed units belong to the types that have been built. -/
theorem Explored.walked {a : Arena} {s : State} (h : Explored setup a roots s)
    (hexplore : explore setup .empty a roots = .ok s) {units : List Completed}
    (hcompleted : s.progress.units.completed = .ok units) :
    ∃ trees, Walked setup a roots trees s units := by
  obtain ⟨units', hunits', hget⟩ := h.completed
  cases hcompleted.symm.trans hunits'
  obtain ⟨trees, hsound⟩ := h.sound
  have hbuilt (i : Nat) (slot : Slot) (hslot : s.progress.units.slots[i]? = some slot) :
      ∃ body t, slot.body = some body ∧ trees[i]? = some t ∧
        UnitOf setup.options a s.progress.units t ⟨i, slot.key, slot.header, body⟩ := by
    have hlt : i < trees.length := by
      rw [← hsound.size]
      exact (Array.getElem?_eq_some_iff.mp hslot).1
    have htree : trees[i]? = some trees[i] := List.getElem?_eq_getElem hlt
    obtain ⟨body, hbody, hdeclaration, hreferences⟩ := hsound.declared i _ slot htree hslot hlt
    obtain ⟨header, hentry, hheader⟩ := hsound.entry i _ htree
    rw [Registry.getElem?_entries, hslot] at hentry
    simp only [Option.map_some, Option.some.injEq, Prod.mk.injEq] at hentry
    obtain ⟨hkey, rfl⟩ := hentry
    exact ⟨body, trees[i], hbody, htree, hkey, hheader, h.model ▸ hdeclaration, hreferences⟩
  refine ⟨trees, hexplore, h.model, hsound, h.covers, ?_, ?_⟩
  · refine List.ext_getElem? fun i => ?_
    rw [List.getElem?_map, hget, Registry.getElem?_entries]
    cases hslot : s.progress.units.slots[i]? with
    | none => rfl
    | some slot =>
      obtain ⟨body, t, hbody, -⟩ := hbuilt i slot hslot
      simp [hbody]
  · intro i unit hunit
    rw [hget, Option.bind_eq_some_iff] at hunit
    obtain ⟨slot, hslot, hunit⟩ := hunit
    obtain ⟨body, t, hbody, htree, hunitOf⟩ := hbuilt i slot hslot
    rw [hbody] at hunit
    cases hunit
    exact ⟨rfl, t, htree, hunitOf⟩

/-- The units of a walk belong to the types that can be reached. -/
theorem exists_walked (hload : load d = .ok m) (hhook : ∀ type, setup.hook type = none)
    (hroots : ∀ id : Nat, id ∈ roots → id < d.definitions.length) {units : List Completed}
    (hwalk : walk setup .empty m.model roots = .ok units) :
    ∃ trees s, Walked setup m.model roots trees s units := by
  have houtcome := explore_loaded hload hhook hroots
  unfold walk at hwalk
  cases hexplore : explore setup .empty m.model roots with
  | error e =>
    rw [hexplore] at hwalk
    cases hwalk
  | ok s =>
    rw [hexplore] at hwalk
    obtain ⟨trees, hwalked⟩ := (houtcome.result hexplore).walked hexplore hwalk
    exact ⟨trees, s, hwalked⟩

namespace Walked

variable {a : Arena} {trees : List TypeTree} {s : State} {units : List Completed}

/-- The unit with a number and a name that is known for a key. -/
theorem exists_unit (h : Walked setup a roots trees s units) {key name : String} {id : UnitId}
    (hknown : known s.progress.units key = some (id, name)) :
    ∃ unit, units[id]? = some unit ∧ unit.key = key ∧ unit.header.name = name := by
  obtain ⟨u, hlookup, heq⟩ := Option.map_eq_some_iff.mp hknown
  cases heq
  obtain ⟨header, hentry⟩ := Registry.exists_entry hlookup
  rw [unitName_of_entry hentry]
  rw [← h.entries, List.getElem?_map, Option.map_eq_some_iff] at hentry
  obtain ⟨unit, hunit, heq⟩ := hentry
  cases heq
  exact ⟨unit, hunit, rfl, rfl⟩

/-- The type at a place has its unit there. -/
theorem exists_unitOf (h : Walked setup a roots trees s units) {i : Nat} {t : TypeTree}
    (ht : trees[i]? = some t) : ∃ unit, units[i]? = some unit ∧ unit.id = i ∧
      UnitOf setup.options a s.progress.units t unit := by
  have hlt : i < units.length := by
    have hlength := congrArg List.length h.entries
    rw [List.length_map, Registry.length_entries, h.sound.size] at hlength
    rw [hlength]
    exact (List.getElem?_eq_some_iff.mp ht).1
  obtain ⟨hid, t', ht', hunitOf⟩ := h.unit i units[i] (List.getElem?_eq_getElem hlt)
  cases ht.symm.trans ht'
  exact ⟨units[i], List.getElem?_eq_getElem hlt, hid, hunitOf⟩

/-- The types of units are made from the model. -/
theorem tree_over (h : Walked setup a roots trees s units) {t : TypeTree} (ht : t ∈ trees) :
    t.Over a := by
  obtain ⟨id, hid, rfl⟩ := h.sound.source t ht
  exact h.model ▸ h.sound.graph.tree_over hid

/-- No two units have the same key. -/
theorem nodup_keys (h : Walked setup a roots trees s units) :
    (units.map fun unit => unit.key).Nodup := by
  have hkeys := h.sound.distinct.keys
  rwa [← h.entries, List.map_map] at hkeys

/-- No two units have the same name. -/
theorem nodup_names (h : Walked setup a roots trees s units) :
    (units.map fun unit => unit.header.name).Nodup := by
  have hnames := h.sound.distinct.names
  rwa [← h.entries, List.map_map] at hnames

end Walked

/-- A walk of a loaded document with a fresh registry and without a hook fails only if two types
have the same name or a type has no form for a cause that lies in the document. -/
theorem walk_failure {options : Options} {names : List String} {e : GenerateError}
    (hload : load d = .ok m) (hroots : m.resolveRoots names = .ok roots)
    (hwalk : walk ⟨options, fun _ => none⟩ .empty m.model roots = .error e) :
    (∃ name first second, e = .ambiguousName name first second) ∨
      ∃ identity cause, e = .unsupported identity cause ∧ cause ≠ .containsItself ∧
        (∀ name, cause ≠ .repeatedMember name) ∧ (∀ kind, cause ≠ .notDeclarable kind) ∧
        ∀ kind, cause ≠ .notNamed kind := by
  have hpossible : e.Possible := by
    have houtcome : Outcome _ _ (explore ⟨options, fun _ => none⟩ .empty m.model roots) :=
      explore_loaded hload (fun _ => rfl) ((loaded hload).resolveRoots_lt hroots)
    unfold walk at hwalk
    cases hexplore : explore ⟨options, fun _ => none⟩ .empty m.model roots with
    | error e' =>
      rw [hexplore] at hwalk
      cases hwalk
      exact houtcome.failure hexplore
    | ok s =>
      obtain ⟨units, hcompleted, -⟩ := (houtcome.result hexplore).completed
      rw [hexplore] at hwalk
      cases hcompleted.symm.trans hwalk
  cases e with
  | ambiguousName name first second => exact .inl ⟨name, first, second, rfl⟩
  | unsupported identity cause =>
    refine .inr ⟨identity, cause, rfl, ?_⟩
    cases cause with
    | containsItself => exact hpossible.elim
    | repeatedMember name => exact hpossible.elim
    | notDeclarable kind => exact hpossible.elim
    | notNamed kind => exact hpossible.elim
    | _ => simp
  | _ => exact hpossible.elim

/-- Two records whose names differ only in case. -/
theorem walk_failure_same_name :
    ∃ m roots e,
      load ⟨[], [.complex ⟨"A", none, [], none, []⟩, .complex ⟨"a", none, [], none, []⟩]⟩ = .ok m ∧
      m.resolveRoots [] = .ok roots ∧
      walk ⟨{}, fun _ => none⟩ .empty m.model roots = .error e ∧
      ((∃ name first second, e = .ambiguousName name first second) ∨
        ∃ identity cause, e = .unsupported identity cause ∧ cause ≠ .containsItself ∧
          (∀ name, cause ≠ .repeatedMember name) ∧ (∀ kind, cause ≠ .notDeclarable kind) ∧
          ∀ kind, cause ≠ .notNamed kind) := by
  have hwalk : walk ⟨{}, fun _ => none⟩ .empty
      ⟨#[some (.complex ⟨"A", none, [], none, []⟩), some (.complex ⟨"a", none, [], none, []⟩)]⟩
      [0, 1] = .error (.ambiguousName "A" "A" "a") := by decide +kernel
  have hload : load ⟨[], [.complex ⟨"A", none, [], none, []⟩, .complex ⟨"a", none, [], none, []⟩]⟩ =
      .ok ⟨⟨#[some (.complex ⟨"A", none, [], none, []⟩),
        some (.complex ⟨"a", none, [], none, []⟩)]⟩, [], [("A", 0), ("a", 1)]⟩ := rfl
  exact ⟨_, _, _, hload, rfl, hwalk, @walk_failure _ _ _ _ [] _ hload rfl hwalk⟩

end Declgen.Walk
