import Declgen.Proofs.Alike.Replacement
import Declgen.Proofs.Walk.Discovery

/-!
# Meeting units side by side

Two walks that meet types which are alike have the same registry at any time, and what waits in
their queues differs in the numbers of the types only. So the same type expressions are written.
Along with this it is kept that the units wait in order and have names of at most 32 levels.
-/

namespace Declgen.Walk

open Model TypeScript Declgen.Units

/-! ### Names -/

namespace Graph

variable {g : Graph} {id : TypeId}

/-- What a type that is not put together from others is called is among the names of its model. -/
theorem Tame.leafName_mem (hg : g.Tame) {d : Descriptor} (hd : g.get id = .ok d)
    (hleaf : d.isComposite = false) (levels : Nat) :
    leafName g.model id ∈ namesWithin g.model (levels + 1) :=
  Walk.leafName_mem (Arena.get_lt (hg.get_model hd hleaf)) levels

/-- The name made for a type is among the names of its model. -/
theorem Tame.synthesizedWithin_mem (hg : g.Tame) {levels : Nat} {above : List TypeId} :
    Outcome (fun name => name ∈ namesWithin g.model levels) (fun _ => True)
      (synthesizedWithin g levels above id) := by
  induction levels generalizing above id with
  | zero =>
    rw [synthesizedWithin]
    split <;> trivial
  | succ levels ih =>
    rw [synthesizedWithin]
    by_cases hcontains : above.contains id = true
    · rw [if_pos hcontains]
      trivial
    rw [if_neg hcontains]
    cases hd : g.get id with
    | error e => trivial
    | ok d =>
      have hleaf (h : d.isComposite = false) := hg.leafName_mem hd h levels
      have hmodel (h : d.isComposite = false) := hg.get_model hd h
      rw [ok_bind]
      cases d with
      | primitive kind | enum type | complex type | parameter name =>
        specialize hleaf rfl
        rw [leafName, hmodel rfl] at hleaf
        exact hleaf
      | nullable inner => exact ih.bind fun part hpart => nullableName_mem hpart
      | array element => exact ih.bind fun part hpart => arrayName_mem hpart
      | dictionary key value =>
        exact ih.bind fun first hfirst => ih.bind fun second hsecond =>
          dictionaryName_mem hfirst hsecond
      | instantiation definition arguments =>
        refine ih.bind fun first hfirst => ?_
        refine (Outcome.mapM_forall₂ fun argument _ => ih).bind fun rest hrest => ?_
        refine instantiationName_mem hfirst ?_ fun name hname => ?_
        · rw [← hrest.length_eq]
          exact hg.arity_le hd
        · obtain ⟨-, -, hmem⟩ := exists_mem_of_forall₂ hrest.flip hname
          exact hmem

/-- The name in a header is one that a unit can have. -/
theorem Tame.header_mem (hg : g.Tame) :
    Outcome (fun h => h.name ∈ unitNames g.model) (fun _ => True) (header g id) := by
  rw [header]
  cases hd : g.get id with
  | error e => trivial
  | ok d =>
    have hleaf (h : d.isComposite = false) : leafName g.model id ∈ namesWithin g.model nameLevels :=
      hg.leafName_mem hd h 31
    have hmodel (h : d.isComposite = false) := hg.get_model hd h
    rw [ok_bind]
    cases d with
    | enum type | complex type =>
      specialize hleaf rfl
      rw [leafName, hmodel rfl] at hleaf
      rw [Outcome.pure_iff]
      dsimp only
      rw [typeName_eq]
      exact safeName_mem_unitNames hleaf
    | instantiation definition arguments =>
      refine (Outcome.any _).bind fun c _ => ?_
      refine hg.synthesizedWithin_mem.bind fun name hname => ?_
      exact safeName_mem_unitNames hname
    | _ => trivial

end Graph

/-! ### Units in order -/

/-- Of the units reserved since there were `old` of them, those from `first` on wait in their order,
and all have different names out of a given set. -/
structure Progress.Orderly (names : Finset String) (old first : Nat) (p : Progress) : Prop where
  /-- Only units reserved since then have been built. -/
  old_le : old ≤ first
  /-- The next unit is not beyond the end. -/
  first_le : first ≤ p.units.size
  /-- The units that wait are the last ones. -/
  waiting : p.queue.map (·.unit) = List.range' first (p.units.size - first)
  /-- They lack their bodies. -/
  bodies : ∀ (unit : Nat) (slot : Slot), p.units.slots[unit]? = some slot → first ≤ unit →
    slot.body = none
  /-- No two units have the same name. -/
  nodup : ((p.units.entries.drop old).map fun entry => entry.2.name).Nodup
  /-- The names are among the given ones. -/
  subset : ∀ entry ∈ p.units.entries.drop old, entry.2.name ∈ names

/-- The progress of two walks over the graphs `g` and `g'` at the same time. Of the second one is
known how many units it can have. -/
structure InStep (old first : Nat) (g g' : Graph) (p p' : Progress) : Prop where
  /-- The units are the same. -/
  units : p.units = p'.units
  /-- The same units wait, for types that are alike. -/
  queue : List.Forall₂ (fun w w' => w.unit = w'.unit ∧ Alike g g' w.source w'.source) p.queue
    p'.queue
  /-- They are in order and have names of the model. -/
  orderly : p'.Orderly (unitNames g'.model) old first
  /-- The types that have been made are limited. -/
  tame : g'.Tame

variable {names : Finset String} {old first : Nat}

/-- Nothing has been reserved yet. -/
theorem orderly_start (units : Registry) :
    Progress.Orderly names units.size units.size ⟨units, []⟩ where
  old_le := Nat.le_refl _
  first_le := Nat.le_refl _
  waiting := by simp
  bodies unit slot hslot hle := by
    have hlt := (Array.getElem?_eq_some_iff.mp hslot).1
    exact absurd hlt (Nat.not_lt.mpr hle)
  nodup := by simp [← Registry.length_entries]
  subset := by simp [← Registry.length_entries]

/-- Only so many units can have been reserved. -/
theorem Progress.Orderly.size_le_card {p : Progress} (h : p.Orderly names old first) :
    p.units.size ≤ old + names.card := by
  have hlength : p.units.size - old ≤ names.card := by
    calc p.units.size - old
        = ((p.units.entries.drop old).map fun entry => entry.2.name).toFinset.card := by
          rw [List.toFinset_card_of_nodup h.nodup, List.length_map, List.length_drop,
            Registry.length_entries]
      _ ≤ names.card := by
          refine Finset.card_le_card fun name hname => ?_
          obtain ⟨entry, hentry, rfl⟩ := List.mem_map.mp (List.mem_toFinset.mp hname)
          exact h.subset entry hentry
  omega

/-- Only so many units can have been built. -/
theorem Progress.Orderly.first_le_card {p : Progress} (h : p.Orderly names old first) :
    first ≤ old + names.card :=
  h.first_le.trans h.size_le_card

/-- A unit that is new and has a new name comes last. -/
theorem Progress.Orderly.reserve {p : Progress} (h : p.Orderly names old first) {key : String}
    {header : Header} {source : TypeId}
    (hnew : ∀ entry ∈ p.units.entries, entry.2.name ≠ header.name) (hmem : header.name ∈ names) :
    Progress.Orderly names old first
      ⟨p.units.append key header, p.queue ++ [⟨p.units.size, source⟩]⟩ := by
  have hold := h.old_le
  have hfirst := h.first_le
  have hsize : (p.units.append key header).size = p.units.size + 1 := by
    simp [Registry.append, Registry.size]
  have hentries : (p.units.append key header).entries.drop old =
      p.units.entries.drop old ++ [(key, header)] := by
    rw [Registry.entries_append, List.drop_append_of_le_length]
    rw [Registry.length_entries]
    omega
  constructor
  · exact hold
  · rw [hsize]
    omega
  · rw [List.map_append, h.waiting, hsize, Nat.succ_sub hfirst, List.range'_concat]
    simp only [List.map_cons, List.map_nil, Nat.one_mul, Nat.add_sub_cancel' hfirst]
  · intro unit slot hslot hle
    simp only [Registry.append, Array.getElem?_push] at hslot
    split at hslot
    · cases hslot
      rfl
    · exact h.bodies unit slot hslot hle
  · rw [hentries, List.map_append, List.nodup_append]
    refine ⟨h.nodup, by simp, fun name hname other hother => ?_⟩
    obtain ⟨entry, hentry, rfl⟩ := List.mem_map.mp hname
    simp only [List.map_cons, List.map_nil, List.mem_singleton] at hother
    exact hother ▸ hnew entry (List.mem_of_mem_drop hentry)
  · rw [hentries]
    intro entry hentry
    rcases List.mem_append.mp hentry with hentry | hentry
    · exact h.subset entry hentry
    · rw [List.mem_singleton.mp hentry]
      exact hmem

variable {g g' g₁ g₁' : Graph} {i j : TypeId} {p p' : Progress}

/-- Walks that are in step stay in step while their graphs grow. -/
theorem InStep.grown (h : InStep old first g g' p p') (hgrown : Grown g g' g₁ g₁') :
    InStep old first g₁ g₁' p p' where
  units := h.units
  queue := h.queue.imp fun _ _ hw => ⟨hw.1, hw.2.grown hgrown⟩
  orderly := hgrown.right.model ▸ h.orderly
  tame := hgrown.tame h.tame

/-- The results of two conversions are the same, and so is the progress that they made. -/
def SameResults (old first : Nat) (g g' : Graph) {α : Type} (r r' : α × Progress) : Prop :=
  r.1 = r'.1 ∧ InStep old first g g' r.2 r'.2

/-! ### Meeting units -/

/-- Types that are alike have the same unit. -/
theorem unitFor_follows (h : Alike g g' i j) (hp : InStep old first g g' p p') :
    Follows (SameResults old first g g') ((unitFor g i).run p) ((unitFor g' j).run p') := by
  rw [unitFor, unitFor]
  cases hkey : identity g i with
  | error e => exact .error _ _
  | ok key =>
    obtain ⟨_, hkey', rfl⟩ := identity_follows h key hkey
    have hend := h.acc (identityWithin_acc.result hkey)
    rw [hkey', lift_ok_bind, lift_ok_bind, run_bind_eq (get_run p), run_bind_eq (get_run p'),
      hp.units]
    cases hlookup : p'.units.lookup key with
    | some unit => exact .pure ⟨rfl, hp⟩
    | none =>
      cases hheader : header g i with
      | error e => exact .error _ _
      | ok header =>
        obtain ⟨_, hheader', rfl⟩ := header_follows h hend header hheader
        rw [hheader', lift_ok_bind, lift_ok_bind]
        cases hreserve : p'.units.reserve key header with
        | error e => exact .error _ _
        | ok r =>
          obtain ⟨rfl, hnew⟩ := (Registry.reserve_outcome hlookup).result hreserve
          have hname := hp.tame.header_mem.result hheader'
          refine .pure ⟨rfl, rfl, ?_, hp.orderly.reserve hnew hname, hp.tame⟩
          exact List.rel_append hp.queue (.cons ⟨rfl, h⟩ .nil)

end Declgen.Walk
