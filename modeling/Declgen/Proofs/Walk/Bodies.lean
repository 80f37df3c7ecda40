import Declgen.Proofs.Together
import Declgen.Proofs.Walk.Discovery
import Declgen.Proofs.Walk.Errors

/-!
# Progress but for bodies

A walk finds a unit under its key, and refers to it and guards its name by its header. It never
looks at the body of one. So two walks that have made the same progress but for the bodies of units
go on together: they find, reserve and refuse the same units, and they complete the same ones.
-/

namespace Declgen.Walk

open Model TypeScript Declgen.Units

/-! ### Registries side by side -/

/-- A relation between the two bodies of a unit with a number and a name. -/
abbrev BodyRelation := UnitId → String → Body → Body → Prop

/-- Two slots are the same but for their bodies. -/
structure SlotsAlike (bodies : BodyRelation) (unit : UnitId) (slot slot' : Slot) : Prop where
  /-- The keys are the same. -/
  key : slot.key = slot'.key
  /-- So is what is known from the start. -/
  header : slot.header = slot'.header
  /-- Both lack their bodies or have related ones. -/
  body : Option.Rel (bodies unit slot.header.name) slot.body slot'.body

/-- Two walks have made the same progress but for the bodies of units. -/
structure ProgressAlike (bodies : BodyRelation) (p p' : Progress) : Prop where
  /-- The same units wait for the same types. -/
  queue : p.queue = p'.queue
  /-- The units are the same but for their bodies. -/
  slots : ∀ unit : Nat,
    Option.Rel (SlotsAlike bodies unit) p.units.slots[unit]? p'.units.slots[unit]?

variable {bodies : BodyRelation} {p p' : Progress}

/-- Walks that are alike have the same keys and headers. -/
theorem ProgressAlike.entries (h : ProgressAlike bodies p p') :
    p.units.entries = p'.units.entries := by
  refine List.ext_getElem? fun unit => ?_
  rw [Registry.getElem?_entries, Registry.getElem?_entries]
  have hslots := h.slots unit
  generalize p.units.slots[unit]? = slot, p'.units.slots[unit]? = slot' at hslots ⊢
  cases hslots with
  | none => rfl
  | some hslot => rw [Option.map_some, Option.map_some, hslot.key, hslot.header]

/-- They have the same number of units. -/
theorem ProgressAlike.size (h : ProgressAlike bodies p p') : p.units.size = p'.units.size := by
  rw [← Registry.length_entries, ← Registry.length_entries, h.entries]

/-- They have the same names. -/
theorem ProgressAlike.unitName (h : ProgressAlike bodies p p') (unit : UnitId) :
    unitName p.units unit = unitName p'.units unit := by
  rw [Walk.unitName, Walk.unitName, Registry.header?_eq, Registry.header?_eq, h.entries]

/-- Reservations depend on keys and headers only. -/
theorem reserve_congr {r r' : Registry} (h : r.entries = r'.entries) {key : String}
    {header : Header} (hlookup : r.lookup key = none) :
    Together (fun result result' => result = (r.append key header, ⟨r.size, true⟩) ∧
        result' = (r'.append key header, ⟨r.size, true⟩))
      (r.reserve key header) (r'.reserve key header) := by
  have hsize : r.size = r'.size := by
    rw [← Registry.length_entries, ← Registry.length_entries, h]
  have howner (r : Registry) : ((r.slots.find? fun slot => slot.header.name == header.name).map
      fun slot => (slot.key, slot.header)) =
        r.entries.find? fun entry => entry.2.name == header.name := by
    rw [Registry.entries, List.find?_map, ← Array.find?_toList]
    rfl
  have hfind := (howner r).trans ((congrArg _ h).trans (howner r').symm)
  have hlookup' : r'.lookup key = none := by
    rw [Registry.lookup_eq, ← h, ← Registry.lookup_eq]
    exact hlookup
  rw [Registry.reserve, Registry.reserve, hlookup, hlookup']
  generalize (r.slots.find? fun slot => slot.header.name == header.name) = owner,
    (r'.slots.find? fun slot => slot.header.name == header.name) = owner' at hfind
  cases owner with
  | none =>
    cases owner' with
    | none => exact ⟨rfl, by rw [hsize]; rfl⟩
    | some owner' => cases hfind
  | some owner =>
    cases owner' with
    | none => cases hfind
    | some owner' =>
      have hkey : owner.key = owner'.key := congrArg Prod.fst (Option.some.inj hfind)
      exact congrArg (GenerateError.ambiguousName header.name · key) hkey

/-- A unit that is new to both walks is added to both. -/
theorem ProgressAlike.append (h : ProgressAlike bodies p p') (key : String) (header : Header)
    (queue : List Pending) : ProgressAlike bodies ⟨p.units.append key header, queue⟩
      ⟨p'.units.append key header, queue⟩ where
  queue := rfl
  slots unit := by
    have hsize : p.units.slots.size = p'.units.slots.size := h.size
    simp only [Registry.append, Array.getElem?_push, hsize]
    split
    · exact .some ⟨rfl, rfl, .none⟩
    · exact h.slots unit

/-- Completing a unit in both registries with related bodies. -/
theorem ProgressAlike.complete (h : ProgressAlike bodies p p') {unit : UnitId}
    {declaration declaration' : Declaration} {references : List UnitId}
    (hbody : bodies unit (Walk.unitName p.units unit)
      ⟨declaration, references.filter (· != unit)⟩
      ⟨declaration', references.filter (· != unit)⟩) :
    Together (fun units units' => ProgressAlike bodies ⟨units, p.queue⟩ ⟨units', p'.queue⟩)
      (p.units.complete unit declaration references)
      (p'.units.complete unit declaration' references) := by
  have hslots := h.slots unit
  rw [Walk.unitName, Registry.header?] at hbody
  rw [Registry.complete, Registry.complete]
  generalize hslot : p.units.slots[unit]? = slot, hslot' : p'.units.slots[unit]? = slot'
    at hslots hbody ⊢
  cases hslots with
  | none => exact ⟨h.queue, h.slots⟩
  | @some slot slot' hslots =>
    obtain ⟨key, header, body⟩ := slot
    obtain ⟨key', header', body'⟩ := slot'
    obtain ⟨hkey, hheader, hbodies⟩ := hslots
    dsimp only at hkey hheader hbodies ⊢
    subst hkey hheader
    cases hbodies with
    | some _ => exact rfl
    | none =>
      refine ⟨h.queue, fun other => ?_⟩
      dsimp only
      by_cases hother : unit = other
      · subst hother
        rw [Array.getElem?_setIfInBounds_self, Array.getElem?_setIfInBounds_self,
          if_pos (Array.getElem?_eq_some_iff.mp hslot).1,
          if_pos (Array.getElem?_eq_some_iff.mp hslot').1]
        exact .some ⟨rfl, rfl, .some hbody⟩
      · rw [Array.getElem?_setIfInBounds_ne hother, Array.getElem?_setIfInBounds_ne hother]
        exact h.slots other

/-! ### Conversions -/

/-- Meeting a unit does not depend on bodies. -/
theorem unitFor_blind (g : Graph) (id : TypeId) :
    Blind (ProgressAlike bodies) (unitFor g id) := by
  refine .bind (.lift _) fun key p p' hp => ?_
  rw [run_bind_eq (get_run p), run_bind_eq (get_run p')]
  have hlookup : p'.units.lookup key = p.units.lookup key := by
    rw [Registry.lookup_eq, Registry.lookup_eq, hp.entries]
  rw [hlookup]
  cases hfound : p.units.lookup key with
  | some unit => exact ⟨congrArg (unit, ·) (hp.unitName unit), hp⟩
  | none =>
    cases hheader : header g id with
    | error e => rfl
    | ok header =>
      rw [lift_ok_bind, lift_ok_bind]
      have hreserve : Together _ (p.units.reserve key header) (p'.units.reserve key header) :=
        reserve_congr hp.entries hfound
      cases hresult : p.units.reserve key header with
      | error e =>
        rw [(hreserve.error_iff e).mp hresult]
        rfl
      | ok result =>
        obtain ⟨result', hresult', rfl, rfl⟩ := hreserve.exists_ok hresult
        rw [hresult']
        refine ⟨rfl, ?_⟩
        rw [← hp.queue]
        exact hp.append key header _

/-- Conversions see nothing of bodies. -/
theorem blind_stepwise : Stepwise (Blind (ProgressAlike bodies)) where
  pure := .pure
  throw _ := .throw _
  lift _ := .lift _
  bind := .bind
  unitFor := unitFor_blind

/-! ### Results side by side -/

/-- Two units are the same but for their bodies. -/
structure UnitsAlike (bodies : BodyRelation) (unit unit' : Completed) : Prop where
  /-- The numbers are the same. -/
  id : unit.id = unit'.id
  /-- So are the keys. -/
  key : unit.key = unit'.key
  /-- So is what is known from the start. -/
  header : unit.header = unit'.header
  /-- The bodies are related. -/
  body : bodies unit.id unit.header.name unit.body unit'.body

/-- Slots that are alike can be completed together, and they give units that are alike. -/
theorem completedFrom_together {slots slots' : List Slot} {start : Nat}
    (h : ∀ i : Nat, Option.Rel (SlotsAlike bodies (start + i)) slots[i]? slots'[i]?) :
    Together (List.Forall₂ (UnitsAlike bodies)) (Registry.completedFrom start slots)
      (Registry.completedFrom start slots') := by
  induction slots generalizing slots' start with
  | nil =>
    cases slots' with
    | nil => exact .nil
    | cons slot' slots' => cases h 0
  | cons slot slots ih =>
    cases slots' with
    | nil => cases h 0
    | cons slot' slots' =>
      have hslot : SlotsAlike bodies start slot slot' := by
        cases h 0 with
        | some hslot => exact hslot
      have hrest : Together _ _ _ := ih fun i => by
        have hplace : start + (i + 1) = start + 1 + i := by omega
        exact hplace ▸ h (i + 1)
      obtain ⟨key, header, body⟩ := slot
      obtain ⟨key', header', body'⟩ := slot'
      obtain ⟨hkey, hheader, hbody⟩ := hslot
      dsimp only at hkey hheader hbody
      subst hkey hheader
      cases hbody with
      | none => exact .error _
      | some hbodies => exact hrest.map fun _ _ hunits => .cons ⟨rfl, rfl, rfl, hbodies⟩ hunits

/-- Registries that are the same but for bodies are completed together. -/
theorem ProgressAlike.completed (h : ProgressAlike bodies p p') :
    Together (List.Forall₂ (UnitsAlike bodies)) p.units.completed p'.units.completed :=
  completedFrom_together fun unit => by
    rw [Nat.zero_add, Array.getElem?_toList, Array.getElem?_toList]
    exact h.slots unit

end Declgen.Walk
