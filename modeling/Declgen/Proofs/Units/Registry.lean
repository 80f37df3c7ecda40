import Declgen.Proofs.Types.Spelling
import Declgen.Units.Registry

/-!
# The entries of a registry

For what refers to a unit, a registry is the list of its keys and headers. New units come at its
end, and completing a unit does not change it, so whatever has been looked up stays as it was
found. No key and no name is entered twice.
-/

namespace Declgen.Units.Registry

variable {r r' r'' : Registry} {key : String} {header : Header} {unit : UnitId}

open TypeScript (UnitId Declaration)

/-- The keys and headers of the units in the order of their numbers. -/
def entries (r : Registry) : List (String × Header) :=
  r.slots.toList.map fun slot => (slot.key, slot.header)

/-- A registry holds the entries of another one and possibly more. -/
def Extends (r r' : Registry) : Prop := r.entries <+: r'.entries

/-- No two units have the same key or the same name. -/
structure Distinct (r : Registry) : Prop where
  /-- The keys differ. -/
  keys : (r.entries.map fun entry => entry.1).Nodup
  /-- The names differ. -/
  names : (r.entries.map fun entry => entry.2.name).Nodup

/-- There is an entry for each unit. -/
@[simp] theorem length_entries (r : Registry) : r.entries.length = r.size := by
  simp [entries, size]

/-- The entry of a unit is the key and the header in its slot. -/
theorem getElem?_entries (r : Registry) (i : Nat) :
    r.entries[i]? = (r.slots[i]?).map fun slot => (slot.key, slot.header) := by
  simp [entries]

/-! ### Looking up -/

/-- Looking up a key is looking for its entry. -/
theorem lookup_eq (r : Registry) (key : String) :
    r.lookup key = r.entries.findIdx? fun entry => entry.1 == key := by
  rw [lookup, entries, List.findIdx?_map]
  exact List.findIdx?_toArray _ r.slots.toList

/-- The header of a unit is the one in its entry. -/
theorem header?_eq (r : Registry) (unit : UnitId) :
    r.header? unit = (r.entries[unit]?).map fun entry => entry.2 := by
  rw [header?, getElem?_entries, Option.map_map]
  rfl

/-- A key is not found if no entry has it. -/
theorem lookup_eq_none_iff : r.lookup key = none ↔ ∀ entry ∈ r.entries, entry.1 ≠ key := by
  simp [lookup_eq]

/-- What is found has the key that was looked up. -/
theorem exists_entry (h : r.lookup key = some unit) :
    ∃ header, r.entries[unit]? = some (key, header) := by
  rw [lookup_eq, List.findIdx?_eq_some_iff_getElem] at h
  obtain ⟨hlt, hkey, -⟩ := h
  refine ⟨r.entries[unit].2, ?_⟩
  rw [List.getElem?_eq_getElem hlt, ← eq_of_beq hkey]

/-- A registry extends itself. -/
theorem Extends.refl (r : Registry) : r.Extends r := List.prefix_refl _

/-- An extension of an extension is one. -/
theorem Extends.trans (h : r.Extends r') (h' : r'.Extends r'') : r.Extends r'' :=
  List.IsPrefix.trans h h'

/-- A registry with the same entries is an extension. -/
theorem Extends.of_entries_eq (h : r'.entries = r.entries) : r.Extends r' :=
  (congrArg (r.entries <+: ·) h).mpr (List.prefix_refl _)

/-- A larger registry has the same entry for a unit. -/
theorem Extends.getElem? (h : r.Extends r') {i : Nat} {entry : String × Header}
    (hi : r.entries[i]? = some entry) : r'.entries[i]? = some entry := by
  obtain ⟨more, hmore⟩ := h
  have hlt : i < r.entries.length := (List.getElem?_eq_some_iff.mp hi).1
  rw [← hmore, List.getElem?_append_left hlt, hi]

/-- A larger registry is no smaller. -/
theorem Extends.size_le (h : r.Extends r') : r.size ≤ r'.size := by
  rw [← length_entries, ← length_entries]
  exact List.IsPrefix.length_le h

/-- What has been found stays found. -/
theorem Extends.lookup (h : r.Extends r') (hkey : r.lookup key = some unit) :
    r'.lookup key = some unit := by
  obtain ⟨more, hmore⟩ := h
  rw [lookup_eq] at hkey ⊢
  rw [← hmore, List.findIdx?_append, hkey]
  rfl

/-! ### Reserving -/

/-- The registry with one more unit. -/
def append (r : Registry) (key : String) (header : Header) : Registry :=
  ⟨r.slots.push ⟨key, header, none⟩⟩

/-- Appending a unit adds its entry at the end. -/
@[simp] theorem entries_append : (r.append key header).entries = r.entries ++ [(key, header)] := by
  simp [append, entries]

/-- Appending a unit extends the registry. -/
theorem extends_append : r.Extends (r.append key header) := ⟨[(key, header)], by simp⟩

/-- A new unit is found under its key. -/
theorem lookup_append (h : r.lookup key = none) :
    (r.append key header).lookup key = some r.size := by
  rw [lookup_eq] at h ⊢
  rw [entries_append, List.findIdx?_append, h]
  simp

/-- The new unit has the header that was given. -/
theorem header?_append : (r.append key header).header? r.size = some header := by
  rw [header?_eq, entries_append, ← length_entries, List.getElem?_concat_length]
  rfl

/-- Reserving a new unit fails only if its name is taken. -/
theorem reserve_outcome (h : r.lookup key = none) :
    Outcome (fun result => result = (r.append key header, ⟨r.size, true⟩) ∧
        ∀ entry ∈ r.entries, entry.2.name ≠ header.name)
      GenerateError.Possible (r.reserve key header) := by
  rw [reserve, h]
  cases hfind : r.slots.find? fun slot => slot.header.name == header.name with
  | some owner => trivial
  | none =>
    refine ⟨rfl, fun entry hentry => ?_⟩
    obtain ⟨slot, hslot, rfl⟩ := List.mem_map.mp hentry
    have hne := Array.find?_eq_none.mp hfind slot (Array.mem_toList_iff.mp hslot)
    simpa using hne

/-- A new unit with a new name is reserved. -/
theorem reserve_eq (h : r.lookup key = none)
    (hname : ∀ entry ∈ r.entries, entry.2.name ≠ header.name) :
    r.reserve key header = .ok (r.append key header, ⟨r.size, true⟩) := by
  have hfind : (r.slots.find? fun slot => slot.header.name == header.name) = none := by
    rw [Array.find?_eq_none]
    intro slot hslot
    have hne := hname _ (List.mem_map_of_mem (Array.mem_toList_iff.mpr hslot))
    simpa using hne
  rw [reserve, h, hfind]
  rfl

/-- A new key with a new name repeats nothing. -/
theorem Distinct.append (h : r.Distinct) (hkey : r.lookup key = none)
    (hname : ∀ entry ∈ r.entries, entry.2.name ≠ header.name) :
    (r.append key header).Distinct := by
  rw [lookup_eq_none_iff] at hkey
  constructor
  · rw [entries_append, List.map_append, List.nodup_append]
    refine ⟨h.keys, by simp, fun a ha b hb => ?_⟩
    obtain ⟨entry, hentry, rfl⟩ := List.mem_map.mp ha
    simp only [List.map_cons, List.map_nil, List.mem_singleton] at hb
    exact hb ▸ hkey entry hentry
  · rw [entries_append, List.map_append, List.nodup_append]
    refine ⟨h.names, by simp, fun a ha b hb => ?_⟩
    obtain ⟨entry, hentry, rfl⟩ := List.mem_map.mp ha
    simp only [List.map_cons, List.map_nil, List.mem_singleton] at hb
    exact hb ▸ hname entry hentry

/-- In the empty registry nothing is there twice. -/
theorem distinct_empty : empty.Distinct := by
  constructor <;> simp [entries, empty]

/-! ### Completing -/

/-- Completing a unit that lacks its body gives it the declaration and its references, without
itself. -/
theorem complete_eq {slot : Slot} (hslot : r.slots[unit]? = some slot) (hbody : slot.body = none)
    (declaration : Declaration) (references : List UnitId) :
    r.complete unit declaration references = .ok ⟨r.slots.setIfInBounds unit
      { slot with body := some ⟨declaration, references.filter (· != unit)⟩ }⟩ := by
  simp only [complete, hslot, hbody]

/-- Bodies do not count among the entries. -/
theorem entries_set {slot : Slot} (hslot : r.slots[unit]? = some slot) (body : Option Body) :
    (Registry.mk (r.slots.setIfInBounds unit { slot with body := body })).entries = r.entries := by
  refine List.ext_getElem? fun i => ?_
  rw [getElem?_entries, getElem?_entries]
  by_cases hi : unit = i
  · subst hi
    obtain ⟨hlt, rfl⟩ := Array.getElem?_eq_some_iff.mp hslot
    simp [hlt]
  · simp [Array.getElem?_setIfInBounds_ne hi]

/-- When every unit has its body, all of them are completed in the order of their numbers. -/
theorem completed_eq (h : ∀ slot ∈ r.slots.toList, slot.body ≠ none) :
    ∃ units, r.completed = .ok units ∧ ∀ i : Nat, units[i]? = (r.slots[i]?).bind fun slot : Slot =>
      slot.body.map fun body => ⟨i, slot.key, slot.header, body⟩ := by
  have hfrom (slots : List Slot) (start : Nat) (hslots : ∀ slot ∈ slots, slot.body ≠ none) :
      ∃ units, completedFrom start slots = .ok units ∧ ∀ i : Nat, units[i]? =
        (slots[i]?).bind fun slot : Slot =>
          slot.body.map fun body => ⟨start + i, slot.key, slot.header, body⟩ := by
    induction slots generalizing start with
    | nil => exact ⟨[], rfl, by simp⟩
    | cons slot slots ih =>
      obtain ⟨body, hbody⟩ := Option.ne_none_iff_exists'.mp (hslots slot (by simp))
      obtain ⟨units, hunits, hget⟩ :=
        ih (start + 1) fun other hother => hslots other (by simp [hother])
      refine ⟨⟨start, slot.key, slot.header, body⟩ :: units, ?_, fun i => ?_⟩
      · simp only [completedFrom, hbody, hunits]
        rfl
      · cases i with
        | zero => simp [hbody]
        | succ i => simp [hget, Nat.add_comm 1 i, Nat.add_assoc]
  obtain ⟨units, hunits, hget⟩ := hfrom r.slots.toList 0 h
  exact ⟨units, hunits, fun i => by simpa using hget i⟩

/-- Where all units could be completed, none of them lacks its body. -/
theorem body_ne_none_of_completed {r : Registry} {units : List Completed}
    (h : r.completed = .ok units) {unit : Nat} {slot : Slot} (hslot : r.slots[unit]? = some slot) :
    slot.body ≠ none := by
  have hfrom (slots : List Slot) (start : Nat) (units : List Completed)
      (h : completedFrom start slots = .ok units) : ∀ slot ∈ slots, slot.body ≠ none := by
    induction slots generalizing start units with
    | nil => simp
    | cons slot slots ih =>
      cases hbody : slot.body with
      | none => simp [completedFrom, hbody] at h
      | some body =>
        simp only [completedFrom, hbody] at h
        obtain ⟨rest, hrest, -⟩ := exists_of_map_eq_ok h
        exact List.forall_mem_cons.mpr ⟨by simp [hbody], ih (start + 1) rest hrest⟩
  refine hfrom r.slots.toList 0 units h slot ?_
  rw [← Array.getElem?_toList] at hslot
  exact List.mem_of_getElem? hslot

/-- All units are completed exactly if none of them lacks its body. -/
theorem exists_completed_iff :
    (∃ units, r.completed = .ok units) ↔ ∀ slot ∈ r.slots, slot.body ≠ none := by
  constructor
  · rintro ⟨units, hunits⟩ slot hslot
    obtain ⟨unit, hunit⟩ := Array.mem_iff_getElem?.mp hslot
    exact body_ne_none_of_completed hunits hunit
  · intro hbodies
    obtain ⟨units, hunits, -⟩ :=
      completed_eq fun slot hslot => hbodies slot (Array.mem_toList_iff.mp hslot)
    exact ⟨units, hunits⟩

/-- The completed units are the slots, in their order and with their places as numbers. -/
theorem getElem?_of_completed {units : List Completed} (h : r.completed = .ok units) (i : Nat) :
    units[i]? = (r.slots[i]?).bind fun slot : Slot =>
      slot.body.map fun body => ⟨i, slot.key, slot.header, body⟩ := by
  have hbodies : ∀ slot ∈ r.slots.toList, slot.body ≠ none := by
    intro slot hslot
    obtain ⟨unit, hunit⟩ := List.mem_iff_getElem?.mp hslot
    exact body_ne_none_of_completed h (Array.getElem?_toList ▸ hunit)
  obtain ⟨units', hunits', hget⟩ := completed_eq hbodies
  cases h.symm.trans hunits'
  exact hget i

/-- Each slot has become a unit. -/
theorem slots_of_completed {units : List Completed} (h : r.completed = .ok units) {i : Nat}
    {unit : Completed} :
    units[i]? = some unit ↔
      unit.id = i ∧ r.slots[i]? = some ⟨unit.key, unit.header, some unit.body⟩ := by
  rw [getElem?_of_completed h, Option.bind_eq_some_iff]
  constructor
  · rintro ⟨⟨key, header, _⟩, hslot, hbody⟩
    obtain ⟨body, rfl, rfl⟩ := Option.map_eq_some_iff.mp hbody
    exact ⟨rfl, hslot⟩
  · rintro ⟨rfl, hslot⟩
    exact ⟨_, hslot, rfl⟩

/-- There are as many completed units as there are slots. -/
theorem length_of_completed {units : List Completed} (h : r.completed = .ok units) :
    units.length = r.size := by
  have hsize (i : Nat) : i < units.length ↔ i < r.size := by
    have hget := getElem?_of_completed h i
    constructor
    · intro hlt
      by_contra hle
      rw [List.getElem?_eq_getElem hlt, Array.getElem?_eq_none (Nat.le_of_not_lt hle)] at hget
      cases hget
    · intro hlt
      by_contra hle
      have hslot : r.slots[i]? = some r.slots[i] := Array.getElem?_eq_getElem hlt
      obtain ⟨body, hbody⟩ := Option.ne_none_iff_exists'.mp (body_ne_none_of_completed h hslot)
      rw [List.getElem?_eq_none (Nat.le_of_not_lt hle), hslot, Option.bind_some, hbody] at hget
      cases hget
  exact Nat.le_antisymm (Nat.le_of_not_lt fun hlt => Nat.lt_irrefl _ ((hsize _).mp hlt))
    (Nat.le_of_not_lt fun hlt => Nat.lt_irrefl _ ((hsize _).mpr hlt))

end Declgen.Units.Registry
