import Declgen.Proofs.TypeScript.Renumbering
import Declgen.Proofs.Units.Registry
import Mathlib.Logic.Equiv.Defs

/-!
# Registries with the same entries

Two registries that hold the same entries in different orders differ in the numbers of their units
only. The renumbering between them goes by key: it takes each unit to the one with its key.
-/

namespace Declgen.Units

open TypeScript

/-- The unit when it and the units that it refers to have other numbers. -/
def Completed.renumber (f : UnitId → UnitId) (unit : Completed) : Completed :=
  ⟨f unit.id, unit.key, unit.header,
    ⟨unit.body.declaration.renumber f, unit.body.references.map f⟩⟩

namespace Registry

variable {r r' : Registry} {key : String} {header : Header} {unit : UnitId}

/-- An entry is found at its place. -/
theorem lookup_of_entry (h : r.Distinct) (hentry : r.entries[unit]? = some (key, header)) :
    r.lookup key = some unit := by
  have hplace {i : Nat} {header : Header} (hi : r.entries[i]? = some (key, header)) :
      (r.entries.map fun entry => entry.1)[i]? = some key := by
    rw [List.getElem?_map, hi]
    rfl
  cases hfound : r.lookup key with
  | none => exact absurd rfl (lookup_eq_none_iff.mp hfound _ (List.mem_of_getElem? hentry))
  | some found =>
    obtain ⟨header', hfound'⟩ := exists_entry hfound
    have hlt := (List.getElem?_eq_some_iff.mp (hplace hentry)).1
    exact congrArg some ((List.getElem?_inj hlt h.keys).mp
      ((hplace hentry).trans (hplace hfound').symm)).symm

/-- Two registries hold the same entries, in whatever order. -/
def SameEntries (r r' : Registry) : Prop := ∀ entry, entry ∈ r.entries ↔ entry ∈ r'.entries

/-- Having the same entries is symmetric. -/
theorem SameEntries.symm (h : r.SameEntries r') : r'.SameEntries r := fun entry => (h entry).symm

/-- The number that a unit of one registry has in another one, where it has the same key. Numbers
that no unit has stay as they are. -/
def renumbering (r r' : Registry) (unit : UnitId) : UnitId :=
  ((r.entries[unit]?).bind fun entry => r'.lookup entry.1).getD unit

/-- A unit gets the number under which its key is found. -/
theorem renumbering_of_lookup (h : r.entries[unit]? = some (key, header)) {unit' : UnitId}
    (hlookup : r'.lookup key = some unit') : renumbering r r' unit = unit' := by
  rw [renumbering, h, Option.bind_some, hlookup, Option.getD_some]

/-- Both registries have a unit with the key and the header of an entry. -/
theorem SameEntries.exists_lookup (h : r.SameEntries r') (hr' : r'.Distinct)
    (hentry : r.entries[unit]? = some (key, header)) :
    ∃ unit', r'.entries[unit']? = some (key, header) ∧ r'.lookup key = some unit' ∧
      renumbering r r' unit = unit' := by
  obtain ⟨unit', hunit'⟩ := List.mem_iff_getElem?.mp ((h _).mp (List.mem_of_getElem? hentry))
  have hlookup := lookup_of_entry hr' hunit'
  exact ⟨unit', hunit', hlookup, renumbering_of_lookup hentry hlookup⟩

/-- Registries with the same entries have equally many units. -/
theorem SameEntries.size_eq (h : r.SameEntries r') (hr : r.Distinct) (hr' : r'.Distinct) :
    r.size = r'.size := by
  rw [← length_entries, ← length_entries]
  exact ((List.perm_ext_iff_of_nodup (.of_map _ hr.keys) (.of_map _ hr'.keys)).mpr h).length_eq

/-- Renumbering there and back changes nothing. -/
theorem SameEntries.leftInverse (h : r.SameEntries r') (hr : r.Distinct) (hr' : r'.Distinct) :
    Function.LeftInverse (renumbering r' r) (renumbering r r') := by
  intro unit
  by_cases hunit : unit < r.size
  · have hlt : unit < r.entries.length := by rwa [length_entries]
    have hentry : r.entries[unit]? = some r.entries[unit] := List.getElem?_eq_getElem hlt
    obtain ⟨unit', hentry', -, heq⟩ := h.exists_lookup hr' hentry
    rw [heq, renumbering_of_lookup hentry' (lookup_of_entry hr hentry)]
  · -- Where one registry has no unit the other one has none either.
    have hnone {r r' : Registry} (hle : r.size ≤ unit) : renumbering r r' unit = unit := by
      rw [renumbering, List.getElem?_eq_none (by simpa using hle)]
      rfl
    rw [Nat.not_lt] at hunit
    rw [hnone hunit, hnone (h.size_eq hr hr' ▸ hunit)]

/-- The renumbering between registries with the same entries. -/
def SameEntries.equiv (h : r.SameEntries r') (hr : r.Distinct) (hr' : r'.Distinct) :
    Equiv.Perm UnitId where
  toFun := renumbering r r'
  invFun := renumbering r' r
  left_inv := h.leftInverse hr hr'
  right_inv := h.symm.leftInverse hr' hr

end Registry

end Declgen.Units
