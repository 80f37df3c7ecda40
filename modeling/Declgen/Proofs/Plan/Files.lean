import Declgen.Plan.Files
import Declgen.Proofs.EraseDups
import Mathlib.Data.List.Induction
import Mathlib.Data.List.Nodup
import Mathlib.Data.List.Pairwise
import Mathlib.Data.String.Basic

/-!
# The files of units

Units that are numbered in order are spread over files by their modules. Every unit goes to one
file, different files have different paths, and the first units of the files are in order.
-/

namespace Declgen.Plan

open Declgen.Units TypeScript

/-! ### Grouping -/

section Grouping

variable {α κ : Type} [BEq κ] [LawfulBEq κ] (key : α → κ)

/-- Under another key than that of the first element stands what remains without that key. -/
theorem filter_key_cons {a : α} {as : List α} {k : κ} (hk : k ≠ key a) :
    (a :: as).filter (key · == k) =
      (as.filter fun b => !key b == key a).filter (key · == k) := by
  rw [List.filter_cons_of_neg (by simpa using hk.symm), List.filter_filter]
  refine List.filter_congr fun b _ => ?_
  by_cases hb : key b = k
  · simp [hb, hk]
  · simp [hb]

/-- What comes first under different keys is in the order of the keys' first occurrences. -/
theorem pairwise_head?_filter {r : α → α → Prop} {as : List α} (h : as.Pairwise r) :
    (as.map key).eraseDups.Pairwise fun k k' =>
      ∃ a a', (as.filter (key · == k)).head? = some a ∧ (as.filter (key · == k')).head? = some a' ∧
        r a a' := by
  induction hlength : as.length using Nat.strongRecOn generalizing as with
  | ind n ih =>
    cases as with
    | nil => exact List.Pairwise.nil
    | cons a as =>
      obtain ⟨ha, has⟩ := List.pairwise_cons.mp h
      have hrest : (as.map key).filter (fun k => !k == key a) =
          (as.filter fun b => !key b == key a).map key := by
        rw [List.filter_map]
        rfl
      have hother {k : κ} (hk : k ∈ ((as.filter fun b => !key b == key a).map key).eraseDups) :
          ∃ b ∈ as, key b = k ∧ k ≠ key a := by
        obtain ⟨b, hb, rfl⟩ := List.mem_map.mp (List.mem_eraseDups.mp hk)
        rw [List.mem_filter] at hb
        exact ⟨b, hb.1, rfl, by simpa using hb.2⟩
      rw [List.map_cons, List.eraseDups_cons, hrest]
      refine List.pairwise_cons.mpr ⟨fun k hk => ?_, ?_⟩
      · obtain ⟨b, hb, rfl, hne⟩ := hother hk
        have hmem : b ∈ as.filter (key · == key b) := List.mem_filter.mpr ⟨hb, BEq.rfl⟩
        obtain ⟨c, cs, hcs⟩ := List.exists_cons_of_ne_nil (List.ne_nil_of_mem hmem)
        have hc : c ∈ as := (List.mem_filter.mp (hcs ▸ List.mem_cons_self)).1
        refine ⟨a, c, ?_, ?_, ha c hc⟩
        · rw [List.filter_cons_of_pos (p := (key · == key a)) BEq.rfl, List.head?_cons]
        · rw [List.filter_cons_of_neg (by simpa using hne.symm), hcs, List.head?_cons]
      · have hlt : (as.filter fun b => !key b == key a).length < n := by
          have := List.length_filter_le (fun b => !key b == key a) as
          rw [← hlength, List.length_cons]
          omega
        refine (ih _ hlt (has.filter _) rfl).imp_of_mem fun {k k'} hk hk' hheads => ?_
        obtain ⟨-, -, -, hne⟩ := hother hk
        obtain ⟨-, -, -, hne'⟩ := hother hk'
        rw [filter_key_cons key hne, filter_key_cons key hne']
        exact hheads

end Grouping

/-! ### Paths -/

/-- A number refers to one of the units. -/
theorem mem_of_unitOf? {units : List Completed} {id : UnitId} {unit : Completed}
    (h : unitOf? units id = some unit) : unit ∈ units := by
  unfold unitOf? at h
  induction units using List.reverseRecOn with
  | nil => cases h
  | append_singleton units last ih =>
    rw [List.foldl_concat] at h
    split at h
    · cases h
      exact List.mem_concat_self
    · exact List.mem_append_left _ (ih h)

/-- Every file has the path of a unit. -/
theorem exists_unit_of_mem_files {options : Options} {units : List Completed} {file : PlannedFile}
    (h : file ∈ files options units) :
    ∃ unit ∈ units, file.path = moduleOf options unit ++ ".ts" := by
  obtain ⟨module, hmodule, rfl⟩ := List.mem_map.mp h
  obtain ⟨placed, hplaced, rfl⟩ := List.mem_map.mp (List.mem_eraseDups.mp hmodule)
  obtain ⟨unit, -, hplaced⟩ := List.mem_filterMap.mp hplaced
  obtain ⟨target, htarget, rfl⟩ := Option.map_eq_some_iff.mp hplaced
  exact ⟨target, mem_of_unitOf? htarget, rfl⟩

/-! ### The plan of numbered units -/

/-- The units are numbered in order. -/
def Numbered (units : List Completed) : Prop :=
  ∀ (i : Nat) (unit : Completed), units[i]? = some unit → unit.id = i

variable {options : Options} {units : List Completed}

namespace Numbered

/-- The numbers of the units are the first ones, in order. -/
theorem map_id (h : Numbered units) : units.map (·.id) = List.range units.length := by
  refine List.ext_getElem? fun i => ?_
  rw [List.getElem?_map]
  by_cases hi : i < units.length
  · rw [List.getElem?_range hi, List.getElem?_eq_getElem hi]
    exact congrArg some (h i _ (List.getElem?_eq_getElem hi))
  · rw [List.getElem?_eq_none (by omega), List.getElem?_eq_none (by simpa using hi)]
    rfl

/-- Units with smaller numbers come first. -/
theorem pairwise (h : Numbered units) : units.Pairwise fun unit other => unit.id < other.id := by
  have hrange := List.pairwise_lt_range (n := units.length)
  rwa [← h.map_id, List.pairwise_map] at hrange

/-- A unit is found under its number. -/
theorem getElem?_id (h : Numbered units) {unit : Completed} (hunit : unit ∈ units) :
    units[unit.id]? = some unit := by
  obtain ⟨i, hi⟩ := List.mem_iff_getElem?.mp hunit
  rwa [h i unit hi]

/-- A number refers to the unit at its place. -/
theorem unitOf?_eq (h : Numbered units) (id : UnitId) : unitOf? units id = units[id]? := by
  unfold unitOf?
  induction units using List.reverseRecOn with
  | nil => rfl
  | append_singleton units unit ih =>
    have hlast : unit.id = units.length := h _ unit List.getElem?_concat_length
    have hinit : Numbered units := fun i other hi =>
      h i other ((List.getElem?_append_left (List.getElem?_eq_some_iff.mp hi).1).trans hi)
    rw [List.foldl_append, ih hinit, List.foldl_cons, List.foldl_nil, hlast]
    by_cases heq : units.length = id
    · rw [if_pos (by simpa using heq), ← heq, List.getElem?_concat_length]
    · rw [if_neg (by simpa using heq)]
      by_cases hlt : id < units.length
      · rw [List.getElem?_append_left hlt]
      · have hle : units.length ≤ id := Nat.le_of_not_lt hlt
        have hle' : (units ++ [unit]).length ≤ id := by
          rw [List.length_append, List.length_singleton]
          omega
        rw [List.getElem?_eq_none hle, List.getElem?_eq_none hle']

end Numbered

/-- The units that go to a module. -/
def unitsIn (options : Options) (units : List Completed) (module : String) : List Completed :=
  units.filter fun unit => moduleOf options unit == module

/-- A unit goes to one module. -/
theorem mem_unitsIn {unit : Completed} {module : String} :
    unit ∈ unitsIn options units module ↔ unit ∈ units ∧ moduleOf options unit = module := by
  rw [unitsIn, List.mem_filter, beq_iff_eq]

/-- There is one file for every module. -/
theorem Numbered.files_eq (h : Numbered units) :
    files options units = (units.map (moduleOf options)).eraseDups.map fun module =>
      plannedFile options units module (unitsIn options units module) := by
  have hplaced :
      placements options units = units.map fun unit => (moduleOf options unit, unit) := by
    rw [placements, ← List.filterMap_eq_map]
    refine List.filterMap_congr fun unit hunit => ?_
    rw [h.unitOf?_eq, h.getElem?_id hunit]
    rfl
  have hmembers (module : String) :
      members (placements options units) module = unitsIn options units module := by
    rw [members, hplaced, List.filter_map, List.map_map]
    exact List.map_id _
  have hmodules :
      modules (placements options units) = (units.map (moduleOf options)).eraseDups := by
    rw [modules, hplaced, List.map_map]
    rfl
  simp only [files, hmodules, hmembers]

/-- Every unit is listed in one file. -/
theorem Numbered.perm_units (h : Numbered units) :
    ((files options units).flatMap (·.units)).Perm (units.map (·.id)) := by
  have hids : (units.map (·.id)).Nodup := h.map_id ▸ List.nodup_range
  have hflat : (files options units).flatMap (·.units) =
      ((units.map (moduleOf options)).eraseDups.flatMap (unitsIn options units)).map (·.id) := by
    rw [h.files_eq, List.flatMap_map, List.map_flatMap]
    rfl
  rw [hflat]
  refine List.Perm.map _
    ((List.perm_ext_iff_of_nodup ?_ (List.Nodup.of_map _ hids)).mpr fun unit => ?_)
  · refine List.nodup_flatMap.mpr ⟨fun module _ => (List.Nodup.of_map _ hids).filter _, ?_⟩
    refine (nodup_eraseDups _).imp fun {module module'} hne unit hunit hunit' => hne ?_
    exact (mem_unitsIn.mp hunit).2.symm.trans (mem_unitsIn.mp hunit').2
  · rw [List.mem_flatMap]
    constructor
    · rintro ⟨module, -, hunit⟩
      exact (mem_unitsIn.mp hunit).1
    · intro hunit
      exact ⟨moduleOf options unit, List.mem_eraseDups.mpr (List.mem_map_of_mem hunit),
        mem_unitsIn.mpr ⟨hunit, rfl⟩⟩

/-- Different files have different paths. -/
theorem Numbered.nodup_paths (h : Numbered units) :
    ((files options units).map (·.path)).Nodup := by
  rw [h.files_eq, List.map_map]
  exact (nodup_eraseDups _).map fun module module' heq => (String.append_left_inj ".ts").mp heq

/-- The files are in the order of their first units. -/
theorem Numbered.pairwise_files (h : Numbered units) :
    (files options units).Pairwise fun file file' =>
      ∃ id id', file.units.head? = some id ∧ file'.units.head? = some id' ∧ id < id' := by
  rw [h.files_eq, List.pairwise_map]
  refine (pairwise_head?_filter (moduleOf options) h.pairwise).imp ?_
  rintro module module' ⟨unit, unit', hunit, hunit', hlt⟩
  refine ⟨unit.id, unit'.id, ?_, ?_, hlt⟩
  · rw [plannedFile, unitsIn, List.head?_map, hunit, Option.map_some]
  · rw [plannedFile, unitsIn, List.head?_map, hunit', Option.map_some]

end Declgen.Plan
