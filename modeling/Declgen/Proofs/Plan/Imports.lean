import Declgen.Plan.ImportSet
import Mathlib.Data.String.Basic

/-!
# What a set of imports holds

A set of imports that is filled one name after the other has one entry for every module that was
named, and this entry lists the names that came with the module, each once and in order.
-/

namespace Declgen.Plan

/-! ### Sorted names -/

/-- Inserting a name adds this one and no other. -/
theorem mem_insertName {name other : String} {names : List String} :
    other ∈ insertName name names ↔ other = name ∨ other ∈ names := by
  induction names with
  | nil => simp [insertName]
  | cons first names ih =>
    rw [insertName]
    split
    · rename_i heq
      simp [heq]
    · split
      · simp
      · rw [List.mem_cons, ih, List.mem_cons, or_left_comm]

/-- A name is put into its place. -/
theorem pairwise_insertName (name : String) {names : List String}
    (h : names.Pairwise (· < ·)) : (insertName name names).Pairwise (· < ·) := by
  induction names with
  | nil => simp [insertName]
  | cons first names ih =>
    obtain ⟨hfirst, hnames⟩ := List.pairwise_cons.mp h
    rw [insertName]
    split
    · exact h
    · rename_i hne
      split
      · rename_i hlt
        refine List.pairwise_cons.mpr ⟨fun other hother => ?_, h⟩
        rcases List.mem_cons.mp hother with rfl | hother
        · exact hlt
        · exact hlt.trans (hfirst other hother)
      · rename_i hlt
        have hfirst' : first < name := lt_of_le_of_ne (not_lt.mp hlt) fun heq => hne heq.symm
        refine List.pairwise_cons.mpr ⟨fun other hother => ?_, ih hnames⟩
        rcases mem_insertName.mp hother with rfl | hother
        · exact hfirst'
        · exact hfirst other hother

/-! ### Entries -/

namespace ImportSet

/-- A set holds given pairs of a module and a name, grouped by module. -/
structure Holds (s : ImportSet) (pairs : List (String × String)) : Prop where
  /-- No module has two entries. -/
  nodup : (s.entries.map (·.1)).Nodup
  /-- The names of a module are in order. -/
  sorted : ∀ module names, (module, names) ∈ s.entries → names.Pairwise (· < ·)
  /-- The names of a module are those that are given with it. -/
  names : ∀ module names, (module, names) ∈ s.entries →
    ∀ name, name ∈ names ↔ (module, name) ∈ pairs
  /-- Every module that is given with a name has an entry, and no other module has. -/
  modules : ∀ module, module ∈ s.entries.map (·.1) ↔ ∃ name, (module, name) ∈ pairs

/-- A new set holds nothing. -/
theorem holds_empty : empty.Holds [] := by
  constructor <;> simp [empty]

variable {module name : String} {entries : List (String × List String)}

/-- Adding a name lists the module last, unless it is listed. -/
theorem map_fst_addNames :
    (addNames module [name] entries).map (·.1) =
      if module ∈ entries.map (·.1) then entries.map (·.1) else entries.map (·.1) ++ [module] := by
  induction entries with
  | nil => simp [addNames]
  | cons entry entries ih =>
    obtain ⟨other, names⟩ := entry
    rw [addNames]
    by_cases heq : other = module
    · simp [heq]
    · have hne : module ≠ other := fun h => heq h.symm
      rw [if_neg heq, List.map_cons, ih, List.map_cons]
      by_cases hmem : module ∈ entries.map (·.1)
      · rw [if_pos hmem, if_pos (List.mem_cons_of_mem _ hmem)]
      · rw [if_neg hmem, if_neg (by simpa [hne] using hmem), List.cons_append]

/-- The entry of the module gets the name, and the other entries stay. -/
theorem mem_addNames (hnodup : (entries.map (·.1)).Nodup) {other : String} {names : List String} :
    (other, names) ∈ addNames module [name] entries ↔
      (other ≠ module ∧ (other, names) ∈ entries) ∨
        (other = module ∧ ∃ before, names = insertName name before ∧
          ((module, before) ∈ entries ∨ before = [] ∧ module ∉ entries.map (·.1))) := by
  induction entries with
  | nil => simp [addNames]
  | cons entry entries ih =>
    obtain ⟨first, before⟩ := entry
    obtain ⟨hfirst, hnodup⟩ := List.nodup_cons.mp hnodup
    have hmem {names : List String} (hmem : (first, names) ∈ entries) : False :=
      hfirst (List.mem_map_of_mem (f := (·.1)) hmem)
    rw [addNames]
    by_cases heq : first = module
    · subst heq
      rw [if_pos rfl, List.mem_cons]
      constructor
      · rintro (heq | hother)
        · cases heq
          exact .inr ⟨rfl, before, rfl, .inl List.mem_cons_self⟩
        · by_cases hne : other = first
          · exact absurd (hne ▸ hother) hmem
          · exact .inl ⟨hne, List.mem_cons_of_mem _ hother⟩
      · rintro (⟨hne, hother⟩ | ⟨rfl, before', rfl, hbefore | ⟨-, hnot⟩⟩)
        · refine .inr ((List.mem_cons.mp hother).resolve_left fun heq => ?_)
          cases heq
          exact hne rfl
        · rcases List.mem_cons.mp hbefore with heq | hbefore
          · cases heq
            exact .inl rfl
          · exact (hmem hbefore).elim
        · exact absurd List.mem_cons_self hnot
    · have hne : module ≠ first := fun h => heq h.symm
      rw [if_neg heq, List.mem_cons, ih hnodup, List.map_cons]
      constructor
      · rintro (hother | ⟨hother, hin⟩ | ⟨rfl, before', rfl, hbefore⟩)
        · cases hother
          exact .inl ⟨heq, List.mem_cons_self⟩
        · exact .inl ⟨hother, List.mem_cons_of_mem _ hin⟩
        · refine .inr ⟨rfl, before', rfl, hbefore.imp (List.mem_cons_of_mem _) fun ⟨h, h'⟩ => ?_⟩
          exact ⟨h, by simpa [hne] using h'⟩
      · rintro (⟨hother, hin⟩ | ⟨rfl, before', rfl, hbefore⟩)
        · rcases List.mem_cons.mp hin with hin | hin
          · exact .inl hin
          · exact .inr (.inl ⟨hother, hin⟩)
        · refine .inr (.inr ⟨rfl, before', rfl, hbefore.imp (fun hin => ?_) fun ⟨h, h'⟩ => ?_⟩)
          · refine (List.mem_cons.mp hin).resolve_left fun h => hne (congrArg Prod.fst h)
          · exact ⟨h, fun hin => h' (List.mem_cons_of_mem _ hin)⟩

/-- Adding one more pair. -/
theorem Holds.add {s : ImportSet} {pairs : List (String × String)} (h : s.Holds pairs)
    (module name : String) : (s.add module name).Holds (pairs ++ [(module, name)]) := by
  have hmem (other : String) (names : List String) :
      (other, names) ∈ (s.add module name).entries ↔ _ := mem_addNames h.nodup
  have hnone (hnot : module ∉ s.entries.map (·.1)) (other : String) :
      (module, other) ∉ pairs := fun hin => hnot ((h.modules module).mpr ⟨other, hin⟩)
  constructor
  · rw [ImportSet.add, map_fst_addNames]
    split
    · exact h.nodup
    · rename_i hnot
      exact List.nodup_append.mpr ⟨h.nodup, List.pairwise_singleton _ _, by
        rintro a ha b hb rfl
        exact hnot (List.mem_singleton.mp hb ▸ ha)⟩
  · intro other names hin
    rcases (hmem other names).mp hin with ⟨-, hin⟩ | ⟨rfl, before, rfl, hin | ⟨rfl, -⟩⟩
    · exact h.sorted other names hin
    · exact pairwise_insertName name (h.sorted other before hin)
    · exact pairwise_insertName name List.Pairwise.nil
  · intro other names hin name'
    rw [List.mem_append, List.mem_singleton, Prod.mk.injEq]
    rcases (hmem other names).mp hin with ⟨hne, hin⟩ | ⟨rfl, before, rfl, hin | ⟨rfl, hnot⟩⟩
    · rw [h.names other names hin]
      simp [hne]
    · rw [mem_insertName, h.names other before hin]
      simp [or_comm]
    · rw [mem_insertName]
      simp [hnone hnot]
  · intro other
    have hfst : other ∈ (s.add module name).entries.map (·.1) ↔
        other ∈ s.entries.map (·.1) ∨ other = module := by
      rw [ImportSet.add, map_fst_addNames]
      split
      · rename_i hin
        exact ⟨.inl, fun h => h.elim id fun heq => heq ▸ hin⟩
      · rw [List.mem_append, List.mem_singleton]
    rw [hfst, h.modules]
    simp only [List.mem_append, List.mem_singleton, Prod.mk.injEq, exists_or, exists_and_left,
      exists_eq, and_true]

/-- Adding pairs one after the other. -/
theorem Holds.foldl {s : ImportSet} {before : List (String × String)} (h : s.Holds before)
    (pairs : List (String × String)) :
    (pairs.foldl (fun set (module, name) => set.add module name) s).Holds (before ++ pairs) := by
  induction pairs generalizing s before with
  | nil => simpa using h
  | cons pair pairs ih =>
    have hstep := ih (h.add pair.1 pair.2)
    rwa [List.append_assoc] at hstep

/-- Sorting moves the entries only. -/
theorem Holds.sort {s : ImportSet} {pairs : List (String × String)} (h : s.Holds pairs) :
    s.sort.Holds pairs := by
  have hperm : s.sort.entries.Perm s.entries := List.mergeSort_perm _ _
  have hmap := hperm.map (fun entry : String × List String => entry.1)
  exact ⟨hmap.nodup_iff.mpr h.nodup,
    fun module names hin => h.sorted module names (hperm.mem_iff.mp hin),
    fun module names hin => h.names module names (hperm.mem_iff.mp hin),
    fun module => hmap.mem_iff.trans (h.modules module)⟩

/-- The modules of a sorted set are in order. -/
theorem Holds.sorted_modules {s : ImportSet} {pairs : List (String × String)}
    (h : s.Holds pairs) : (s.sort.entries.map (·.1)).Pairwise (· < ·) := by
  have hle : (s.sort.entries.map (·.1)).Pairwise (· ≤ ·) := by
    rw [List.pairwise_map]
    have hsorted : s.sort.entries.Pairwise fun a b => decide (a.1 ≤ b.1) = true :=
      List.pairwise_mergeSort (fun a b c hab hbc => by
        simp only [decide_eq_true_eq] at *
        exact hab.trans hbc) (fun a b => by simpa using le_total a.1 b.1) s.entries
    exact hsorted.imp of_decide_eq_true
  exact (hle.and h.sort.nodup).imp fun ⟨hab, hne⟩ => lt_of_le_of_ne hab hne

end ImportSet

end Declgen.Plan
