import Declgen.Plan.ModulePath
import Declgen.Proofs.Text.Kebab
import Declgen.Proofs.Text.Splitting

/-!
# Modules and their specifiers

Where there is more than one file, a module path consists of names in kebab case. They hold no dots,
so a specifier can be read back: its dots tell how far it climbs, and the rest names the folders
and the file below. Different modules therefore have different specifiers in one and the same
module.
-/

namespace Declgen.Plan

open TypeScript Text

/-! ### Module paths -/

/-- A file name is made of the characters that a stem allows. -/
theorem fileName_stem (name : String) : (fileName name).toList.all isStem = true := by
  rw [fileName, String.toList_ofList]
  exact kebab_stem _

/-- So is every folder of a namespace. -/
theorem folders_stem {space : Option String} {folder : String} (h : folder ∈ folders space) :
    folder.toList.all isStem = true := by
  unfold folders at h
  split at h
  · obtain ⟨segment, -, rfl⟩ := List.mem_map.mp h
    exact fileName_stem segment
  · cases h

/-- A module path is joined from folders of the namespace and a last name, unless there is a single
file. -/
theorem exists_modulePath {layout : FileLayout} (hlayout : ∀ stem, layout ≠ .singleFile stem)
    (name : String) (space : Option String) :
    ∃ (above : List String) (last : String), (∀ folder ∈ above, folder ∈ folders space) ∧
      last.toList.all isStem = true ∧
      modulePath layout name space = "/".intercalate (above ++ [last]) := by
  cases layout with
  | singleFile stem => exact absurd rfl (hlayout stem)
  | perUnit => exact ⟨folders space, fileName name, fun _ h => h, fileName_stem name, rfl⟩
  | perNamespace =>
    by_cases hempty : (folders space).isEmpty = true
    · refine ⟨[], "index", by simp, by decide, ?_⟩
      rw [modulePath, if_pos hempty, List.nil_append, String.intercalate_singleton]
    · have hne : folders space ≠ [] := by simpa using hempty
      refine ⟨(folders space).dropLast, (folders space).getLast hne,
        fun _ h => (List.dropLast_sublist _).subset h, folders_stem (List.getLast_mem hne), ?_⟩
      rw [modulePath, if_neg hempty, List.dropLast_concat_getLast]

/-- No module path has a dot or a backslash in it, unless there is a single file. -/
theorem not_mem_modulePath {layout : FileLayout} (hlayout : ∀ stem, layout ≠ .singleFile stem)
    {c : Char} (hc : isStem c = false) (hslash : c ≠ '/') (name : String) (space : Option String) :
    c ∉ (modulePath layout name space).toList := by
  obtain ⟨above, last, habove, hlast, heq⟩ := exists_modulePath hlayout name space
  rw [heq, String.toList_intercalate]
  intro hmem
  rcases mem_intercalate hmem with hmem | ⟨cs, hcs, hmem⟩
  · exact hslash (List.mem_singleton.mp hmem)
  · obtain ⟨part, hpart, rfl⟩ := List.mem_map.mp hcs
    have hstem : part.toList.all isStem = true := by
      rcases List.mem_append.mp hpart with hpart | hpart
      · exact folders_stem (habove part hpart)
      · exact List.mem_singleton.mp hpart ▸ hlast
    rw [List.all_eq_true.mp hstem c hmem] at hc
    cases hc

/-! ### Specifiers -/

/-- What is common to two lists is no longer than the first one. -/
theorem commonLength_le_left (as bs : List String) : commonLength as bs ≤ as.length := by
  fun_induction commonLength as bs <;> simp_all

/-- Nor is it longer than the second one. -/
theorem commonLength_le_right (as bs : List String) : commonLength as bs ≤ bs.length := by
  fun_induction commonLength as bs <;> simp_all

/-- Up to their common length two lists are the same. -/
theorem take_commonLength (as bs : List String) :
    as.take (commonLength as bs) = bs.take (commonLength as bs) := by
  fun_induction commonLength as bs <;> simp_all

/-- What stands before the names in a specifier: a dot or a climb. -/
def climbing (climb : Nat) : String := if climb = 0 then "./" else Layout.copies climb "../"

/-- How far a specifier climbs, and the names after that. -/
def route (source target : String) : Nat × List String :=
  let shared := commonLength (segments source).dropLast (segments target).dropLast
  ((segments source).dropLast.length - shared, (segments target).drop shared)

/-- A specifier is a climb, or a dot, and the names after it. -/
theorem relativeModule_eq (source target : String) :
    relativeModule source target =
      climbing (route source target).1 ++ "/".intercalate (route source target).2 := by
  by_cases hclimb : (route source target).1 = 0
  · rw [climbing, if_pos hclimb]
    exact if_pos hclimb
  · rw [climbing, if_neg hclimb]
    exact if_neg hclimb

/-- Different ways lead from a module to different modules. -/
theorem route_injective {source target target' : String}
    (h : route source target = route source target') : target = target' := by
  obtain ⟨hclimb, hrest⟩ := Prod.mk.inj h
  have hprefix (target : String) : (segments target).take
      (commonLength (segments source).dropLast (segments target).dropLast) =
        (segments source).dropLast.take
          (commonLength (segments source).dropLast (segments target).dropLast) := by
    have hle := commonLength_le_right (segments source).dropLast (segments target).dropLast
    rw [take_commonLength]
    generalize commonLength (segments source).dropLast (segments target).dropLast = shared at hle
    rw [List.length_dropLast] at hle
    rw [List.dropLast_eq_take, List.take_take, Nat.min_eq_left hle]
  have hfirst := hprefix target
  have hsecond := hprefix target'
  have hle := commonLength_le_left (segments source).dropLast (segments target).dropLast
  have hle' := commonLength_le_left (segments source).dropLast (segments target').dropLast
  generalize commonLength (segments source).dropLast (segments target).dropLast = shared at *
  generalize commonLength (segments source).dropLast (segments target').dropLast = shared' at *
  -- Both climb equally far, so they share equally many folders with the source.
  have hshared : shared = shared' := by omega
  subst hshared
  have hsegments : segments target = segments target' := by
    rw [← List.take_append_drop shared (segments target),
      ← List.take_append_drop shared (segments target'), hfirst, hsecond, hrest]
  rw [← intercalate_splitAt target, ← intercalate_splitAt target']
  exact congrArg _ hsegments

/-- A climb starts with two dots and a slash. -/
theorem toList_copies_succ (climb : Nat) :
    (Layout.copies (climb + 1) "../").toList =
      '.' :: '.' :: '/' :: (Layout.copies climb "../").toList := by
  rw [Layout.copies, List.replicate_succ, String.join_cons, String.toList_append]
  rfl

/-- Without a climb a specifier starts with a dot and a slash. -/
private theorem toList_climbing_zero : (climbing 0).toList = ['.', '/'] := rfl

/-- With a climb it starts with two dots and a slash. -/
theorem toList_climbing_succ (climb : Nat) :
    (climbing (climb + 1)).toList = '.' :: '.' :: '/' :: (Layout.copies climb "../").toList := by
  rw [climbing, if_neg (Nat.succ_ne_zero climb), toList_copies_succ]

/-- A climb can be told from what follows it, since that does not start with a dot. -/
theorem climbing_append_injective {climb climb' : Nat} {rest rest' : List Char}
    (hrest : '.' ∉ rest) (hrest' : '.' ∉ rest')
    (h : (climbing climb).toList ++ rest = (climbing climb').toList ++ rest') :
    climb = climb' ∧ rest = rest' := by
  have hcopies {climb climb' : Nat}
      (h : (Layout.copies climb "../").toList ++ rest =
        (Layout.copies climb' "../").toList ++ rest') : climb = climb' ∧ rest = rest' := by
    have hzero : (Layout.copies 0 "../").toList = [] := rfl
    induction climb generalizing climb' with
    | zero =>
      cases climb' with
      | zero => exact ⟨rfl, h⟩
      | succ climb' =>
        rw [hzero, List.nil_append, toList_copies_succ] at h
        exact absurd (h ▸ List.mem_cons_self) hrest
    | succ climb ih =>
      cases climb' with
      | zero =>
        rw [hzero, List.nil_append, toList_copies_succ] at h
        exact absurd (h ▸ List.mem_cons_self) hrest'
      | succ climb' =>
        rw [toList_copies_succ, toList_copies_succ] at h
        obtain ⟨heq, hrests⟩ := ih (by simpa using h)
        exact ⟨congrArg _ heq, hrests⟩
  cases climb with
  | zero =>
    cases climb' with
    | zero => exact ⟨rfl, by simpa [toList_climbing_zero] using h⟩
    | succ climb' =>
      rw [toList_climbing_zero, toList_climbing_succ] at h
      simp at h
  | succ climb =>
    cases climb' with
    | zero =>
      rw [toList_climbing_zero, toList_climbing_succ] at h
      simp at h
    | succ climb' =>
      rw [toList_climbing_succ, toList_climbing_succ] at h
      obtain ⟨heq, hrests⟩ := hcopies (by simpa using h)
      exact ⟨congrArg _ heq, hrests⟩

/-- The names at the end of a specifier are names of the target. -/
theorem mem_route {source target part : String} (h : part ∈ (route source target).2) :
    part ∈ segments target := List.mem_of_mem_drop h

/-- There is always a name after the climb. -/
theorem route_ne_nil (source target : String) : (route source target).2 ≠ [] := by
  have hne : segments target ≠ [] := splitAt_ne_nil target
  have hle := commonLength_le_right (segments source).dropLast (segments target).dropLast
  have hpos := List.length_pos_of_ne_nil hne
  rw [List.length_dropLast] at hle
  intro h
  have hdrop := List.drop_eq_nil_iff.mp h
  omega

/-- The names at the end of a specifier can be told apart again. -/
theorem segments_route (source target : String) :
    segments ("/".intercalate (route source target).2) = (route source target).2 :=
  splitAt_intercalate (route_ne_nil source target) fun _ hpart => (mem_splitAt (mem_route hpart)).1

/-- Different modules have different specifiers in a module. -/
theorem relativeModule_injective {source target target' : String}
    (htarget : '.' ∉ target.toList) (htarget' : '.' ∉ target'.toList)
    (h : relativeModule source target = relativeModule source target') : target = target' := by
  have hdot {target : String} (htarget : '.' ∉ target.toList) :
      '.' ∉ ("/".intercalate (route source target).2).toList := by
    rw [String.toList_intercalate]
    intro hdot
    rcases mem_intercalate hdot with hdot | ⟨cs, hcs, hdot⟩
    · exact absurd hdot (by decide)
    · obtain ⟨part, hpart, rfl⟩ := List.mem_map.mp hcs
      exact htarget ((mem_splitAt (mem_route hpart)).2 hdot)
  rw [relativeModule_eq, relativeModule_eq, ← String.toList_inj, String.toList_append,
    String.toList_append] at h
  obtain ⟨hclimb, hrest⟩ := climbing_append_injective (hdot htarget) (hdot htarget') h
  refine route_injective (Prod.ext hclimb ?_)
  rw [← segments_route source target, ← segments_route source target', String.toList_inj.mp hrest]

end Declgen.Plan
