import Mathlib.Data.List.Nodup
import Mathlib.Data.List.Perm.Subperm

/-!
# Lists without repetitions

What dropping repetitions keeps: nothing occurs twice afterwards, and a function that is applied to
the elements and gathered again gives the same elements in the same order, whether or not
repetitions have been dropped before.
-/

namespace Declgen

variable {α β : Type} [DecidableEq α] [DecidableEq β]

/-- Induction over a list in which each step drops what has been met. -/
theorem eraseDups_induction {motive : List α → Prop} (nil : motive [])
    (cons : ∀ a as, motive (as.filter fun b => !b == a) → motive (a :: as)) (as : List α) :
    motive as := by
  induction hlength : as.length using Nat.strongRecOn generalizing as with
  | ind n ih =>
    cases as with
    | nil => exact nil
    | cons a as =>
      have hshort : (as.filter fun b => !b == a).length < n := by
        rw [← hlength]
        exact Nat.lt_succ_of_le (List.length_filter_le _ _)
      exact cons a as (ih _ hshort _ rfl)

/-- What is left has no repetitions. -/
theorem nodup_eraseDups (as : List α) : as.eraseDups.Nodup := by
  induction as using eraseDups_induction with
  | nil => simp
  | cons a as ih =>
    rw [List.eraseDups_cons, List.nodup_cons]
    refine ⟨?_, ih⟩
    simp [List.mem_eraseDups]

/-- Nothing is dropped from a list without repetitions. -/
theorem eraseDups_of_nodup {as : List α} (h : as.Nodup) : as.eraseDups = as := by
  induction as with
  | nil => rfl
  | cons a as ih =>
    rw [List.nodup_cons] at h
    have hfilter : (as.filter fun b => !b == a) = as := by
      rw [List.filter_eq_self]
      intro b hb
      have hne : b ≠ a := by
        rintro rfl
        exact h.1 hb
      simpa using hne
    rw [List.eraseDups_cons, hfilter, ih h.2]

/-- A list is as long without its repetitions exactly if it has none. -/
theorem length_eraseDups_iff {as : List α} : as.eraseDups.length = as.length ↔ as.Nodup := by
  refine ⟨fun h => ?_, fun h => by rw [eraseDups_of_nodup h]⟩
  have hsubperm : as.eraseDups.Subperm as :=
    List.subperm_of_subset (nodup_eraseDups as) fun a => List.mem_eraseDups.mp
  exact (hsubperm.perm_of_length_le (Nat.le_of_eq h.symm)).nodup (nodup_eraseDups as)

/-- An element at the end of a list counts if it is new. -/
theorem eraseDups_concat (as : List α) (a : α) :
    (as ++ [a]).eraseDups = if a ∈ as then as.eraseDups else as.eraseDups ++ [a] := by
  rw [List.eraseDups_append]
  by_cases ha : a ∈ as
  · simp [List.removeAll, ha]
  · simp [List.removeAll, ha, List.eraseDups_cons]

/-- It does not matter whether elements are picked before or after repetitions are dropped. -/
theorem eraseDups_filter (p : α → Bool) (as : List α) :
    (as.filter p).eraseDups = as.eraseDups.filter p := by
  induction as using eraseDups_induction with
  | nil => rfl
  | cons a as ih =>
    have hcomm : ((as.filter p).filter fun b => !b == a) =
        (as.filter fun b => !b == a).filter p := by
      rw [List.filter_filter, List.filter_filter]
      exact List.filter_congr fun b _ => Bool.and_comm _ _
    by_cases hp : p a = true
    · rw [List.filter_cons_of_pos hp, List.eraseDups_cons, List.eraseDups_cons,
        List.filter_cons_of_pos hp, hcomm, ih]
    · have hsame : ((as.filter p).filter fun b => !b == a) = as.filter p := by
        rw [List.filter_eq_self]
        intro b hb
        have hne : b ≠ a := by
          rintro rfl
          exact hp (List.mem_filter.mp hb).2
        simpa using hne
      rw [List.filter_cons_of_neg hp, List.eraseDups_cons, List.filter_cons_of_neg hp, ← ih,
        ← hcomm, hsame]

/-- Repetitions in the second part of a list do not count. -/
theorem eraseDups_append_eraseDups (as bs : List α) :
    (as ++ bs.eraseDups).eraseDups = (as ++ bs).eraseDups := by
  rw [List.eraseDups_append, List.eraseDups_append, List.removeAll, List.removeAll,
    eraseDups_filter, eraseDups_filter, eraseDups_of_nodup (nodup_eraseDups bs)]

/-- Nor do those in the first part. -/
theorem eraseDups_eraseDups_append (as bs : List α) :
    (as.eraseDups ++ bs).eraseDups = (as ++ bs).eraseDups := by
  have hremove : bs.removeAll as.eraseDups = bs.removeAll as := by
    refine List.filter_congr fun b _ => ?_
    simp
  rw [List.eraseDups_append, List.eraseDups_append, hremove,
    eraseDups_of_nodup (nodup_eraseDups as)]

/-- What a function gives for an element counts once, however often the element occurs. -/
theorem eraseDups_append_flatMap_filter (f : α → List β) (a : α) (as : List α) :
    (f a ++ (as.filter fun b => !b == a).flatMap f).eraseDups =
      (f a ++ as.flatMap f).eraseDups := by
  rw [List.eraseDups_append, List.eraseDups_append]
  have hremove : (((as.filter fun b => !b == a).flatMap f).removeAll (f a)) =
      (as.flatMap f).removeAll (f a) := by
    induction as with
    | nil => rfl
    | cons b as ih =>
      by_cases hb : b = a
      · subst hb
        have hnone : (f b).removeAll (f b) = [] := by simp [List.removeAll]
        simp only [List.removeAll, List.filter_append, List.flatMap_cons] at ih hnone ⊢
        rw [List.filter_cons_of_neg (by simp), ih, hnone, List.nil_append]
      · have hpos : (!b == a) = true := by simpa using hb
        rw [List.filter_cons, if_pos hpos, List.flatMap_cons, List.flatMap_cons]
        simp only [List.removeAll, List.filter_append] at ih ⊢
        rw [ih]
  rw [hremove]

/-- Repetitions in a list do not count for what a function gives for its elements. -/
theorem eraseDups_flatMap_eraseDups (f : α → List β) (as : List α) :
    (as.eraseDups.flatMap f).eraseDups = (as.flatMap f).eraseDups := by
  induction as using eraseDups_induction with
  | nil => rfl
  | cons a as ih =>
    calc ((a :: as).eraseDups.flatMap f).eraseDups
        = (f a ++ ((as.filter fun b => !b == a).eraseDups.flatMap f)).eraseDups := by
          rw [List.eraseDups_cons, List.flatMap_cons]
      _ = (f a ++ ((as.filter fun b => !b == a).flatMap f)).eraseDups := by
          rw [← eraseDups_append_eraseDups, ih, eraseDups_append_eraseDups]
      _ = ((a :: as).flatMap f).eraseDups := by
          rw [eraseDups_append_flatMap_filter, List.flatMap_cons]

/-- Dropping repetitions and applying a function that tells the elements apart commute. -/
theorem eraseDups_map {γ : Type} [BEq γ] [LawfulBEq γ] {f : α → γ} {as : List α}
    (hf : ∀ a ∈ as, ∀ b ∈ as, f a = f b → a = b) :
    (as.map f).eraseDups = as.eraseDups.map f := by
  induction as using eraseDups_induction with
  | nil => rfl
  | cons a as ih =>
    have hfilter : ((as.map f).filter fun b => !b == f a) =
        (as.filter fun b => !b == a).map f := by
      rw [List.filter_map]
      refine congrArg _ (List.filter_congr fun b hb => ?_)
      have hiff : f b = f a ↔ b = a :=
        ⟨hf b (List.mem_cons_of_mem _ hb) a List.mem_cons_self, congrArg f⟩
      rw [Function.comp_apply, Bool.eq_iff_iff]
      simp [hiff]
    have hrest : ∀ b ∈ as.filter (fun b => !b == a), ∀ c ∈ as.filter (fun b => !b == a),
        f b = f c → b = c := fun b hb c hc =>
      hf b (List.mem_cons_of_mem _ (List.mem_of_mem_filter hb)) c
        (List.mem_cons_of_mem _ (List.mem_of_mem_filter hc))
    rw [List.map_cons, List.eraseDups_cons, hfilter, ih hrest, List.eraseDups_cons, List.map_cons]

omit [DecidableEq α] in
/-- Where a function repeats a key of each element, the keys are left. -/
theorem eraseDups_flatMap_of_keys {f : α → List β} {key : α → β} {as : List α}
    (h : ∀ a ∈ as, (f a).eraseDups = [key a]) :
    (as.flatMap f).eraseDups = (as.map key).eraseDups := by
  induction as with
  | nil => rfl
  | cons a as ih =>
    rw [List.forall_mem_cons] at h
    calc (f a ++ as.flatMap f).eraseDups
        = ([key a] ++ (as.flatMap f).eraseDups).eraseDups := by
          rw [← eraseDups_eraseDups_append, h.1, eraseDups_append_eraseDups]
      _ = (key a :: as.map key).eraseDups := by
          rw [ih h.2, eraseDups_append_eraseDups, List.singleton_append]

omit [DecidableEq α] in
/-- Where a key tells the elements of a list apart, each of them is found by its key. -/
theorem find?_of_nodup {key : α → β} {as : List α} (h : (as.map key).Nodup) {a : α} (ha : a ∈ as) :
    as.find? (fun b => key b == key a) = some a := by
  cases hfind : as.find? fun b => key b == key a with
  | none =>
    have hnot := List.find?_eq_none.mp hfind a ha
    simp at hnot
  | some b =>
    have hkey : key b = key a := by simpa using List.find?_some hfind
    rw [List.inj_on_of_nodup_map h (List.mem_of_find?_eq_some hfind) ha hkey]

end Declgen
