import Declgen.Proofs.Outcome
import Declgen.Proofs.Types.Tree

/-!
# How deep the name of a type nests

The name of an instantiation is made from the names of its parts, level by level. A type has a name
of at most `n` levels exactly if its name tree is at most `n` levels high, so a unit for an
instantiation is there only if the instantiation has at most 32 levels.
-/

namespace Declgen.Walk.TypeTree

open Declgen.Units

mutual

/-- The number of levels of the tree from which the name of a type is made. -/
def levels : TypeTree → Nat
  | .primitive _ | .enum .. | .record .. | .parameter _ => 1
  | .nullable inner => levels inner + 1
  | .array element => levels element + 1
  | .dictionary key value => max (levels key) (levels value) + 1
  | .instantiation _ _ arguments => max 1 (mostLevels arguments) + 1

/-- The greatest number of levels among several types. -/
def mostLevels : List TypeTree → Nat
  | [] => 0
  | t :: ts => max (levels t) (mostLevels ts)

end

/-- When several types have at most some number of levels. -/
theorem mostLevels_le_iff {ts : List TypeTree} {n : Nat} :
    mostLevels ts ≤ n ↔ ∀ t ∈ ts, t.levels ≤ n := by
  induction ts with
  | nil => simp [mostLevels]
  | cons t ts ih => rw [mostLevels, Nat.max_le, ih, List.forall_mem_cons]

/-! ### Names -/

/-- A name of at most `n` levels is there only for a type of at most `n` levels. -/
theorem levels_le_of_name? {t : TypeTree} {n : Nat} {name : String} (h : t.name? n = some name) :
    t.levels ≤ n := by
  induction n generalizing t name with
  | zero => cases h
  | succ n ih =>
    cases t with
    | nullable inner =>
      obtain ⟨part, hpart, -⟩ := Option.bind_eq_some_iff.mp h
      exact Nat.succ_le_succ (ih hpart)
    | array element =>
      obtain ⟨part, hpart, -⟩ := Option.bind_eq_some_iff.mp h
      exact Nat.succ_le_succ (ih hpart)
    | dictionary key value =>
      obtain ⟨first, hfirst, h⟩ := Option.bind_eq_some_iff.mp h
      obtain ⟨second, hsecond, -⟩ := Option.bind_eq_some_iff.mp h
      exact Nat.succ_le_succ (Nat.max_le.mpr ⟨ih hfirst, ih hsecond⟩)
    | instantiation definition c arguments =>
      obtain ⟨first, hfirst, h⟩ := Option.bind_eq_some_iff.mp h
      obtain ⟨rest, hrest, -⟩ := Option.bind_eq_some_iff.mp h
      have hrecord : 1 ≤ n := ih hfirst
      have harguments : mostLevels arguments ≤ n := mostLevels_le_iff.mpr fun t ht => by
        obtain ⟨part, -, hpart⟩ := exists_mem_of_mapM hrest ht
        exact ih hpart
      exact Nat.succ_le_succ (Nat.max_le.mpr ⟨hrecord, harguments⟩)
    | _ => exact Nat.succ_le_succ (Nat.zero_le n)

/-- A unit for an instantiation has a name of at most 32 levels. -/
theorem levels_le_of_header? {t : TypeTree} {header : Header} (h : t.header? = some header) :
    t.levels ≤ nameLevels := by
  cases t with
  | enum id e => exact Nat.le_add_left 1 31
  | record id c => exact Nat.le_add_left 1 31
  | instantiation definition c arguments =>
    obtain ⟨name, hname, -⟩ := Option.map_eq_some_iff.mp h
    exact levels_le_of_name? hname
  | _ => cases h

end Declgen.Walk.TypeTree
