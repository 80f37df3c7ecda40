import Declgen.Proofs.Units.Registry

/-!
# What calls change in a registry

A registry is filled by reserving units and by completing reserved ones. A reservation that finds
its unit and a call that fails leave it as it is. Every other call leaves a mark that no later call
can take away: a unit is never given up, and a body is never replaced. So from a registry and a
later one it can be told how often a unit has been reserved and completed between them, namely once
or not at all.
-/

namespace Declgen.Units

open TypeScript (UnitId Declaration)

/-- A call that changes a registry. -/
inductive Change where
  /-- A new unit is reserved. -/
  | reserved (unit : UnitId)
  /-- A unit is completed. -/
  | completed (unit : UnitId)
deriving DecidableEq

namespace Registry

variable {r r' r'' : Registry} {key : String} {header : Header} {unit other : UnitId}
  {declaration : Declaration} {references : List UnitId} {log log' : List Change}

/-- Calls lead from one registry to another, and these are the changes that they make. -/
inductive Changes (r : Registry) : List Change → Registry → Prop
  /-- No call has been made. -/
  | none : Changes r [] r
  /-- A new unit is reserved. -/
  | reserve {log : List Change} {r' r'' : Registry} {key : String} {header : Header}
      {unit : UnitId} (before : Changes r log r')
      (hcall : r'.reserve key header = .ok (r'', ⟨unit, true⟩)) :
    Changes r (log ++ [.reserved unit]) r''
  /-- A reserved unit is completed. -/
  | complete {log : List Change} {r' r'' : Registry} {unit : UnitId} {declaration : Declaration}
      {references : List UnitId} (before : Changes r log r') (hreserved : unit < r'.size)
      (hcall : r'.complete unit declaration references = .ok r'') :
    Changes r (log ++ [.completed unit]) r''

/-! ### One call -/

/-- A reservation of a new unit adds it at the end. -/
theorem eq_append_of_reserve (h : r.reserve key header = .ok (r', ⟨unit, true⟩)) :
    r' = r.append key header ∧ unit = r.size := by
  cases hlookup : r.lookup key with
  | some found =>
    rw [reserve, hlookup] at h
    cases h
  | none =>
    have heq := ((reserve_outcome hlookup).result h).1
    exact ⟨congrArg Prod.fst heq, congrArg (fun result => result.2.id) heq⟩

/-- Appending a unit makes the registry larger by one. -/
@[simp] theorem size_append : (r.append key header).size = r.size + 1 := by
  simp [append, size]

/-- The other slots stay as they are. -/
theorem getElem?_append_of_lt (h : other < r.size) :
    (r.append key header).slots[other]? = r.slots[other]? :=
  Array.getElem?_push_lt h |>.trans (Array.getElem?_eq_getElem h).symm

/-- A new unit lacks its body. -/
theorem isComplete_append : (r.append key header).isComplete other = r.isComplete other := by
  rw [isComplete, isComplete, append, Array.getElem?_push]
  split
  · rename_i heq
    subst heq
    simp
  · rfl

/-- A unit that has not been reserved is not complete. -/
theorem isComplete_eq_false_of_size_le (h : r.size ≤ unit) : r.isComplete unit = false := by
  rw [isComplete, Array.getElem?_eq_none h]
  rfl

/-- What has its body has been reserved. -/
theorem lt_size_of_isComplete (h : r.isComplete unit = true) : unit < r.size := by
  by_contra hle
  rw [isComplete_eq_false_of_size_le (Nat.le_of_not_lt hle)] at h
  cases h

/-- Completing a reserved unit gives its body to a unit that has lacked it, and to no other one. -/
theorem isComplete_of_complete (hreserved : unit < r.size)
    (h : r.complete unit declaration references = .ok r') :
    r'.size = r.size ∧ r.isComplete unit = false ∧ r'.isComplete unit = true ∧
      ∀ other, other ≠ unit → r'.slots[other]? = r.slots[other]? := by
  have hslot : r.slots[unit]? = some r.slots[unit] := Array.getElem?_eq_getElem hreserved
  cases hbody : r.slots[unit].body with
  | some body =>
    simp only [complete, hslot, hbody] at h
    cases h
  | none =>
    rw [complete_eq hslot hbody] at h
    cases h
    refine ⟨by simp [size], by simp [isComplete, hslot, hbody], ?_, fun other hother => ?_⟩
    · rw [isComplete, Array.getElem?_setIfInBounds_self_of_lt hreserved]
      rfl
    · exact Array.getElem?_setIfInBounds_ne hother.symm

/-- Whether a unit is complete depends on its slot only. -/
theorem isComplete_congr (h : r'.slots[unit]? = r.slots[unit]?) :
    r'.isComplete unit = r.isComplete unit := by
  rw [isComplete, isComplete, h]

/-! ### All calls -/

/-- Calls make no registry smaller. -/
theorem Changes.size_le (h : r.Changes log r') : r.size ≤ r'.size := by
  induction h with
  | none => exact Nat.le_refl _
  | reserve _ hcall ih =>
    obtain ⟨rfl, -⟩ := eq_append_of_reserve hcall
    rw [size_append]
    exact Nat.le_succ_of_le ih
  | complete _ hreserved hcall ih =>
    exact (isComplete_of_complete hreserved hcall).1 ▸ ih

/-- The units that have been reserved are those that the later registry has in addition, each of
them once. -/
theorem Changes.count_reserved (h : r.Changes log r') (unit : Nat) :
    log.count (.reserved unit) = if r.size ≤ unit ∧ unit < r'.size then 1 else 0 := by
  induction h with
  | none =>
    rw [List.count_nil, if_neg]
    omega
  | @reserve log r' r'' key header new before hcall ih =>
    obtain ⟨rfl, rfl⟩ := eq_append_of_reserve hcall
    have hle := before.size_le
    rw [List.count_append, ih, size_append]
    by_cases hunit : unit = r'.size
    · subst hunit
      rw [if_neg (by omega), if_pos (by omega)]
      simp
    · have hnone : [Change.reserved r'.size].count (.reserved unit) = 0 :=
        List.count_eq_zero.mpr (by simpa using hunit)
      rw [hnone, Nat.add_zero]
      exact if_congr (by omega) rfl rfl
  | complete _ hreserved hcall ih =>
    rw [List.count_append, ih, (isComplete_of_complete hreserved hcall).1]
    simp

/-- The units that have been completed are those that have their bodies only in the later registry,
each of them once. -/
theorem Changes.count_completed (h : r.Changes log r') (unit : UnitId) :
    log.count (.completed unit) + (r.isComplete unit).toNat = (r'.isComplete unit).toNat := by
  induction h with
  | none => simp
  | reserve _ hcall ih =>
    obtain ⟨rfl, -⟩ := eq_append_of_reserve hcall
    rw [isComplete_append, List.count_append, ← ih]
    simp
  | @complete log r' r'' done declaration references _ hreserved hcall ih =>
    obtain ⟨-, hbefore, hafter, hother⟩ := isComplete_of_complete hreserved hcall
    by_cases hunit : unit = done
    · subst hunit
      rw [hbefore] at ih
      rw [hafter, List.count_append, List.count_singleton_self]
      simp only [Bool.toNat_false, Bool.toNat_true] at ih ⊢
      omega
    · have hnone : [Change.completed done].count (.completed unit) = 0 :=
        List.count_eq_zero.mpr (by simpa using hunit)
      rw [isComplete_congr (hother unit hunit), List.count_append, hnone, Nat.add_zero]
      exact ih

end Registry

end Declgen.Units
