import Declgen.Proofs.Outcome

/-!
# Computations that succeed and fail together

Two runs of a program may be told apart by their results or by their errors. Two computations go
together if neither is possible beyond a given relation of results: both succeed, with related
results, or both fail, with the same error. A computation is blind to what a relation of states
leaves open if it goes together with itself from related states.
-/

namespace Declgen

/-- Two computations have related results or the same error. -/
def Together {ε α β : Type} (related : α → β → Prop) : Except ε α → Except ε β → Prop
  | .ok a, .ok b => related a b
  | .error e, .error e' => e = e'
  | _, _ => False

namespace Together

variable {ε α α' β β' σ τ : Type} {related : α → β → Prop}

/-- Two results that are related. -/
theorem pure {a : α} {b : β} (h : related a b) :
    Together related (pure a : Except ε α) (pure b) := h

/-- The same error on both sides. -/
theorem error (e : ε) : Together related (.error e) (.error e) := rfl

/-- A computation goes together with itself. -/
theorem self {related : α → α → Prop} {x : Except ε α} (h : ∀ a, x = .ok a → related a a) :
    Together related x x := by
  cases x with
  | ok a => exact h a rfl
  | error e => rfl

/-- One pair of computations after the other. -/
theorem bind {goal : α' → β' → Prop} {x : Except ε α} {y : Except ε β} {f : α → Except ε α'}
    {g : β → Except ε β'} (hxy : Together related x y)
    (hfg : ∀ a b, x = .ok a → y = .ok b → related a b → Together goal (f a) (g b)) :
    Together goal (x >>= f) (y >>= g) := by
  cases x <;> cases y
  · exact hxy
  · exact hxy.elim
  · exact hxy.elim
  · exact hfg _ _ rfl rfl hxy

/-- Functions applied to the two results. -/
theorem map {goal : α' → β' → Prop} {x : Except ε α} {y : Except ε β} {f : α → α'} {g : β → β'}
    (hxy : Together related x y) (hfg : ∀ a b, related a b → goal (f a) (g b)) :
    Together goal (x.map f) (y.map g) := by
  cases x <;> cases y
  · exact hxy
  · exact hxy.elim
  · exact hxy.elim
  · exact hfg _ _ hxy

/-- A loop keeps together what its body keeps together. -/
theorem foldlM {f : β → α → Except ε β} {g : β' → α → Except ε β'} {related : β → β' → Prop}
    (hfg : ∀ a b b', related b b' → Together related (f b a) (g b' a)) {as : List α} {b : β}
    {b' : β'} (hb : related b b') : Together related (as.foldlM f b) (as.foldlM g b') := by
  induction as generalizing b b' with
  | nil => exact hb
  | cons a as ih =>
    rw [List.foldlM_cons, List.foldlM_cons]
    exact (hfg a b b' hb).bind fun _ _ _ _ h => ih h

/-- The errors of computations that go together are the same. -/
theorem error_iff {x : Except ε α} {y : Except ε β} (h : Together related x y) (e : ε) :
    x = .error e ↔ y = .error e := by
  cases x <;> cases y
  · cases h
    simp
  · exact h.elim
  · exact h.elim
  · simp

/-- If one of them succeeds, so does the other one. -/
theorem exists_ok {x : Except ε α} {y : Except ε β} (h : Together related x y) {a : α}
    (hx : x = .ok a) : ∃ b, y = .ok b ∧ related a b := by
  subst hx
  cases y with
  | ok b => exact ⟨b, rfl, h⟩
  | error e => exact h.elim

end Together

/-- From states that are related by `rel` a computation gives the same result, or the same error,
and leads to related states. -/
def Blind {ε α σ : Type} (rel : σ → σ → Prop) (x : StateT σ (Except ε) α) : Prop :=
  ∀ s s', rel s s' → Together (fun r r' => r.1 = r'.1 ∧ rel r.2 r'.2) (x.run s) (x.run s')

namespace Blind

variable {ε α β σ : Type} {rel : σ → σ → Prop}

/-- Returning a value looks at no state. -/
theorem pure (a : α) : Blind rel (Pure.pure a : StateT σ (Except ε) α) := fun _ _ h => ⟨rfl, h⟩

/-- Failing looks at no state. -/
theorem throw (e : ε) : Blind rel (throw e : StateT σ (Except ε) α) := fun _ _ _ => rfl

/-- A computation without state looks at none. -/
theorem lift (x : Except ε α) : Blind rel (liftM x : StateT σ (Except ε) α) := by
  intro s s' h
  cases x with
  | ok a => exact ⟨rfl, h⟩
  | error e => rfl

/-- One computation after the other. -/
theorem bind {x : StateT σ (Except ε) α} {f : α → StateT σ (Except ε) β} (hx : Blind rel x)
    (hf : ∀ a, Blind rel (f a)) : Blind rel (x >>= f) := by
  intro s s' h
  rw [StateT.run_bind, StateT.run_bind]
  refine (hx s s' h).bind fun r r' _ _ hr => ?_
  obtain ⟨a, t⟩ := r
  obtain ⟨_, t'⟩ := r'
  obtain ⟨rfl, ht⟩ := hr
  exact hf a t t' ht

end Blind

end Declgen
