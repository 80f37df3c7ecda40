import Declgen.Proofs.Outcome

/-!
# Two computations side by side

To say that two runs of a program agree, one computation is compared with another: where the first
succeeds, the second does too, and their results are related. Nothing is said about errors. As with
the outcome of one computation, the rules follow the way computations are put together.
-/

namespace Declgen

/-- Where the first computation succeeds, so does the second, with a related result. -/
def Follows {ε α β : Type} (related : α → β → Prop) (x : Except ε α) (y : Except ε β) : Prop :=
  ∀ a, x = .ok a → ∃ b, y = .ok b ∧ related a b

namespace Follows

variable {ε α α' β β' σ τ : Type} {related : α → β → Prop}

/-- Anything follows a computation that fails. -/
theorem error (e : ε) (y : Except ε β) : Follows related (.error e) y := fun _ h => by cases h

/-- A result follows another one to which it is related. -/
theorem pure {a : α} {b : β} (h : related a b) :
    Follows related (pure a : Except ε α) (pure b) := by
  rintro _ ⟨⟩
  exact ⟨b, rfl, h⟩

/-- A weaker statement about the two results. -/
theorem weaken {related' : α → β → Prop} {x : Except ε α} {y : Except ε β}
    (h : Follows related x y) (himp : ∀ a b, related a b → related' a b) :
    Follows related' x y := by
  intro a hx
  obtain ⟨b, hy, hab⟩ := h a hx
  exact ⟨b, hy, himp a b hab⟩

/-- One pair of computations after the other: what relates the results of the first pair is known to
the second. -/
theorem bind {goal : α' → β' → Prop} {x : Except ε α} {y : Except ε β} {f : α → Except ε α'}
    {g : β → Except ε β'} (hxy : Follows related x y)
    (hfg : ∀ a b, related a b → Follows goal (f a) (g b)) :
    Follows goal (x >>= f) (y >>= g) := by
  intro a' hx
  obtain ⟨a, ha, hf⟩ := bind_eq_ok hx
  obtain ⟨b, rfl, hab⟩ := hxy a ha
  exact hfg a b hab a' hf

/-- Computations without state come first in two with state. -/
theorem lift_bind {goal : α' × σ → β' × τ → Prop} {x : Except ε α} {y : Except ε β}
    {f : α → StateT σ (Except ε) α'} {g : β → StateT τ (Except ε) β'} {s : σ} {t : τ}
    (hxy : Follows related x y)
    (hfg : ∀ a b, related a b → Follows goal ((f a).run s) ((g b).run t)) :
    Follows goal ((liftM x >>= f : StateT σ (Except ε) α').run s)
      ((liftM y >>= g : StateT τ (Except ε) β').run t) := by
  intro r hx
  cases x with
  | ok a =>
    obtain ⟨b, rfl, hab⟩ := hxy a rfl
    exact hfg a b hab r hx
  | error e => cases hx

/-- Two computations with state come after two others. -/
theorem run_bind {related : α × σ → β × τ → Prop} {goal : α' × σ → β' × τ → Prop}
    {x : StateT σ (Except ε) α} {y : StateT τ (Except ε) β} {f : α → StateT σ (Except ε) α'}
    {g : β → StateT τ (Except ε) β'} {s : σ} {t : τ} (hxy : Follows related (x.run s) (y.run t))
    (hfg : ∀ a s' b t', related (a, s') (b, t') →
      Follows goal ((f a).run s') ((g b).run t')) :
    Follows goal ((x >>= f).run s) ((y >>= g).run t) := by
  rw [StateT.run_bind, StateT.run_bind]
  exact hxy.bind fun r r' => hfg r.1 r.2 r'.1 r'.2

/-- Calls for related elements, one after the other. -/
theorem mapM {given : α → α' → Prop} {related : β → β' → Prop} {f : α → Except ε β}
    {g : α' → Except ε β'} {as : List α} {as' : List α'} (h : List.Forall₂ given as as')
    (hfg : ∀ a a', given a a' → a' ∈ as' → Follows related (f a) (g a')) :
    Follows (List.Forall₂ related) (as.mapM f) (as'.mapM g) := by
  induction h with
  | nil => exact .pure .nil
  | @cons a a' as as' head _ ih =>
    rw [List.mapM_cons, List.mapM_cons]
    refine (hfg a a' head (by simp)).bind fun b b' hb => ?_
    refine (ih fun c c' hc hmem => hfg c c' hc (by simp [hmem])).bind fun bs bs' hbs => ?_
    exact .pure (.cons hb hbs)

/-- Calls with state for related elements, one after the other. Both `inv` and the relation of the
results may depend on the states; what holds of earlier results is kept by later calls. -/
theorem mapM_run (inv : σ → τ → Prop) (related : σ → τ → β → β' → Prop) {given : α → α' → Prop}
    {f : α → StateT σ (Except ε) β} {g : α' → StateT τ (Except ε) β'} {as : List α}
    {as' : List α'} (h : List.Forall₂ given as as')
    (hfg : ∀ a a', given a a' → a' ∈ as' → ∀ s t, inv s t →
      Follows (fun r r' => inv r.2 r'.2 ∧ related r.2 r'.2 r.1 r'.1 ∧
        ∀ b b', related s t b b' → related r.2 r'.2 b b') ((f a).run s) ((g a').run t))
    {s : σ} {t : τ} (hinv : inv s t) :
    Follows (fun r r' => inv r.2 r'.2 ∧ List.Forall₂ (related r.2 r'.2) r.1 r'.1 ∧
      r'.1.length = as'.length ∧ ∀ b b', related s t b b' → related r.2 r'.2 b b')
      ((as.mapM f).run s) ((as'.mapM g).run t) := by
  induction h generalizing s t with
  | nil => exact .pure ⟨hinv, .nil, rfl, fun _ _ h => h⟩
  | @cons a a' as as' head _ ih =>
    rw [List.mapM_cons, List.mapM_cons]
    refine (hfg a a' head (by simp) s t hinv).run_bind fun b s₁ b' t₁ hb => ?_
    obtain ⟨hinv₁, hb, hkeep⟩ := hb
    refine (ih (fun c c' hc hmem => hfg c c' hc (by simp [hmem])) hinv₁).run_bind
      fun bs s₂ bs' t₂ hbs => ?_
    obtain ⟨hinv₂, hbs, hlength, hkeep'⟩ := hbs
    exact .pure ⟨hinv₂, .cons (hkeep' b b' hb) hbs, congrArg (· + 1) hlength,
      fun c c' hc => hkeep' c c' (hkeep c c' hc)⟩

/-- A loop over related elements keeps what its body keeps. -/
theorem foldlM {given : α → α' → Prop} {related : β → β' → Prop} {f : β → α → Except ε β}
    {g : β' → α' → Except ε β'} {as : List α} {as' : List α'} (h : List.Forall₂ given as as')
    (hfg : ∀ a a', given a a' → ∀ b b', related b b' → Follows related (f b a) (g b' a'))
    {b : β} {b' : β'} (hb : related b b') :
    Follows related (as.foldlM f b) (as'.foldlM g b') := by
  induction h generalizing b b' with
  | nil => exact .pure hb
  | @cons a a' as as' head _ ih =>
    rw [List.foldlM_cons, List.foldlM_cons]
    exact (hfg a a' head b b' hb).bind fun c c' hc => ih hc

end Follows

end Declgen
