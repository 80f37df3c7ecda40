import Mathlib.Data.List.Forall2

/-!
# Outcomes of computations that may fail

A statement about a computation that may fail says two things: what holds of its result, and which
errors are possible. `Outcome` says both at once. Its rules follow the way computations are
put together, so that each function needs one lemma only and its callers never look inside it.
-/

namespace Declgen

/-- The result of a computation has `good`, or its error has `bad`. -/
def Outcome {ε α : Type} (good : α → Prop) (bad : ε → Prop) : Except ε α → Prop
  | .ok a => good a
  | .error e => bad e

namespace Outcome

variable {ε α β σ : Type} {good good' : α → Prop} {bad : ε → Prop}

/-- What has to hold of a result. -/
@[simp] theorem ok_iff {a : α} : Outcome good bad (.ok a) ↔ good a := Iff.rfl

/-- What has to hold of a computation that only returns. -/
@[simp] theorem pure_iff {a : α} : Outcome good bad (pure a) ↔ good a := Iff.rfl

/-- What has to hold of an error. -/
@[simp] theorem error_iff {e : ε} : Outcome good bad (.error e) ↔ bad e := Iff.rfl

/-- What has to hold of a computation that only fails. -/
@[simp] theorem throw_iff {e : ε} : Outcome good bad (throw e) ↔ bad e := Iff.rfl

/-- Nothing has to be known about a computation for this. -/
theorem any (x : Except ε α) : Outcome (fun _ => True) (fun _ => True) x := by
  cases x <;> trivial

/-- What is known of the result. -/
theorem result {x : Except ε α} {a : α} (h : Outcome good bad x) (hx : x = .ok a) : good a := by
  subst hx
  exact h

/-- What is known of the error. -/
theorem failure {x : Except ε α} {e : ε} (h : Outcome good bad x) (hx : x = .error e) :
    bad e := by
  subst hx
  exact h

/-- A computation that cannot fail has a result. -/
theorem exists_ok {x : Except ε α} (h : Outcome good (fun _ => False) x) : ∃ a, x = .ok a := by
  cases x with
  | ok a => exact ⟨a, rfl⟩
  | error e => exact h.elim

/-- A weaker statement about the result. -/
theorem weaken {x : Except ε α} (h : Outcome good bad x) (himp : ∀ a, good a → good' a) :
    Outcome good' bad x := by
  cases x with
  | ok a => exact himp a h
  | error e => exact h

/-- A weaker statement about the result and about the error. -/
theorem mono {bad' : ε → Prop} {x : Except ε α} (h : Outcome good bad x)
    (hgood : ∀ a, good a → good' a) (hbad : ∀ e, bad e → bad' e) : Outcome good' bad' x := by
  cases x with
  | ok a => exact hgood a h
  | error e => exact hbad e h

/-- Two statements about one computation. -/
theorem and {bad' : ε → Prop} {x : Except ε α} (h : Outcome good bad x)
    (h' : Outcome good' bad' x) :
    Outcome (fun a => good a ∧ good' a) (fun e => bad e ∧ bad' e) x := by
  cases x with
  | ok a => exact ⟨h, h'⟩
  | error e => exact ⟨h, h'⟩

/-- One computation after the other: what the first one gives is known to the second. -/
theorem bind {x : Except ε α} {f : α → Except ε β} {goal : β → Prop} (hx : Outcome good bad x)
    (hf : ∀ a, good a → Outcome goal bad (f a)) : Outcome goal bad (x >>= f) := by
  cases x with
  | ok a => exact hf a hx
  | error e => exact hx

/-- A function applied to the result. -/
theorem map {x : Except ε α} {f : α → β} {goal : β → Prop} (hx : Outcome good bad x)
    (hf : ∀ a, good a → goal (f a)) : Outcome goal bad (f <$> x) := by
  cases x with
  | ok a => exact hf a hx
  | error e => exact hx

/-- A computation without state comes first in one with state. -/
theorem lift_bind {x : Except ε α} {f : α → StateT σ (Except ε) β} {s : σ} {goal : β × σ → Prop}
    (hx : Outcome good bad x) (hf : ∀ a, good a → Outcome goal bad ((f a).run s)) :
    Outcome goal bad ((liftM x >>= f : StateT σ (Except ε) β).run s) := by
  cases x with
  | ok a => exact hf a hx
  | error e => exact hx

/-- One computation with state comes after another one. -/
theorem run_bind {x : StateT σ (Except ε) α} {f : α → StateT σ (Except ε) β} {s : σ}
    {good : α × σ → Prop} {goal : β × σ → Prop} (hx : Outcome good bad (x.run s))
    (hf : ∀ a s', good (a, s') → Outcome goal bad ((f a).run s')) :
    Outcome goal bad ((x >>= f).run s) := by
  rw [StateT.run_bind]
  exact hx.bind fun r => hf r.1 r.2

end Outcome

/-- After a computation whose outcome is known, two continuations that agree on its possible
results are the same. -/
theorem Outcome.bind_congr {ε α β : Type} {good : α → Prop} {bad : ε → Prop} {x : Except ε α}
    {f g : α → Except ε β} (hx : Outcome good bad x) (hfg : ∀ a, good a → f a = g a) :
    x >>= f = x >>= g := by
  cases x with
  | ok a => exact hfg a hx
  | error e => rfl

/-- A computation whose mapped result is known has a result itself. -/
theorem exists_of_map_eq_ok {ε α β : Type} {x : Except ε α} {f : α → β} {b : β}
    (h : x.map f = .ok b) : ∃ a, x = .ok a ∧ f a = b := by
  cases x with
  | ok a =>
    cases h
    exact ⟨a, rfl, rfl⟩
  | error e => cases h

/-- Where two computations one after the other succeed, each of them does. -/
theorem bind_eq_ok {ε α β : Type} {x : Except ε α} {f : α → Except ε β} {b : β}
    (h : x >>= f = .ok b) : ∃ a, x = .ok a ∧ f a = .ok b := by
  cases x with
  | ok a => exact ⟨a, rfl, h⟩
  | error e => cases h

/-- After a computation that succeeds the next one remains. -/
theorem ok_bind {ε α β : Type} (a : α) (f : α → Except ε β) : (.ok a : Except ε α) >>= f = f a :=
  rfl

/-- Lifting a result and going on is going on with the result. -/
theorem lift_ok_bind {ε α β σ : Type} (a : α) (f : α → StateT σ (Except ε) β) :
    (liftM (.ok a : Except ε α) >>= f : StateT σ (Except ε) β) = f a := rfl

/-- When the first of two computations with state is known, the second one remains. -/
theorem run_bind_eq {ε α β σ : Type} {x : StateT σ (Except ε) α} {f : α → StateT σ (Except ε) β}
    {s s' : σ} {a : α} (h : x.run s = .ok (a, s')) : (x >>= f).run s = (f a).run s' := by
  rw [StateT.run_bind, h]
  rfl

section Lists

variable {ε α β σ : Type} {bad : ε → Prop}

/-- If every call succeeds, so does their sequence. -/
theorem mapM_eq_ok {f : α → Except ε β} {h : α → β} {as : List α}
    (hf : ∀ a ∈ as, f a = .ok (h a)) : as.mapM f = .ok (as.map h) := by
  induction as with
  | nil => rfl
  | cons a as ih =>
    rw [List.mapM_cons, hf a (by simp), ih fun b hb => hf b (by simp [hb])]
    rfl

/-- A sequence of values is there exactly if every one of them is. -/
theorem mapM_eq_some_iff {f : α → Option β} {as : List α} {bs : List β} :
    as.mapM f = some bs ↔ List.Forall₂ (fun a b => f a = some b) as bs := by
  induction as generalizing bs with
  | nil => cases bs <;> simp
  | cons a as ih =>
    cases bs with
    | nil => simp [List.mapM_cons, Option.bind_eq_some_iff]
    | cons b bs =>
      simp only [List.mapM_cons, Option.bind_eq_bind, Option.pure_def, Option.bind_eq_some_iff,
        Option.some.injEq, List.cons.injEq, List.forall₂_cons, ← ih]
      grind

/-- Every value of a sequence is the value of one of its calls. -/
theorem exists_of_mem_mapM {f : α → Option β} {as : List α} {bs : List β}
    (h : as.mapM f = some bs) {b : β} (hb : b ∈ bs) : ∃ a ∈ as, f a = some b := by
  rw [mapM_eq_some_iff] at h
  induction h with
  | nil => cases hb
  | @cons a c as bs head _ ih =>
    rcases List.mem_cons.mp hb with rfl | hb
    · exact ⟨a, by simp, head⟩
    · obtain ⟨a', ha', hf⟩ := ih hb
      exact ⟨a', by simp [ha'], hf⟩

/-- Every call of a sequence gives one of its values. -/
theorem exists_mem_of_mapM {f : α → Option β} {as : List α} {bs : List β}
    (h : as.mapM f = some bs) {a : α} (ha : a ∈ as) : ∃ b ∈ bs, f a = some b := by
  rw [mapM_eq_some_iff] at h
  induction h with
  | nil => cases ha
  | @cons a' b as bs head _ ih =>
    rcases List.mem_cons.mp ha with rfl | ha
    · exact ⟨b, by simp, head⟩
    · obtain ⟨b', hb', hf⟩ := ih ha
      exact ⟨b', by simp [hb'], hf⟩

/-- Functions that agree on a list give the same sequence of values. -/
theorem mapM_congr_left {m : Type → Type} [Monad m] [LawfulMonad m] {f g : α → m β} {as : List α}
    (hfg : ∀ a ∈ as, f a = g a) : as.mapM f = as.mapM g := by
  induction as with
  | nil => rfl
  | cons a as ih =>
    rw [List.mapM_cons, List.mapM_cons, hfg a (by simp), ih fun b hb => hfg b (by simp [hb])]

/-- The values of a sequence are mapped one by one. -/
theorem mapM_option_map {γ : Type} (g : β → γ) (f : α → Option β) (as : List α) :
    as.mapM (fun a => (f a).map g) = (as.mapM f).map (List.map g) := by
  induction as with
  | nil => rfl
  | cons a as ih =>
    rw [List.mapM_cons, List.mapM_cons, ih]
    cases f a with
    | none => rfl
    | some b => cases as.mapM f <;> rfl

/-- A sequence of values that two functions share. -/
theorem mapM_mono {f g : α → Option β} {as : List α} {bs : List β}
    (hfg : ∀ a ∈ as, ∀ b, f a = some b → g a = some b) (h : as.mapM f = some bs) :
    as.mapM g = some bs := by
  rw [mapM_eq_some_iff] at h ⊢
  induction h with
  | nil => exact .nil
  | cons head _ ih =>
    exact .cons (hfg _ (by simp) _ head) (ih fun a ha => hfg a (by simp [ha]))

/-- Every element of a list is related to one of the other list. -/
theorem exists_mem_of_forall₂ {related : α → β → Prop} {as : List α} {bs : List β}
    (h : List.Forall₂ related as bs) {a : α} (ha : a ∈ as) : ∃ b ∈ bs, related a b := by
  induction h with
  | nil => cases ha
  | @cons a' b as bs head _ ih =>
    rcases List.mem_cons.mp ha with rfl | ha
    · exact ⟨b, by simp, head⟩
    · obtain ⟨b', hb', hrelated⟩ := ih ha
      exact ⟨b', by simp [hb'], hrelated⟩

/-- Lists whose elements are partners one by one are both empty or both not. -/
theorem ne_nil_of_forall₂ {related : α → β → Prop} {as : List α} {bs : List β}
    (h : List.Forall₂ related as bs) (has : as ≠ []) : bs ≠ [] := by
  rintro rfl
  exact has (List.forall₂_nil_right_iff.mp h)

/-- Partners that exist for all elements of a list can be listed. -/
theorem exists_forall₂ {related : β → α → Prop} {as : List α} (h : ∀ a ∈ as, ∃ b, related b a) :
    ∃ bs, List.Forall₂ related bs as := by
  induction as with
  | nil => exact ⟨[], .nil⟩
  | cons a as ih =>
    obtain ⟨b, hb⟩ := h a List.mem_cons_self
    obtain ⟨bs, hbs⟩ := ih fun a ha => h a (List.mem_cons_of_mem _ ha)
    exact ⟨b :: bs, .cons hb hbs⟩

/-- Lists whose elements have the same images have the same image. -/
theorem map_eq_map_of_forall₂ {f : α → σ} {g : β → σ} {as : List α} {bs : List β}
    (h : List.Forall₂ (fun a b => f a = g b) as bs) : as.map f = bs.map g := by
  induction h with
  | nil => rfl
  | cons head _ ih => rw [List.map_cons, List.map_cons, head, ih]

/-- Lists whose elements give the same values give the same sequence of values. -/
theorem mapM_eq_mapM_of_forall₂ {f : α → Option σ} {g : β → Option σ} {as : List α} {bs : List β}
    (h : List.Forall₂ (fun a b => f a = g b) as bs) : as.mapM f = bs.mapM g := by
  induction h with
  | nil => rfl
  | cons head _ ih => rw [List.mapM_cons, List.mapM_cons, head, ih]

/-- What holds of each call of a sequence holds of its values one by one. -/
theorem Outcome.mapM_forall₂ {f : α → Except ε β} {good : α → β → Prop} {as : List α}
    (hf : ∀ a ∈ as, Outcome (good a) bad (f a)) :
    Outcome (List.Forall₂ good as) bad (as.mapM f) := by
  induction as with
  | nil => exact .nil
  | cons a as ih =>
    rw [List.mapM_cons]
    refine (hf a (by simp)).bind fun b hb => ?_
    refine (ih fun c hc => hf c (by simp [hc])).bind fun bs hbs => ?_
    exact .cons hb hbs

/-- A sequence of calls that follow a function which may have no value. -/
theorem Outcome.mapM_option {f : α → Except ε β} {h : α → Option β} {as : List α}
    (hf : ∀ a ∈ as, Outcome (fun b => h a = some b) bad (f a)) :
    Outcome (fun bs => as.mapM h = some bs) bad (as.mapM f) :=
  (Outcome.mapM_forall₂ hf).weaken fun _ hbs => mapM_eq_some_iff.mpr hbs

/-- What holds after a call for each element holds for all of them after a loop over them. -/
theorem Outcome.forM {f : α → Except ε Unit} {good : α → Prop} {as : List α}
    (hf : ∀ a ∈ as, Outcome (fun _ => good a) bad (f a)) :
    Outcome (fun _ => ∀ a ∈ as, good a) bad (as.forM f) := by
  induction as with
  | nil => exact fun a ha => absurd ha List.not_mem_nil
  | cons a as ih =>
    change Outcome _ bad (f a >>= fun _ => as.forM f)
    refine (hf a (by simp)).bind fun _ ha => ?_
    refine (ih fun b hb => hf b (by simp [hb])).weaken fun _ has b hb => ?_
    rcases List.mem_cons.mp hb with rfl | hb
    · exact ha
    · exact has b hb

/-- A loop keeps what its body keeps. -/
theorem Outcome.foldlM {inv : β → Prop} {f : β → α → Except ε β}
    (hf : ∀ b a, inv b → Outcome inv bad (f b a)) {as : List α} {b : β} (hb : inv b) :
    Outcome inv bad (as.foldlM f b) := by
  induction as generalizing b with
  | nil => exact hb
  | cons a as ih =>
    rw [List.foldlM_cons]
    exact (hf b a hb).bind fun b' hb' => ih hb'

/-- The calls of a sequence one by one, each with the state before it and the state after it. -/
inductive Calls (call : α → σ → β → σ → Prop) : List α → σ → List β → σ → Prop
  /-- No call leaves the state as it is. -/
  | nil (s : σ) : Calls call [] s [] s
  /-- The first call, and those after it. -/
  | cons {a : α} {b : β} {as : List α} {bs : List β} {s s' s'' : σ} (head : call a s b s')
      (tail : Calls call as s' bs s'') : Calls call (a :: as) s (b :: bs) s''

/-- What holds after each call holds for all of them. -/
theorem Calls.forall {call : α → σ → β → σ → Prop} {good : α → Prop} {as : List α} {bs : List β}
    {s s' : σ} (h : Calls call as s bs s') (hcall : ∀ a s b s', call a s b s' → good a) :
    ∀ a ∈ as, good a := by
  induction h with
  | nil => exact fun a ha => absurd ha List.not_mem_nil
  | cons head _ ih => exact List.forall_mem_cons.mpr ⟨hcall _ _ _ _ head, ih⟩

/-- What holds of each call that starts in a state with `inv` holds along a sequence of them, if
each call keeps `inv`. -/
theorem Outcome.mapM_calls (call : α → σ → β → σ → Prop) (inv : σ → Prop)
    {f : α → StateT σ (Except ε) β} {as : List α}
    (hf : ∀ a ∈ as, ∀ s, inv s →
      Outcome (fun r => call a s r.1 r.2 ∧ inv r.2) bad ((f a).run s))
    {s : σ} (hs : inv s) :
    Outcome (fun r => Calls call as s r.1 r.2 ∧ inv r.2) bad ((as.mapM f).run s) := by
  induction as generalizing s with
  | nil => exact ⟨.nil s, hs⟩
  | cons a as ih =>
    rw [List.mapM_cons, StateT.run_bind]
    refine (hf a (by simp) s hs).bind fun r hr => ?_
    rw [StateT.run_bind]
    refine (ih (fun c hc => hf c (by simp [hc])) hr.2).bind fun rs hrs => ?_
    exact ⟨.cons hr.1 hrs.1, hrs.2⟩

/-- Two sequences of calls are the same if the calls are, in every state with `inv`, and each call
keeps `inv`. -/
theorem Outcome.mapM_congr (inv : σ → Prop) {f g : α → StateT σ (Except ε) β} {as : List α}
    (hf : ∀ a ∈ as, ∀ s, inv s → Outcome (fun r => inv r.2) bad ((f a).run s))
    (hfg : ∀ a ∈ as, ∀ s, inv s → (f a).run s = (g a).run s) {s : σ} (hs : inv s) :
    (as.mapM f).run s = (as.mapM g).run s := by
  induction as generalizing s with
  | nil => rfl
  | cons a as ih =>
    rw [List.mapM_cons, List.mapM_cons, StateT.run_bind, StateT.run_bind,
      ← hfg a (by simp) s hs]
    refine (hf a (by simp) s hs).bind_congr fun r hr => ?_
    rw [StateT.run_bind, StateT.run_bind,
      ih (fun b hb => hf b (by simp [hb])) (fun b hb => hfg b (by simp [hb])) hr]

end Lists

end Declgen
