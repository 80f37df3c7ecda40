import Declgen.Proofs.Alike.Names
import Declgen.Proofs.Types.Replacement
import Declgen.Proofs.Walk.NameBound

/-!
# Replacing parameters in types that say the same

Replacing parameters compares numbers to see whether anything has changed, and one graph may keep a
type where the other one adds it anew. The results are alike nonetheless, in the graphs that have
grown.
-/

namespace Declgen.Walk

open Model

/-! ### Graphs that grow side by side -/

namespace Graph

variable {g g₁ : Graph} {id : Nat} {d : Descriptor}

/-- The types that have been made are put together from others, and they have no more arguments
than types of the model. -/
structure Tame (g : Graph) : Prop where
  /-- Records, enumerations and the like have not been made. -/
  composite : ∀ (i : Nat) (d : Descriptor), g.made[i]? = some d → d.isComposite = true
  /-- The number of arguments is limited. -/
  limited : ∀ (i : Nat) (d : Descriptor), g.made[i]? = some d → arity d ≤ maxArity g.model

/-- In the graph of a model nothing has been made. -/
theorem ofModel_tame (a : Arena) : (ofModel a).Tame :=
  ⟨fun i d h => by simp [ofModel] at h, fun i d h => by simp [ofModel] at h⟩

/-- No type has more arguments than the model allows. -/
theorem Tame.arity_le (h : g.Tame) (hd : g.get id = .ok d) : arity d ≤ maxArity g.model := by
  rcases get_cases hd with hmodel | ⟨i, -, hmade⟩
  · exact arity_le_maxArity hmodel
  · exact h.limited i d hmade

/-- A type that is not put together from others is one of the model. -/
theorem Tame.get_model (h : g.Tame) (hd : g.get id = .ok d) (hcomposite : d.isComposite = false) :
    g.model.get id = .ok d := by
  rcases get_cases hd with hmodel | ⟨i, -, hmade⟩
  · exact hmodel
  · rw [h.composite i d hmade] at hcomposite
    cases hcomposite

/-- Adding a type extends the graph. -/
theorem extends_add (g : Graph) (d : Descriptor) : g.Extends (g.add d).1 :=
  ⟨rfl, by simp [Graph.add]⟩

/-- A type that has been added is found under the number that was next. -/
theorem get_add (g : Graph) (d : Descriptor) : (g.add d).1.get g.size = .ok d := by
  have hnot : ¬ g.model.size + g.made.size < g.model.size := by omega
  simp [Graph.get, Graph.add, Graph.size, hnot]

/-- A graph stays tame if what is added is put together from others and has few arguments. -/
theorem Tame.add (h : g.Tame) (hcomposite : d.isComposite = true)
    (harity : arity d ≤ maxArity g.model) : (g.add d).1.Tame := by
  have hmade (i : Nat) (e : Descriptor) (he : (g.add d).1.made[i]? = some e) :
      e = d ∨ g.made[i]? = some e := by
    simp only [Graph.add, Array.getElem?_push] at he
    split at he
    · exact .inl (Option.some.inj he).symm
    · exact .inr he
  constructor
  · intro i e he
    rcases hmade i e he with rfl | he
    · exact hcomposite
    · exact h.composite i e he
  · intro i e he
    rcases hmade i e he with rfl | he
    · exact harity
    · exact h.limited i e he

/-- Whether or not a type is kept, the result stands for the descriptor that was built. -/
theorem keepOrAdd_run {unchanged : Bool} (hkeep : unchanged = true → g.get id = .ok d)
    (hcomposite : d.isComposite = true) :
    ∃ r, (keepOrAdd id unchanged d).run g = .ok r ∧ g.Extends r.2 ∧ r.2.get r.1 = .ok d ∧
      (arity d ≤ maxArity g.model → g.Tame → r.2.Tame) := by
  cases unchanged with
  | true => exact ⟨_, rfl, .refl g, hkeep rfl, fun _ h => h⟩
  | false =>
    exact ⟨_, rfl, extends_add g d, get_add g d, fun harity h => h.add hcomposite harity⟩

end Graph

/-- Two graphs have grown side by side. -/
structure Grown (g g' g₁ g₁' : Graph) : Prop where
  /-- The first one has grown. -/
  left : g.Extends g₁
  /-- The second one has grown. -/
  right : g'.Extends g₁'
  /-- The types made are no worse than before. -/
  tame : g'.Tame → g₁'.Tame

variable {g g' g₁ g₁' g₂ g₂' : Graph} {i j : TypeId}

/-- Graphs that stay as they are have grown. -/
theorem Grown.refl (g g' : Graph) : Grown g g' g g' := ⟨.refl g, .refl g', fun h => h⟩

/-- Growth can be put together from steps. -/
theorem Grown.trans (h : Grown g g' g₁ g₁') (h' : Grown g₁ g₁' g₂ g₂') : Grown g g' g₂ g₂' :=
  ⟨h.left.trans h'.left, h.right.trans h'.right, fun htame => h'.tame (h.tame htame)⟩

/-- Types that are alike stay alike while their graphs grow. -/
theorem Alike.grown (h : Alike g g' i j) (hgrown : Grown g g' g₁ g₁') : Alike g₁ g₁' i j :=
  h.grow hgrown.left hgrown.right

/-- The graphs have grown from `g` and `g'`, and in them the results are alike. -/
def AlikeResults (g g' : Graph) (r r' : TypeId × Graph) : Prop :=
  Grown g g' r.2 r'.2 ∧ Alike r.2 r'.2 r.1 r'.1

/-- What is put together from types that are alike is alike, whether or not one side keeps the type
that it had. -/
theorem keepOrAdd_follows {unchanged unchanged' : Bool} {d d' e e' : Descriptor}
    (hgrown : Grown g g' g₁ g₁') (hi : g₁.get i = .ok e) (hj : g₁'.get j = .ok e')
    (hkeep : unchanged = true → d = e) (hkeep' : unchanged' = true → d' = e')
    (hmatch : d.Matches (Alike g₁ g₁') d') (hcomposite : d.isComposite = true)
    (hadmits : g₁.Admits d) (hadmits' : g₁'.Admits d') (harity : arity d' = arity e') :
    Follows (AlikeResults g g') ((keepOrAdd i unchanged d).run g₁)
      ((keepOrAdd j unchanged' d').run g₁') := by
  have hcomposite' : d'.isComposite = true := hmatch.isComposite_eq ▸ hcomposite
  obtain ⟨r, hr, hext, hget, -⟩ := Graph.keepOrAdd_run (fun h => hkeep h ▸ hi) hcomposite
  obtain ⟨r', hr', hext', hget', htame⟩ := Graph.keepOrAdd_run (fun h => hkeep' h ▸ hj) hcomposite'
  rw [hr, hr']
  have hgrown' : Grown g₁ g₁' r.2 r'.2 :=
    ⟨hext, hext', fun h => htame (harity ▸ h.arity_le hj) h⟩
  have hparts : d.Matches (Alike r.2 r'.2) d' := hmatch.mono fun _ _ h => h.grown hgrown'
  exact .pure ⟨hgrown.trans hgrown',
    .of_get hget hget' hparts (hadmits.extends hext) (hadmits'.extends hext')⟩

/-! ### Bindings -/

/-- The same parameters are bound to types that are alike. -/
def BindingsAlike (g g' : Graph) (bindings bindings' : Bindings) : Prop :=
  List.Forall₂ (fun b b' => b.1 = b'.1 ∧ Alike g g' b.2 b'.2) bindings bindings'

variable {bindings bindings' : Bindings}

/-- Bindings that are alike stay alike while their graphs grow. -/
theorem BindingsAlike.grown (h : BindingsAlike g g' bindings bindings')
    (hgrown : Grown g g' g₁ g₁') : BindingsAlike g₁ g₁' bindings bindings' :=
  h.imp fun _ _ hb => ⟨hb.1, hb.2.grown hgrown⟩

/-- A parameter stands for types that are alike. -/
theorem BindingsAlike.lookup (h : BindingsAlike g g' bindings bindings') (name : String)
    (hij : Alike g g' i j) :
    Alike g g' ((bindings.lookup name).getD i) ((bindings'.lookup name).getD j) := by
  induction h with
  | nil => exact hij
  | @cons b b' bindings bindings' hb _ ih =>
    obtain ⟨parameter, argument⟩ := b
    obtain ⟨parameter', argument'⟩ := b'
    obtain ⟨rfl, hargument⟩ := hb
    rw [List.lookup_cons, List.lookup_cons]
    cases name == parameter with
    | true => exact hargument
    | false => exact ih

/-! ### Replacing -/

/-- A type in which parameters have been replaced has an end. -/
theorem substituteWithin_acc {depth : Nat} {above : List TypeId} (h : Alike g g' i j)
    (hext : g.Extends g₁) :
    Outcome (fun r => g.Extends r.2 ∧ Acc g.Part i) (fun _ => True)
      ((substituteWithin bindings depth above i).run g₁) := by
  induction depth generalizing g₁ above i j with
  | zero => trivial
  | succ depth ih =>
    obtain ⟨d, d', hd, hd', hmatch⟩ := h.exists_get
    have hend := Graph.acc_of_parts hd
    have hpart (p q : TypeId) (hpq : Alike g g' p q) (g₂ : Graph) (hext : g.Extends g₂) :
        Outcome (fun r => g.Extends r.2 ∧ Acc g.Part p) (fun _ => True)
          ((substituteWithin bindings depth (i :: above) p).run g₂) := ih hpq hext
    have hkeep (unchanged : Bool) (e : Descriptor) (hacc : Acc g.Part i) (g₂ : Graph)
        (hext : g.Extends g₂) : Outcome (fun r => g.Extends r.2 ∧ Acc g.Part i) (fun _ => True)
          ((keepOrAdd i unchanged e).run g₂) := by
      cases unchanged with
      | true => exact ⟨hext, hacc⟩
      | false => exact ⟨hext.trans (g₂.extends_add e), hacc⟩
    rw [substituteWithin]
    by_cases hcontains : above.contains i = true
    · rw [if_pos hcontains]
      trivial
    rw [if_neg hcontains]
    simp only [StateT.run_bind, StateT.run_get, pure_bind]
    rw [hext.get hd]
    change Outcome _ _ (StateT.run _ g₁)
    cases hmatch with
    | nullable hinner =>
      simp only [StateT.run_bind]
      refine (hpart _ _ hinner g₁ hext).bind fun r hr => ?_
      exact hkeep _ _ (hend (by simpa [Descriptor.parts] using hr.2)) _ hr.1
    | array helement =>
      simp only [StateT.run_bind]
      refine (hpart _ _ helement g₁ hext).bind fun r hr => ?_
      exact hkeep _ _ (hend (by simpa [Descriptor.parts] using hr.2)) _ hr.1
    | dictionary hkey hvalue =>
      simp only [StateT.run_bind]
      refine (hpart _ _ hkey g₁ hext).bind fun r hr => ?_
      refine (hpart _ _ hvalue _ hr.1).bind fun r' hr' => ?_
      exact hkeep _ _ (hend (by simpa [Descriptor.parts] using ⟨hr.2, hr'.2⟩)) _ hr'.1
    | @instantiation definition _ arguments _ _ harguments =>
      simp only [StateT.run_bind]
      obtain ⟨c, -, hc, -⟩ := h.exists_record hd hd'
      have hdefinition : Acc g.Part definition :=
        Graph.acc_of_parts (Graph.get_model hc) (by simp [Descriptor.parts])
      refine (Outcome.mapM_calls (fun p _ _ _ => Acc g.Part p) g.Extends
        (fun p hp g₂ hext => ?_) hext).bind fun r hr => ?_
      · obtain ⟨q, -, hpq⟩ := exists_mem_of_forall₂ harguments hp
        exact (hpart p q hpq g₂ hext).weaken fun r hr => ⟨hr.2, hr.1⟩
      · have hparts := hr.1.forall fun p _ _ _ hp => hp
        exact hkeep _ _ (hend (List.forall_mem_cons.mpr ⟨hdefinition, hparts⟩)) _ hr.2
    | _ => exact ⟨hext, hend (by simp [Descriptor.parts])⟩

/-- Types that are alike become types that are alike. The types are looked up in the graphs `g` and
`g'` from which the present ones have grown. -/
theorem substituteWithin_follows {depth depth' : Nat} {above above' : List TypeId}
    (h : Alike g g' i j) (hroom : Room g'.Part (List.range g'.size) depth' above' j)
    (hb : BindingsAlike g g' bindings bindings') (hgrown : Grown g g' g₁ g₁') :
    Follows (AlikeResults g₁ g₁') ((substituteWithin bindings depth above i).run g₁)
      ((substituteWithin bindings' depth' above' j).run g₁') := by
  induction depth generalizing depth' above above' i j g₁ g₁' with
  | zero => exact .error _ _
  | succ depth ih =>
    obtain ⟨depth', rfl⟩ := hroom.exists_depth
    obtain ⟨d, d', hd, hd', hmatch⟩ := h.exists_get
    have hpart (p q : TypeId) (hpq : Alike g g' p q) (hq : q ∈ d'.parts) {g₂ g₂' : Graph}
        (hgrown : Grown g g' g₂ g₂') : Follows (AlikeResults g₂ g₂')
          ((substituteWithin bindings depth (i :: above) p).run g₂)
          ((substituteWithin bindings' depth' (j :: above') q).run g₂') :=
      ih hpq (Graph.room_part hroom hd' hq) hgrown
    rw [substituteWithin, substituteWithin, if_neg hroom.contains_eq_false]
    by_cases hcontains : above.contains i = true
    · rw [if_pos hcontains]
      exact .error _ _
    rw [if_neg hcontains]
    simp only [StateT.run_bind, StateT.run_get, pure_bind]
    rw [hgrown.left.get hd, hgrown.right.get hd']
    change Follows _ (StateT.run _ g₁) (StateT.run _ g₁')
    -- One side may find all parts unchanged where the other one does not.
    cases hmatch with
    | parameter name => exact .pure ⟨.refl _ _, (hb.lookup name h).grown hgrown⟩
    | nullable hinner =>
      refine (hpart _ _ hinner List.mem_cons_self hgrown).run_bind fun p g₂ q g₂' hr => ?_
      obtain ⟨hgrown', hpq⟩ := hr
      exact keepOrAdd_follows hgrown' ((hgrown.trans hgrown').left.get hd)
        ((hgrown.trans hgrown').right.get hd') (fun hp => by rw [eq_of_beq hp])
        (fun hq => by rw [eq_of_beq hq]) (.nullable hpq) rfl ⟨by simp, by simp⟩
        ⟨by simp, by simp⟩ rfl
    | array helement =>
      refine (hpart _ _ helement List.mem_cons_self hgrown).run_bind fun p g₂ q g₂' hr => ?_
      obtain ⟨hgrown', hpq⟩ := hr
      exact keepOrAdd_follows hgrown' ((hgrown.trans hgrown').left.get hd)
        ((hgrown.trans hgrown').right.get hd') (fun hp => by rw [eq_of_beq hp])
        (fun hq => by rw [eq_of_beq hq]) (.array hpq) rfl ⟨by simp, by simp⟩
        ⟨by simp, by simp⟩ rfl
    | dictionary hkey hvalue =>
      refine (hpart _ _ hkey (by simp [Descriptor.parts]) hgrown).run_bind fun p g₂ q g₂' hr => ?_
      obtain ⟨hgrown₂, hpq⟩ := hr
      refine (hpart _ _ hvalue (by simp [Descriptor.parts]) (hgrown.trans hgrown₂)).run_bind
        fun v g₃ w g₃' hr => ?_
      obtain ⟨hgrown₃, hvw⟩ := hr
      have hgrown' := hgrown₂.trans hgrown₃
      refine keepOrAdd_follows hgrown' ((hgrown.trans hgrown').left.get hd)
        ((hgrown.trans hgrown').right.get hd') (fun hp => ?_) (fun hq => ?_)
        (.dictionary (hpq.grown hgrown₃) hvw) rfl ⟨by simp, by simp⟩ ⟨by simp, by simp⟩ rfl
      · rw [Bool.and_eq_true, beq_iff_eq, beq_iff_eq] at hp
        rw [hp.1, hp.2]
      · rw [Bool.and_eq_true, beq_iff_eq, beq_iff_eq] at hq
        rw [hq.1, hq.2]
    | @instantiation definition definition' arguments arguments' hdefinition harguments =>
      obtain ⟨c, c', hc, hc', -⟩ := h.exists_record hd hd'
      refine (Follows.mapM_run (Grown g₁ g₁') Alike harguments
        (fun p q hpq hq g₂ g₂' hgrown₂ => ?_) (.refl g₁ g₁')).run_bind fun ps g₂ qs g₂' hr => ?_
      · refine (hpart p q hpq (List.mem_cons_of_mem _ hq) (hgrown.trans hgrown₂)).weaken
          fun r r' hr => ⟨hgrown₂.trans hr.1, hr.2, fun _ _ hab => hab.grown hr.1⟩
      · obtain ⟨hgrown', hpq, hlength, -⟩ := hr
        have hmodel := (hgrown.trans hgrown').left.model
        have hmodel' := (hgrown.trans hgrown').right.model
        refine keepOrAdd_follows hgrown' ((hgrown.trans hgrown').left.get hd)
          ((hgrown.trans hgrown').right.get hd') (fun hp => by rw [eq_of_beq hp])
          (fun hq => by rw [eq_of_beq hq])
          (.instantiation (hdefinition.grown (hgrown.trans hgrown')) hpq) rfl
          ⟨by simp, ?_⟩ ⟨by simp, ?_⟩ hlength
        · rintro _ _ ⟨⟩
          exact ⟨c, hmodel ▸ hc⟩
        · rintro _ _ ⟨⟩
          exact ⟨c', hmodel' ▸ hc'⟩
    | _ => exact .pure ⟨.refl _ _, h.grown hgrown⟩

/-- Replacing parameters in types that are alike gives types that are alike. -/
theorem substitute_follows (h : Alike g g' i j) (hb : BindingsAlike g g' bindings bindings') :
    Follows (AlikeResults g g') ((substitute bindings i).run g)
      ((substitute bindings' j).run g') := by
  intro r hr
  unfold substitute at hr ⊢
  cases hb with
  | nil => exact Follows.pure (show AlikeResults g g' (i, g) (j, g') from ⟨.refl g g', h⟩) r hr
  | @cons b b' bindings bindings' hhead htail =>
    have hend := h.acc ((substituteWithin_acc h (.refl g)).result hr).2
    have hdepth : (List.range g'.size).length < g'.depthBound := by
      rw [List.length_range]
      exact g'.size_lt_depthBound
    exact substituteWithin_follows h (.start hend hdepth) (.cons hhead htail) (.refl g g') r hr

end Declgen.Walk
