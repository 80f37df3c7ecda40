import Declgen.Proofs.Alike.Progress
import Declgen.Walk.Build

/-!
# Converting types that say the same

Types that are alike have the same type expression, and on the way to it the same units are met.
No hook may take part, since it sees the numbers of types.
-/

namespace Declgen.Walk

open Model TypeScript Declgen.Units

variable {g g' : Graph} {i j : TypeId} {p p' : Progress} {old first : Nat} {options : Options}
  {hook : Hook} {scope : List String}

/-- A type that has a unit has an end. -/
theorem unitFor_acc : Outcome (fun _ => Acc g.Part i) (fun _ => True) ((unitFor g i).run p) := by
  have hidentity : Outcome (fun _ => Acc g.Part i) (fun _ => True) (identity g i) :=
    identityWithin_acc
  exact hidentity.lift_bind fun _ hend => (Outcome.any _).weaken fun _ _ => hend

/-- A type to which a reference has been made has an end. -/
theorem referenceTo_acc :
    Outcome (fun _ => Acc g.Part i) (fun _ => True) ((referenceTo g i).run p) :=
  unitFor_acc.run_bind fun _ _ hend => hend

/-- A type that has been converted has an end. -/
theorem convertWithin_acc (hhook : ∀ d, hook d = none) {depth : Nat} {within : List TypeId}
    (h : Alike g g' i j) : Outcome (fun _ => Acc g.Part i) (fun _ => True)
      ((convertWithin ⟨g, options, hook, scope⟩ depth within i).run p) := by
  induction depth generalizing i j p within with
  | zero => trivial
  | succ depth ih =>
    obtain ⟨d, d', hd, hd', hmatch⟩ := h.exists_get
    have hend := Graph.acc_of_parts hd
    rw [convertWithin, hd, lift_ok_bind]
    simp only [hhook]
    by_cases hcontains : within.contains i = true
    · rw [if_pos hcontains]
      trivial
    rw [if_neg hcontains]
    cases hmatch with
    | nullable hinner =>
      refine (ih hinner).run_bind fun _ _ hacc => ?_
      exact hend (by simpa [Descriptor.parts] using hacc)
    | array helement =>
      refine (ih helement).run_bind fun _ _ hacc => ?_
      exact hend (by simpa [Descriptor.parts] using hacc)
    | @dictionary key _ value _ hkey hvalue =>
      obtain ⟨e, -, he, -⟩ := hkey.exists_get
      dsimp only
      rw [he, lift_ok_bind]
      refine (ih hvalue).run_bind fun value' p₁ hacc => ?_
      -- Whatever is accepted as a key has no parts.
      have hleaf (hparts : e.parts = []) : Acc g.Part i := by
        have hkeyEnd : Acc g.Part key := Graph.acc_of_parts he (by simp [hparts])
        exact hend (by simpa [Descriptor.parts] using ⟨hkeyEnd, hacc⟩)
      cases e with
      | primitive kind => exact (Outcome.any _).weaken fun _ _ => hleaf rfl
      | enum type => exact (Outcome.any _).weaken fun _ _ => hleaf rfl
      | _ => trivial
    | @instantiation definition _ arguments _ hdefinition harguments =>
      obtain ⟨c, -, hc, -⟩ := h.exists_record hd hd'
      have hdefinitionEnd : Acc g.Part definition :=
        Graph.acc_of_parts (Graph.get_model hc) (by simp [Descriptor.parts])
      have hgeneric (p₁ : Progress) : Outcome (fun _ => Acc g.Part i) (fun _ => True)
          (StateT.run (do
            let unit ← unitFor g definition
            return Expr.genericReference unit.1 unit.2 (← arguments.mapM
              (convertWithin ⟨g, options, hook, scope⟩ depth (i :: within)))) p₁) := by
        refine (Outcome.any _).run_bind fun unit p₂ _ => ?_
        refine (Outcome.mapM_calls (fun a _ _ _ => Acc g.Part a) (fun _ => True)
          (fun a ha p₃ _ => ?_) trivial).run_bind fun _ _ hcalls => ?_
        · obtain ⟨b, -, hab⟩ := exists_mem_of_forall₂ harguments ha
          exact (ih hab).weaken fun _ hacc => ⟨hacc, trivial⟩
        · have hparts := hcalls.1.forall fun a _ _ _ ha => ha
          exact hend (List.forall_mem_cons.mpr ⟨hdefinitionEnd, hparts⟩)
      refine (Outcome.any _).lift_bind fun _ _ => ?_
      split
      · exact hgeneric p
      · refine (Outcome.any _).lift_bind fun preserved _ => ?_
        cases preserved with
        | false => exact referenceTo_acc
        | true => exact hgeneric p
    | _ => exact (Outcome.any _).weaken fun _ _ => hend (by simp [Descriptor.parts])

/-- A reference to a unit is the same for types that are alike. -/
theorem referenceTo_follows (h : Alike g g' i j)
    (hp : InStep old first g g' p p') : Follows (SameResults old first g g')
      ((referenceTo g i).run p) ((referenceTo g' j).run p') := by
  refine (unitFor_follows h hp).run_bind fun r p₁ r' p₁' hr => ?_
  obtain ⟨rfl, hp₁⟩ := hr
  exact .pure ⟨rfl, hp₁⟩

/-- Types that are alike have the same expression. -/
theorem convertWithin_follows (hhook : ∀ d, hook d = none) {depth depth' : Nat}
    {within within' : List TypeId} (h : Alike g g' i j)
    (hroom : Room g'.Part (List.range g'.size) depth' within' j)
    (hp : InStep old first g g' p p') : Follows (SameResults old first g g')
      ((convertWithin ⟨g, options, hook, scope⟩ depth within i).run p)
      ((convertWithin ⟨g', options, hook, scope⟩ depth' within' j).run p') := by
  induction depth generalizing depth' i j p p' within within' with
  | zero => exact .error _ _
  | succ depth ih =>
    obtain ⟨depth', rfl⟩ := hroom.exists_depth
    obtain ⟨d, d', hd, hd', hmatch⟩ := h.exists_get
    have hpart (a b : TypeId) (hab : Alike g g' a b) (hb : b ∈ d'.parts) {p p' : Progress}
        (hp : InStep old first g g' p p') :
        Follows (SameResults old first g g')
          ((convertWithin ⟨g, options, hook, scope⟩ depth (i :: within) a).run p)
          ((convertWithin ⟨g', options, hook, scope⟩ depth' (j :: within') b).run p') :=
      ih hab (Graph.room_part hroom hd' hb) hp
    rw [convertWithin, convertWithin, hd, hd', lift_ok_bind, lift_ok_bind]
    simp only [hhook]
    by_cases hcontains : within.contains i = true
    · rw [if_pos hcontains]
      exact .error _ _
    rw [if_neg hcontains, if_neg hroom.contains_eq_false]
    cases hmatch with
    | primitive kind => exact .pure ⟨rfl, hp⟩
    | enum e => exact referenceTo_follows h hp
    | parameter name =>
      dsimp only
      split
      · exact .error _ _
      · exact .pure ⟨rfl, hp⟩
    | @complex c c' hmatch =>
      simp only [hmatch.sameHead.isGeneric_eq]
      by_cases hc' : c'.isGeneric = true
      · simp only [if_pos hc']
        exact .error _ _
      · simp only [if_neg hc']
        exact referenceTo_follows h hp
    | nullable hinner =>
      refine (hpart _ _ hinner List.mem_cons_self hp).run_bind fun e p₁ e' p₁' hr => ?_
      obtain ⟨rfl, hp₁⟩ := hr
      exact .pure ⟨rfl, hp₁⟩
    | array helement =>
      refine (hpart _ _ helement List.mem_cons_self hp).run_bind fun e p₁ e' p₁' hr => ?_
      obtain ⟨rfl, hp₁⟩ := hr
      exact .pure ⟨rfl, hp₁⟩
    | @dictionary key key' value value' hkey hvalue =>
      obtain ⟨k, k', hk, hk', hkeys⟩ := hkey.exists_get
      dsimp only
      rw [hk, hk', lift_ok_bind, lift_ok_bind]
      refine (hpart _ _ hvalue (by simp [Descriptor.parts]) hp).run_bind fun e p₁ e' p₁' hr => ?_
      obtain ⟨rfl, hp₁⟩ := hr
      cases hkeys with
      | primitive kind =>
        cases kind with
        | string | date | integer | float => exact .pure ⟨rfl, hp₁⟩
        | boolean | binary => exact .error _ _
      | enum type =>
        refine (hpart _ _ hkey (by simp [Descriptor.parts]) hp₁).run_bind fun e p₁ e' p₁' hr => ?_
        obtain ⟨rfl, hp₂⟩ := hr
        exact .pure ⟨rfl, hp₂⟩
      | _ => exact .error _ _
    | @instantiation definition definition' arguments arguments' hdefinition harguments =>
      have hgeneric : Follows (SameResults old first g g')
          (StateT.run (do
            let unit ← unitFor g definition
            return Expr.genericReference unit.1 unit.2 (← arguments.mapM
              (convertWithin ⟨g, options, hook, scope⟩ depth (i :: within)))) p)
          (StateT.run (do
            let unit ← unitFor g' definition'
            return Expr.genericReference unit.1 unit.2 (← arguments'.mapM
              (convertWithin ⟨g', options, hook, scope⟩ depth' (j :: within')))) p') := by
        refine (unitFor_follows hdefinition hp).run_bind fun u p₁ u' p₁' hr => ?_
        obtain ⟨rfl, hp₁⟩ := hr
        refine (Follows.mapM_run (InStep old first g g') (fun _ _ => Eq)
          harguments (fun a b hab hb p₂ p₂' hp₂ => ?_) hp₁).run_bind fun es p₂ es' p₂' hr => ?_
        · exact (hpart a b hab (List.mem_cons_of_mem _ hb) hp₂).weaken
            fun r r' hr => ⟨hr.2, hr.1, fun _ _ h => h⟩
        · obtain ⟨hp₂, hes, -⟩ := hr
          rw [List.forall₂_eq_eq_eq] at hes
          exact .pure ⟨congrArg (Expr.genericReference u.1 u.2) hes, hp₂⟩
      refine (h.definition_follows hd hd' harguments.length_eq).lift_bind fun c c' _ => ?_
      split
      · exact hgeneric
      · refine (mentionsParameter_follows h hroom.ends).lift_bind fun preserved _ heq => ?_
        subst heq
        cases preserved with
        | false => exact referenceTo_follows h hp
        | true => exact hgeneric

/-- Types that are alike have the same expression. -/
theorem convert_follows (hhook : ∀ d, hook d = none) (h : Alike g g' i j)
    (hp : InStep old first g g' p p') : Follows (SameResults old first g g')
      ((convert ⟨g, options, hook, scope⟩ i).run p)
      ((convert ⟨g', options, hook, scope⟩ j).run p') := by
  intro r hr
  have hend := h.acc ((convertWithin_acc hhook h).result hr)
  exact convertWithin_follows hhook h (.start hend (by simp)) hp r hr

/-! ### Fields -/

/-- Members that match become the same field. -/
theorem convertMember_follows (hhook : ∀ d, hook d = none) {m m' : Member}
    (h : m.Matches (Alike g g') m') (hp : InStep old first g g' p p') :
    Follows (SameResults old first g g')
      ((convertMember ⟨g, options, hook, scope⟩ m).run p)
      ((convertMember ⟨g', options, hook, scope⟩ m').run p') := by
  refine (convert_follows hhook h.type hp).run_bind fun e p₁ e' p₁' hr => ?_
  obtain ⟨rfl, hp₁⟩ := hr
  exact .pure ⟨by rw [h.name, h.nullable, h.optional, h.doc], hp₁⟩

/-- Members that match become the same fields. -/
theorem convertMembers_follows (hhook : ∀ d, hook d = none) {unit : String}
    {taken : List (String × String)} {ms ms' : List Member}
    (h : List.Forall₂ (Member.Matches (Alike g g')) ms ms')
    (hp : InStep old first g g' p p') : Follows (SameResults old first g g')
      ((convertMembers ⟨g, options, hook, scope⟩ unit taken ms).run p)
      ((convertMembers ⟨g', options, hook, scope⟩ unit taken ms').run p') := by
  induction h generalizing taken p p' with
  | nil => exact .pure ⟨rfl, hp⟩
  | @cons m m' ms ms' head _ ih =>
    rw [convertMembers, convertMembers]
    refine (convertMember_follows hhook head hp).run_bind fun f p₁ f' p₁' hr => ?_
    obtain ⟨rfl, hp₁⟩ := hr
    cases taken.lookup f.name with
    | some other => exact .error _ _
    | none =>
      rw [head.name]
      refine (ih hp₁).run_bind fun fs p₂ fs' p₂' hr => ?_
      obtain ⟨rfl, hp₂⟩ := hr
      exact .pure ⟨rfl, hp₂⟩

end Declgen.Walk
