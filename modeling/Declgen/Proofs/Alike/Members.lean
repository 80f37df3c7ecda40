import Declgen.Proofs.Alike.Replacement
import Declgen.Walk.Members

/-!
# Members of records that say the same

Records that are alike have the same members, of types that are alike. The bases of a record are
types of the model, so a chain of them either ends or runs in a circle, and the records of the
other model behave in the same way even if their circle is longer.
-/

namespace Declgen.Walk

open Model

namespace Graph

variable {g g₁ : Graph} {id : TypeId} {d : Descriptor}

/-- The record that a type is or applies. -/
def record? (g : Graph) (id : TypeId) : Option ComplexType :=
  match g.get id with
  | .ok (.complex c) => some c
  | .ok (.instantiation definition _) =>
    match g.model.get definition with
    | .ok (.complex c) => some c
    | _ => none
  | _ => none

/-- One type is what the record that another one is or applies extends. -/
def Base (g : Graph) (base id : TypeId) : Prop := ∃ c, g.record? id = some c ∧ c.base = some base

/-- A record is itself the record that is meant. -/
theorem record?_complex {c : ComplexType} (hd : g.get id = .ok (.complex c)) :
    g.record? id = some c := by
  rw [record?, hd]

/-- An instantiation means the record that it applies. -/
theorem record?_instantiation {definition : TypeId} {arguments : List TypeId} {c : ComplexType}
    (hd : g.get id = .ok (.instantiation definition arguments))
    (hc : g.model.get definition = .ok (.complex c)) : g.record? id = some c := by
  simp only [record?, hd, hc]

/-- The record that is meant does not change while the graph grows. -/
theorem Extends.record?_eq (h : g.Extends g₁) (hd : g.get id = .ok d) :
    g₁.record? id = g.record? id := by
  rw [record?, record?, h.get hd, hd, h.model]

end Graph

variable {g g' g₁ g₁' : Graph} {i j : TypeId} {bindings bindings' : Bindings}

/-- If one of two types that are alike is or applies a record, so does the other one. -/
theorem Alike.exists_record? (h : Alike g g' i j) {c' : ComplexType}
    (hc' : g'.record? j = some c') : ∃ c, g.record? i = some c := by
  obtain ⟨d, d', hd, hd', hmatch⟩ := h.exists_get
  cases hmatch with
  | complex hmatch => exact ⟨_, Graph.record?_complex hd⟩
  | instantiation hdefinition harguments =>
    obtain ⟨e, -, he, -⟩ := h.exists_record hd hd'
    exact ⟨e, Graph.record?_instantiation hd he⟩
  | _ =>
    rw [Graph.record?, hd'] at hc'
    cases hc'

/-- Records of types that are alike match, and the second one extends a type of its model if any. -/
theorem Alike.record? (h : Alike g g' i j) {c c' : ComplexType} (hc : g.record? i = some c)
    (hc' : g'.record? j = some c') :
    c.Matches (Alike g g') c' ∧ ∀ base : Nat, c'.base = some base → base < g'.model.size := by
  obtain ⟨d, d', hd, hd', hmatch⟩ := h.exists_get
  cases hmatch with
  | complex hmatch =>
    rw [Graph.record?_complex hd] at hc
    rw [Graph.record?_complex hd'] at hc'
    cases hc
    cases hc'
    exact ⟨hmatch, fun base => (h.admits hd').base c' base rfl⟩
  | instantiation hdefinition harguments =>
    obtain ⟨e, e', he, he', hmatch⟩ := h.exists_record hd hd'
    rw [Graph.record?_instantiation hd he] at hc
    rw [Graph.record?_instantiation hd' he'] at hc'
    cases hc
    cases hc'
    exact ⟨hmatch, fun base => (hdefinition.admits (Graph.get_model he')).base c' base rfl⟩
  | _ =>
    rw [Graph.record?, hd] at hc
    cases hc

/-- Where one chain of bases ends, so does that of a type that is alike. -/
theorem Alike.acc_base (h : Alike g g' i j) (hi : Acc g.Base i) : Acc g'.Base j := by
  induction hi generalizing j with
  | intro i _ ih =>
    refine .intro j fun base' hbase' => ?_
    obtain ⟨c', hc', hbase'⟩ := hbase'
    obtain ⟨c, hc⟩ := h.exists_record? hc'
    have hrel := (h.record? hc hc').1.base
    rw [hbase'] at hrel
    cases hbase : c.base with
    | none =>
      rw [hbase] at hrel
      cases hrel
    | some base =>
      rw [hbase] at hrel
      obtain ⟨hrel⟩ := hrel
      exact ih base ⟨c, hc, hbase⟩ hrel

/-! ### Bases -/

/-- Binding parameters to arguments that are alike gives bindings that are alike. -/
theorem bindArguments_follows {outer outer' bound bound' : Bindings} {parameters : List String}
    {arguments arguments' : List TypeId} (hargs : List.Forall₂ (Alike g g') arguments arguments')
    (houter : BindingsAlike g g' outer outer') (hbound : BindingsAlike g g' bound bound') :
    Follows (fun r r' => Grown g g' r.2 r'.2 ∧ BindingsAlike r.2 r'.2 r.1 r'.1)
      ((bindArguments outer parameters arguments bound).run g)
      ((bindArguments outer' parameters arguments' bound').run g') := by
  induction parameters generalizing arguments arguments' bound bound' g g' with
  | nil => exact .pure ⟨.refl g g', hbound⟩
  | cons parameter parameters ih =>
    cases hargs with
    | nil => exact .pure ⟨.refl g g', hbound⟩
    | cons hhead htail =>
      rw [bindArguments, bindArguments]
      refine (substitute_follows hhead houter).run_bind fun p g₁ q g₁' hpq => ?_
      obtain ⟨hgrown, hpq⟩ := hpq
      have hbound' : BindingsAlike g₁ g₁' ((parameter, p) :: bound) ((parameter, q) :: bound') :=
        .cons ⟨rfl, hpq⟩ (hbound.grown hgrown)
      refine (ih (htail.imp fun _ _ h => h.grown hgrown) (houter.grown hgrown) hbound').weaken
        fun r r' hr => ?_
      exact ⟨hgrown.trans hr.1, hr.2⟩

/-- Bases that are alike are records that match, with bindings that are alike. -/
theorem baseRecord_follows (h : Alike g g' i j) (hb : BindingsAlike g g' bindings bindings') :
    Follows (fun r r' => Grown g g' r.2 r'.2 ∧ g.record? i = some r.1.1 ∧
        g'.record? j = some r'.1.1 ∧ BindingsAlike r.2 r'.2 r.1.2 r'.1.2)
      ((baseRecord bindings i).run g) ((baseRecord bindings' j).run g') := by
  obtain ⟨d, d', hd, hd', hmatch⟩ := h.exists_get
  rw [baseRecord, baseRecord]
  simp only [StateT.run_bind, StateT.run_get, pure_bind]
  rw [hd, hd']
  change Follows _ (StateT.run _ g) (StateT.run _ g')
  cases hmatch with
  | complex hmatch =>
    exact .pure ⟨.refl g g', Graph.record?_complex hd, Graph.record?_complex hd', hb⟩
  | instantiation hdefinition harguments =>
    refine (h.definition_follows hd hd' harguments.length_eq).lift_bind fun c c' hc => ?_
    obtain ⟨hc, hc', hmatch⟩ := hc
    rw [hmatch.typeParams]
    refine (bindArguments_follows harguments hb .nil).run_bind fun bound g₁ bound' g₁' hr => ?_
    exact .pure ⟨hr.1, Graph.record?_instantiation hd hc, Graph.record?_instantiation hd' hc', hr.2⟩
  | _ => exact .error _ _

/-! ### Members -/

/-- Members that match take the place of each other's counterparts. -/
theorem setMember_matches {same : TypeId → TypeId → Prop} {m m' : Member} {ms ms' : List Member}
    (hm : m.Matches same m') (h : List.Forall₂ (Member.Matches same) ms ms') :
    List.Forall₂ (Member.Matches same) (setMember m ms) (setMember m' ms') := by
  induction h with
  | nil => exact .cons hm .nil
  | @cons other other' ms ms' head tail ih =>
    rw [setMember, setMember, head.name, hm.name]
    split
    · exact .cons hm tail
    · exact .cons head ih

/-- Adding own members that match to inherited ones that match. -/
theorem addOwnMembers_follows {owner owner' : TypeId} {seen : List String}
    {own own' inherited inherited' : List Member}
    (hown : List.Forall₂ (Member.Matches (Alike g g')) own own')
    (hinherited : List.Forall₂ (Member.Matches (Alike g g')) inherited inherited')
    (hb : BindingsAlike g g' bindings bindings') :
    Follows (fun r r' => Grown g g' r.2 r'.2 ∧
        List.Forall₂ (Member.Matches (Alike r.2 r'.2)) r.1 r'.1)
      ((addOwnMembers owner bindings seen own inherited).run g)
      ((addOwnMembers owner' bindings' seen own' inherited').run g') := by
  induction own generalizing own' seen inherited inherited' g g' with
  | nil =>
    cases hown
    exact .pure ⟨.refl g g', hinherited⟩
  | cons m own ih =>
    obtain _ | ⟨hm, hown⟩ := hown
    rename_i m' own'
    rw [addOwnMembers, addOwnMembers, hm.name]
    by_cases hseen : seen.contains m'.name = true
    · rw [if_pos hseen]
      exact .error _ _
    rw [if_neg hseen, if_neg hseen]
    refine (substitute_follows hm.type hb).run_bind fun p g₁ q g₁' hpq => ?_
    obtain ⟨hgrown, hpq⟩ := hpq
    have hmono {ms ms' : List Member} (h : List.Forall₂ (Member.Matches (Alike g g')) ms ms') :
        List.Forall₂ (Member.Matches (Alike g₁ g₁')) ms ms' :=
      h.imp fun _ _ hm => hm.mono fun _ _ h => h.grown hgrown
    have hm' : Member.Matches (Alike g₁ g₁') ⟨m'.name, p, m.optional, m.nullable, m.doc⟩
        { m' with type := q } :=
      ⟨rfl, hpq, hm.optional, hm.nullable, hm.doc⟩
    refine (ih (hmono hown) (setMember_matches hm' (hmono hinherited)) (hb.grown hgrown)).weaken
      fun r r' hr => ?_
    exact ⟨hgrown.trans hr.1, hr.2⟩

/-- A record whose members can be gathered has a chain of bases with an end. -/
theorem membersWithin_acc {depth : Nat} {below : List TypeId} (h : Alike g g' i j)
    (hb : BindingsAlike g₁ g₁' bindings bindings') (hgrown : Grown g g' g₁ g₁') :
    Outcome (fun _ => Acc g.Base i) (fun _ => True)
      ((membersWithin depth below bindings i).run g₁) := by
  induction depth generalizing i j g₁ g₁' below bindings bindings' with
  | zero => trivial
  | succ depth ih =>
    rw [membersWithin]
    by_cases hcontains : below.contains i = true
    · rw [if_pos hcontains]
      trivial
    rw [if_neg hcontains, StateT.run_bind]
    cases hrun : (baseRecord bindings i).run g₁ with
    | error e => trivial
    | ok r =>
      -- The second graph only serves to know that the bases of the first one are there.
      obtain ⟨r', -, hgrown', hc, hc', hb'⟩ := baseRecord_follows (h.grown hgrown) hb r hrun
      obtain ⟨d, d', hd, hd', -⟩ := h.exists_get
      rw [hgrown.left.record?_eq hd] at hc
      rw [hgrown.right.record?_eq hd'] at hc'
      obtain ⟨hmatch, -⟩ := h.record? hc hc'
      have hend (hbase : ∀ base, r.1.1.base = some base → Acc g.Base base) : Acc g.Base i := by
        refine .intro i fun base hbase' => ?_
        obtain ⟨c, hc₂, hbase'⟩ := hbase'
        cases hc.symm.trans hc₂
        exact hbase base hbase'
      rw [ok_bind]
      have hrel := hmatch.base
      generalize r'.1.1.base = base' at hrel
      cases hbase : r.1.1.base with
      | none => exact (Outcome.any _).weaken fun _ _ => hend (by simp [hbase])
      | some base =>
        rw [hbase] at hrel
        cases hrel with
        | some hrel =>
          simp only [hbase, StateT.run_bind]
          refine (ih hrel hb' (hgrown.trans hgrown')).bind fun _ hbaseEnd => ?_
          refine (Outcome.any _).weaken fun _ _ => hend fun other hother => ?_
          cases hbase.symm.trans hother
          exact hbaseEnd

/-- The members of records that are alike match. The records are looked up in the graphs `g` and
`g'` from which the present ones have grown. -/
theorem membersWithin_follows {depth depth' : Nat} {below below' : List TypeId} {start : TypeId}
    (h : Alike g g' i j)
    (hroom : Room g'.Base (start :: List.range g'.model.size) depth' below' j)
    (hj : j ∈ start :: List.range g'.model.size)
    (hb : BindingsAlike g₁ g₁' bindings bindings') (hgrown : Grown g g' g₁ g₁') :
    Follows (fun r r' => Grown g₁ g₁' r.2 r'.2 ∧
        List.Forall₂ (Member.Matches (Alike r.2 r'.2)) r.1 r'.1)
      ((membersWithin depth below bindings i).run g₁)
      ((membersWithin depth' below' bindings' j).run g₁') := by
  induction depth generalizing depth' i j g₁ g₁' below below' bindings bindings' with
  | zero => exact .error _ _
  | succ depth ih =>
    obtain ⟨depth', rfl⟩ := hroom.exists_depth
    rw [membersWithin, membersWithin, if_neg hroom.contains_eq_false]
    by_cases hcontains : below.contains i = true
    · rw [if_pos hcontains]
      exact .error _ _
    rw [if_neg hcontains]
    refine (baseRecord_follows (h.grown hgrown) hb).run_bind fun r g₂ r' g₂' hr => ?_
    obtain ⟨c, bindings₂⟩ := r
    obtain ⟨c', bindings₂'⟩ := r'
    obtain ⟨hgrown₂, hc, hc', hb₂⟩ := hr
    obtain ⟨d, d', hd, hd', -⟩ := h.exists_get
    rw [hgrown.left.record?_eq hd] at hc
    rw [hgrown.right.record?_eq hd'] at hc'
    obtain ⟨hmatch, hmodel⟩ := h.record? hc hc'
    -- What is left to do after the inherited members have been gathered.
    have hrest {g₃ g₃' : Graph} (hgrown₃ : Grown g₂ g₂' g₃ g₃') {inherited inherited' : List Member}
        (hinherited : List.Forall₂ (Member.Matches (Alike g₃ g₃')) inherited inherited') :
        Follows (fun r r' => Grown g₁ g₁' r.2 r'.2 ∧
            List.Forall₂ (Member.Matches (Alike r.2 r'.2)) r.1 r'.1)
          ((addOwnMembers i bindings₂ [] c.members inherited).run g₃)
          ((addOwnMembers j bindings₂' [] c'.members inherited').run g₃') := by
      have hgrown₁₃ := hgrown₂.trans hgrown₃
      have hown := hmatch.members.imp fun _ _ hm =>
        hm.mono fun _ _ h => h.grown (hgrown.trans hgrown₁₃)
      refine (addOwnMembers_follows hown hinherited (hb₂.grown hgrown₃)).weaken fun r r' hr => ?_
      exact ⟨hgrown₁₃.trans hr.1, hr.2⟩
    have hrel := hmatch.base
    dsimp only at hrel ⊢
    cases hbase : c.base with
    | none =>
      cases hbase' : c'.base with
      | none => exact hrest (.refl g₂ g₂') .nil
      | some base' =>
        rw [hbase, hbase'] at hrel
        cases hrel
    | some base =>
      cases hbase' : c'.base with
      | none =>
        rw [hbase, hbase'] at hrel
        cases hrel
      | some base' =>
        rw [hbase, hbase'] at hrel
        obtain ⟨hrel⟩ := hrel
        refine (ih hrel (hroom.descend hj ⟨c', hc', hbase'⟩) ?_ hb₂ (hgrown.trans hgrown₂)).run_bind
          fun inherited g₃ inherited' g₃' hr => hrest hr.1 hr.2
        exact List.mem_cons_of_mem _ (List.mem_range.mpr (hmodel base' hbase'))

/-- Records that are alike have members that match. -/
theorem membersOf_follows (h : Alike g g' i j) :
    Follows (fun r r' => Grown g g' r.2 r'.2 ∧
        List.Forall₂ (Member.Matches (Alike r.2 r'.2)) r.1 r'.1)
      ((membersOf i).run g) ((membersOf j).run g') := by
  intro r hr
  have hrun : (membersWithin (g.model.size + 2) [] [] i).run g = .ok r := hr
  have hnone : BindingsAlike g g' [] [] := .nil
  have hend : Acc g.Base i := (membersWithin_acc h hnone (.refl g g')).result hrun
  have hroom : Room g'.Base (j :: List.range g'.model.size) (g'.model.size + 2) [] j :=
    .start (h.acc_base hend) (by simp)
  exact membersWithin_follows h hroom List.mem_cons_self hnone (.refl g g') r hrun

end Declgen.Walk
