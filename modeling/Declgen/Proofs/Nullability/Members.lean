import Declgen.Proofs.Nullability.Trees
import Declgen.Proofs.Walk.Bases

/-!
# Members up to repeated nullability

Whether the members of a record can be gathered is a matter of its chain of bases alone. So where
two models differ in repeated nullability only, the members of a record can be gathered in both of
them or in none, and their types agree again.
-/

namespace Declgen.Walk

open Model

/-! ### Whether members can be gathered -/

section Gathering

variable {a : Arena} {n n' : Nat} {bindings : List (String × TypeTree)} {t : TypeTree}
  {members members' : List TreeMember}

/-- With a greater bound on the number of bases the same members are gathered. -/
theorem gather_mono (h : gather a n bindings t = some members) (hle : n ≤ n') :
    gather a n' bindings t = some members := by
  induction n generalizing n' bindings t members with
  | zero => cases h
  | succ n ih =>
    obtain ⟨n', rfl⟩ : ∃ k, n' = k + 1 := ⟨n' - 1, by omega⟩
    simp only [gather, Option.bind_eq_bind, Option.bind_eq_some_iff] at h ⊢
    obtain ⟨⟨c, bindings'⟩, hrecord, h⟩ := h
    refine ⟨(c, bindings'), hrecord, ?_⟩
    cases hbase : c.base with
    | none => simpa only [hbase] using h
    | some base =>
      simp only [hbase, Option.bind_eq_some_iff] at h ⊢
      obtain ⟨inherited, hinherited, h⟩ := h
      exact ⟨inherited, ih hinherited (by omega), h⟩

/-- Whatever bound on the number of bases is enough, the same members are gathered. -/
theorem gather_unique (h : gather a n bindings t = some members)
    (h' : gather a n' bindings t = some members') : members = members' :=
  Option.some.inj ((gather_mono h (Nat.le_max_left n n')).symm.trans
    (gather_mono h' (Nat.le_max_right n n')))

end Gathering

section Graphs

variable {g₀ g : Graph} {id : Nat} {depth n : Nat} {below : List TypeId} {bindings : Bindings}
  {start : TypeId} {members : List TreeMember}

/-- A type whose members can be gathered has a chain of bases that ends. -/
theorem Graph.WellFormed.acc_base (hg : g.WellFormed) (hid : id < g.size)
    {bindings : List (String × TypeTree)}
    (h : gather g.model n bindings (g.tree id) = some members) : Acc g.Base id := by
  induction n using Nat.strongRecOn generalizing id bindings members with
  | ind n ih =>
    refine .intro id fun base hbase => ?_
    obtain ⟨c, hc, hbase⟩ := hbase
    obtain ⟨hlt, n', bindings', inherited, hn', hgather, -⟩ := hg.gather_base hid h hc hbase
    exact ih n' hn' hlt hgather

/-- A type that is or applies a record may be a base. -/
theorem exists_baseRecord (hg : g.WellFormed) (hid : id < g.size) (hb : g.Holds bindings)
    {r : ComplexType × List (String × TypeTree)}
    (h : (g.tree id).record? (g.bound bindings) = some r) :
    ∃ r, (baseRecord bindings id).run g = .ok r := by
  suffices hrun : Outcome (fun _ => True) (fun _ => False) ((baseRecord bindings id).run g) from
    hrun.exists_ok
  obtain ⟨d, hd, hfits⟩ := hg.exists_get hid
  rw [hg.tree_eq hd] at h
  unfold baseRecord
  simp only [StateT.run_bind, StateT.run_get, pure_bind]
  rw [hd]
  change Outcome _ _ (StateT.run _ g)
  cases d with
  | complex c => trivial
  | instantiation definition arguments =>
    obtain ⟨c, -, -, hdefinition⟩ := hg.definition hd
    have harguments (i : Nat) (hi : i ∈ arguments) : i < g.size :=
      Nat.lt_trans (hfits.2.1 i hi) hid
    have hnone : g.Holds [] := by simp [Graph.Holds]
    simp only [hdefinition, StateT.run_bind]
    exact (bindArguments_outcome hg hb hnone harguments).bind fun _ _ => trivial
  | _ => cases h

/-- If the members of a type can be gathered, a walk that has come along the types `below` gathers
them. The records are looked up in the graph `g₀` from which the present one has grown. -/
theorem exists_membersWithin (hg₀ : g₀.WellFormed) (hgrow : g₀.Grows g) (hid : id < g₀.size)
    (hmem : id ∈ start :: List.range g₀.model.size)
    (hroom : Room g₀.Base (start :: List.range g₀.model.size) depth below id)
    (hb : g.Holds bindings)
    (h : gather g.model n (g.bound bindings) (g.tree id) = some members) :
    ∃ r, (membersWithin depth below bindings id).run g = .ok r := by
  induction n using Nat.strongRecOn generalizing id depth below bindings g members with
  | ind n ih =>
    obtain ⟨depth, rfl⟩ := hroom.exists_depth
    obtain ⟨n', c, bound, inherited, hn', hrecord, -, hinherited⟩ := gather_eq_some h
    have hlt := hgrow.lt_size hid
    obtain ⟨⟨⟨c₁, bindings₁⟩, g₁⟩, hrun⟩ := exists_baseRecord hgrow.wellFormed hlt hb hrecord
    obtain ⟨hgrow₁, hholds, ⟨i, hfits⟩, hrecord₁⟩ :=
      (baseRecord_outcome hgrow.wellFormed hlt hb).result hrun
    dsimp only at hgrow₁ hholds hfits hrecord₁
    cases hrecord.symm.trans hrecord₁
    rw [← hgrow₁.model] at hfits
    -- The own members can be added whatever has been inherited.
    have hown {inherited : List Member} {g₂ : Graph} (hgrow₂ : g₁.Grows g₂)
        (hheld : g₂.HoldsMembers inherited) :
        ∃ r, (addOwnMembers id bindings₁ [] c.members inherited).run g₂ = .ok r := by
      have hadd : Outcome _ (fun _ => False)
          ((addOwnMembers id bindings₁ [] c.members inherited).run g₂) :=
        addOwnMembers_outcome hgrow₂.wellFormed (hholds.extends hgrow₂.toExtends) hheld
          (hgrow₂.model ▸ hfits.2.1) hfits.2.2 (by simp)
      exact hadd.exists_ok
    rw [membersWithin, if_neg hroom.contains_eq_false, run_bind_eq hrun]
    dsimp only
    cases hbase : c.base with
    | none => exact hown hgrow₁.wellFormed.grows_refl (by simp [Graph.HoldsMembers])
    | some base =>
      have hmodel : base < g₁.model.size := hfits.1 base hbase
      have hgather := hinherited base hbase
      have hgrown := hgrow.trans hgrow₁
      have hmodel₀ : base < g₀.model.size := hgrown.model ▸ hmodel
      rw [← hgrow₁.model, hgrow₁.wellFormed.modelTree_eq hmodel] at hgather
      rw [hgrow.wellFormed.tree_extends hgrow₁.toExtends hlt |>.symm] at hrecord
      rw [hg₀.tree_extends hgrown.toExtends hid] at hrecord
      have hstep : g₀.Base base id := ⟨c, hg₀.record?_tree hid hrecord, hbase⟩
      obtain ⟨r, hr⟩ := ih n' hn' hgrown (Nat.lt_add_right _ hmodel₀)
        (List.mem_cons_of_mem _ (List.mem_range.mpr hmodel₀)) (hroom.descend hmem hstep) hholds
        hgather
      obtain ⟨hgrow₂, hheld, -⟩ := (membersWithin_outcome hgrow₁.wellFormed
        (Nat.lt_add_right _ hmodel) hholds).result hr
      rw [run_bind_eq hr]
      exact hown hgrow₂ hheld

/-- If the members of a type can be gathered, a walk gathers them. -/
theorem exists_membersOf (hg : g.WellFormed) (hid : id < g.size)
    (h : gather g.model n [] (g.tree id) = some members) :
    ∃ r, (membersOf id).run g = .ok r := by
  have hroom : Room g.Base (id :: List.range g.model.size) (g.model.size + 2) [] id :=
    .start (hg.acc_base hid h) (by simp)
  exact exists_membersWithin hg hg.grows_refl hid List.mem_cons_self hroom
    (by simp [Graph.Holds]) h

end Graphs

/-! ### Models that agree -/

/-- Two models agree up to repeated nullability: records with the same number match, and the types
that they refer to agree. -/
def ModelsAgree (inside : Bool) (a a' : Arena) : Prop :=
  ∀ (id : TypeId) (c c' : ComplexType), a.get id = .ok (.complex c) →
    a'.get id = .ok (.complex c') →
    c.Matches (fun i j => (modelTree a i).Agrees inside true (modelTree a' j)) c'

/-- Two members differ at most in repeated nullability. -/
structure TreeMember.Agrees (inside : Bool) (m m' : TreeMember) : Prop where
  /-- The names agree. -/
  name : m.name = m'.name
  /-- The types agree up to repeated nullability. -/
  type : m.type.Agrees inside true m'.type
  /-- Both may be left out, or none. -/
  optional : m.optional = m'.optional
  /-- Both may be null, or none. -/
  nullable : m.nullable = m'.nullable
  /-- The documentation agrees. -/
  doc : m.doc = m'.doc

section Models

variable {inside : Bool} {a a' : Arena} {t u : TypeTree}
  {bindings bindings' : List (String × TypeTree)}

/-- Models agree in both directions. -/
theorem ModelsAgree.symm (h : ModelsAgree inside a a') : ModelsAgree inside a' a :=
  fun id c c' hc hc' => (h id c' c hc' hc).flip.mono fun _ _ htu => htu.symm

/-- A member takes the place of another one in both of two lists that agree, or in none. -/
theorem place_agrees {m m' : TreeMember} {members members' : List TreeMember}
    (hm : m.Agrees inside m') (h : List.Forall₂ (TreeMember.Agrees inside) members members') :
    List.Forall₂ (TreeMember.Agrees inside) (m.place members) (m'.place members') := by
  induction h with
  | nil => exact .cons hm .nil
  | cons head tail ih =>
    rw [TreeMember.place, TreeMember.place, head.name, hm.name]
    split
    · exact .cons hm tail
    · exact .cons head ih

/-- The own members of two records agree, together with those that they inherit. -/
theorem ownMembers_agrees {own own' : List Member} {inherited inherited' : List TreeMember}
    (hown : List.Forall₂ (Member.Matches fun i j =>
      (modelTree a i).Agrees inside true (modelTree a' j)) own own')
    (hb : List.Forall₂ (TypeTree.Agrees.Binding inside) bindings bindings')
    (hinherited : List.Forall₂ (TreeMember.Agrees inside) inherited inherited') :
    List.Forall₂ (TreeMember.Agrees inside) (ownMembers a bindings own inherited)
      (ownMembers a' bindings' own' inherited') := by
  induction hown generalizing inherited inherited' with
  | nil => exact hinherited
  | cons head _ ih =>
    exact ih (place_agrees ⟨head.name, head.type.replace (.inl rfl) hb, head.optional,
      head.nullable, head.doc⟩ hinherited)

/-- Types that agree are or apply records that match, with bindings that agree. -/
theorem record?_agrees (ht : t.Over a) (hu : u.Over a')
    (htu : t.Agrees inside true u)
    (hb : List.Forall₂ (TypeTree.Agrees.Binding inside) bindings bindings') {c : ComplexType}
    {bound : List (String × TypeTree)} (hrecord : t.record? bindings = some (c, bound)) :
    ∃ c' bound', u.record? bindings' = some (c', bound') ∧
      List.Forall₂ (TypeTree.Agrees.Binding inside) bound bound' ∧ ∃ id,
        a.get id = .ok (.complex c) ∧ a'.get id = .ok (.complex c') := by
  cases htu with
  | record id hhead =>
    cases hrecord
    cases ht with
    | record hc =>
      cases hu with
      | record hc' => exact ⟨_, _, rfl, hb, id, hc, hc'⟩
  | @instantiation _ definition c c' arguments arguments' hhead hlength hagree =>
    cases hrecord
    cases ht with
    | instantiation hc =>
      cases hu with
      | instantiation hc' =>
        have hall : List.Forall₂ (TypeTree.Agrees inside inside) arguments arguments' :=
          List.forall₂_iff_zip.mpr ⟨hlength, fun {_ _} => hagree _ _⟩
        have hreplaced : List.Forall₂ (TypeTree.Agrees inside inside)
            (arguments.map (TypeTree.replace bindings))
            (arguments'.map (TypeTree.replace bindings')) :=
          List.rel_map (fun _ _ h => h.replace (.inr rfl) hb) hall
        refine ⟨_, _, rfl, List.rel_reverse ?_, definition, hc, hc'⟩
        rw [hhead.typeParams]
        exact TypeTree.Agrees.binding_zip hreplaced
  | right hright =>
    obtain ⟨inner, rfl⟩ := hright.exists_nullable
    cases hrecord
  | _ => cases hrecord

/-- Where members can be gathered in one of two models that agree, they can be gathered in the other
one, and they agree. -/
theorem gather_agrees (ha : a.WellFormed) (ha' : a'.WellFormed) (h : ModelsAgree inside a a')
    (ht : t.Over a) (hu : u.Over a') (htu : t.Agrees inside true u)
    (hb : List.Forall₂ (TypeTree.Agrees.Binding inside) bindings bindings') {n : Nat}
    {members : List TreeMember} (hgather : gather a n bindings t = some members) :
    ∃ members', gather a' n bindings' u = some members' ∧
      List.Forall₂ (TreeMember.Agrees inside) members members' := by
  induction n generalizing t u bindings bindings' members with
  | zero => cases hgather
  | succ n ih =>
    simp only [gather, Option.bind_eq_bind, Option.bind_eq_some_iff] at hgather
    obtain ⟨⟨c, bound⟩, hrecord, hgather⟩ := hgather
    obtain ⟨c', bound', hrecord', hbound, id, hc, hc'⟩ := record?_agrees ht hu htu hb hrecord
    have hmatch := h id c c' hc hc'
    have hrel := hmatch.base
    cases hbase : c.base with
    | none =>
      rw [hbase] at hrel
      cases hbase' : c'.base with
      | some base' =>
        rw [hbase'] at hrel
        cases hrel
      | none =>
        simp only [hbase, Option.bind_some, Option.some.injEq] at hgather
        subst hgather
        refine ⟨_, ?_, ownMembers_agrees hmatch.members hbound .nil⟩
        simp [gather, hrecord', hbase']
    | some base =>
      rw [hbase] at hrel
      cases hbase' : c'.base with
      | none =>
        rw [hbase'] at hrel
        cases hrel
      | some base' =>
        rw [hbase'] at hrel
        obtain ⟨hrel⟩ := hrel
        simp only [hbase, Option.bind_eq_some_iff, Option.some.injEq] at hgather
        obtain ⟨inherited, hinherited, rfl⟩ := hgather
        obtain ⟨inherited', hinherited', hagree⟩ := ih
          (modelTree_over ha ((ha.fits hc).1 base hbase))
          (modelTree_over ha' ((ha'.fits hc').1 base' hbase')) hrel hbound hinherited
        refine ⟨_, ?_, ownMembers_agrees hmatch.members hbound hagree⟩
        simp [gather, hrecord', hbase', hinherited']

end Models

/-- Where the members of one of two types that agree are gathered, so are those of the other one,
and they agree. -/
theorem membersOf_agrees {inside : Bool} {g g' : Graph} {i j : Nat} (hg : g.WellFormed)
    (hg' : g'.WellFormed) (hmodels : ModelsAgree inside g.model g'.model) (hi : i < g.size)
    (hj : j < g'.size) (h : (g.tree i).Agrees inside true (g'.tree j)) :
    Follows (fun r r' => (g.Grows r.2 ∧ r.2.HoldsMembers r.1) ∧
        (g'.Grows r'.2 ∧ r'.2.HoldsMembers r'.1) ∧
        List.Forall₂ (TreeMember.Agrees inside) (r.1.map r.2.member) (r'.1.map r'.2.member))
      ((membersOf i).run g) ((membersOf j).run g') := by
  intro r hr
  obtain ⟨hgrow, hheld, hmembers⟩ := (membersOf_outcome hg hi).result hr
  obtain ⟨members', hgather, hagree⟩ := gather_agrees hg.model hg'.model hmodels (hg.tree_over hi)
    (hg'.tree_over hj) h .nil hmembers
  obtain ⟨r', hr'⟩ := exists_membersOf hg' hj hgather
  obtain ⟨hgrow', hheld', hmembers'⟩ := (membersOf_outcome hg' hj).result hr'
  obtain rfl := gather_unique hgather hmembers'
  exact ⟨r', hr', ⟨hgrow, hheld⟩, ⟨hgrow', hheld'⟩, hagree⟩

end Declgen.Walk
