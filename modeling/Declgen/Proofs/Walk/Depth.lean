import Declgen.Proofs.Types.Levels
import Declgen.Proofs.Walk.Declarations
import Mathlib.Data.List.Perm.Subperm

/-!
# The depth of a look at a type

Every look at a type is given a depth, and each of them ends before it has used it up: parts have
smaller numbers than the whole, and no chain of bases repeats a type. So in a well-formed graph a
greater depth never changes what a look finds, and the depth of a look limits nothing.
-/

namespace Declgen.Walk

open Model Declgen.Units

variable {g : Graph} {id : Nat}

/-! ### Converting and replacing -/

/-- Any two depths that are great enough convert a type in the same way. -/
theorem convertWithin_depth {ctx : Context} (hg : ctx.graph.WellFormed) {depth depth' : Nat}
    {within within' : List TypeId} (hid : id < ctx.graph.size) (hdepth : id < depth)
    (hdepth' : id < depth') (hwithin : ∀ a : Nat, a ∈ within → id < a)
    (hwithin' : ∀ a : Nat, a ∈ within' → id < a) :
    convertWithin ctx depth within id = convertWithin ctx depth' within' id := by
  induction depth generalizing id depth' within within' with
  | zero => omega
  | succ depth ih =>
    obtain ⟨depth', rfl⟩ : ∃ k, depth' = k + 1 := ⟨depth' - 1, by omega⟩
    obtain ⟨d, hd, hfits⟩ := hg.exists_get hid
    have hpart (i : Nat) (hi : i < id) :
        convertWithin ctx depth (id :: within) i = convertWithin ctx depth' (id :: within') i :=
      ih (by omega) (by omega) (by omega) (lt_of_mem_above hi hwithin)
        (lt_of_mem_above hi hwithin')
    rw [convertWithin, convertWithin, hd, lift_ok_bind, lift_ok_bind]
    simp only [if_neg (contains_above_eq_false hwithin), if_neg (contains_above_eq_false hwithin')]
    cases d with
    | nullable inner => simp only [hpart inner hfits]
    | array element => simp only [hpart element hfits]
    | dictionary key value => simp only [hpart key hfits.1, hpart value hfits.2]
    | instantiation definition arguments =>
      have harguments := mapM_congr_left fun i hi => hpart i (hfits.2.1 i hi)
      simp only [harguments]
    | _ => rfl

/-- Any two depths that are great enough replace parameters in the same way. -/
theorem substituteWithin_depth {bindings : Bindings} (hg : g.WellFormed) {depth depth' : Nat}
    {above above' : List TypeId} (hid : id < g.size) (hdepth : id < depth) (hdepth' : id < depth')
    (habove : ∀ a : Nat, a ∈ above → id < a) (habove' : ∀ a : Nat, a ∈ above' → id < a)
    (hb : g.Holds bindings) :
    (substituteWithin bindings depth above id).run g =
      (substituteWithin bindings depth' above' id).run g := by
  induction depth generalizing g id depth' above above' with
  | zero => omega
  | succ depth ih =>
    obtain ⟨depth', rfl⟩ : ∃ k, depth' = k + 1 := ⟨depth' - 1, by omega⟩
    obtain ⟨d, hd, hfits⟩ := hg.exists_get hid
    -- A part may be reached after other parts have been added.
    have hgrows {g₁ : Graph} (hgrow : g.Grows g₁) (i : Nat) (hi : i < id) :
        Outcome (fun r => g.Grows r.2) (fun _ => True)
          ((substituteWithin bindings depth (id :: above) i).run g₁) :=
      (substituteWithin_outcome hgrow.wellFormed (hgrow.lt_size (by omega)) (by omega)
        (lt_of_mem_above hi habove) (hb.extends hgrow.toExtends)).weaken
          fun r hr => hgrow.trans hr.1
    have hpart {g₁ : Graph} (hgrow : g.Grows g₁) (i : Nat) (hi : i < id) :
        (substituteWithin bindings depth (id :: above) i).run g₁ =
          (substituteWithin bindings depth' (id :: above') i).run g₁ :=
      ih hgrow.wellFormed (hgrow.lt_size (by omega)) (by omega) (by omega)
        (lt_of_mem_above hi habove) (lt_of_mem_above hi habove') (hb.extends hgrow.toExtends)
    rw [substituteWithin, substituteWithin, if_neg (contains_above_eq_false habove),
      if_neg (contains_above_eq_false habove')]
    simp only [StateT.run_bind, StateT.run_get, pure_bind]
    rw [hd]
    change StateT.run _ g = StateT.run _ g
    cases d with
    | nullable inner => simp only [StateT.run_bind, hpart hg.grows_refl inner hfits]
    | array element => simp only [StateT.run_bind, hpart hg.grows_refl element hfits]
    | dictionary key value =>
      simp only [StateT.run_bind, ← hpart hg.grows_refl key hfits.1]
      refine (hgrows hg.grows_refl key hfits.1).bind_congr fun r hgrow => ?_
      rw [hpart hgrow value hfits.2]
    | instantiation definition arguments =>
      have hcalls : (arguments.mapM (substituteWithin bindings depth (id :: above))).run g =
          (arguments.mapM (substituteWithin bindings depth' (id :: above'))).run g :=
        Outcome.mapM_congr g.Grows (fun i hi _ hgrow => hgrows hgrow i (hfits.2.1 i hi))
          (fun i hi _ hgrow => hpart hgrow i (hfits.2.1 i hi)) hg.grows_refl
      simp only [StateT.run_bind, hcalls]
    | _ => rfl

/-! ### Bases -/

/-- A chain of bases that repeats no type has at most one type that is not in the model. -/
theorem length_chain_le {size : Nat} {start : TypeId} {below : List TypeId} (hnodup : below.Nodup)
    (hbelow : ∀ a : Nat, a ∈ below → a = start ∨ a < size) : below.length ≤ size + 1 := by
  have hsubset : below ⊆ start :: List.range size := by
    intro a ha
    rcases hbelow a ha with rfl | hlt
    · exact List.mem_cons_self
    · exact List.mem_cons_of_mem _ (List.mem_range.mpr hlt)
  simpa using (hnodup.subperm hsubset).length_le

/-- Any two depths that are great enough gather the same members. Together with the types below, a
depth of two more than the size of the model is. -/
theorem membersWithin_depth (hg : g.WellFormed) {depth depth' : Nat} {start : TypeId}
    {below : List TypeId} {bindings : Bindings} (hid : id < g.size) (hb : g.Holds bindings)
    (hnodup : below.Nodup) (hbelow : ∀ a : Nat, a ∈ id :: below → a = start ∨ a < g.model.size)
    (hdepth : g.model.size + 2 ≤ depth + below.length)
    (hdepth' : g.model.size + 2 ≤ depth' + below.length) :
    (membersWithin depth below bindings id).run g =
      (membersWithin depth' below bindings id).run g := by
  have hlength := length_chain_le hnodup fun a ha => hbelow a (List.mem_cons_of_mem _ ha)
  induction depth generalizing g id depth' below bindings with
  | zero => omega
  | succ depth ih =>
    obtain ⟨depth', rfl⟩ : ∃ k, depth' = k + 1 := ⟨depth' - 1, by omega⟩
    rw [membersWithin, membersWithin]
    by_cases hcontains : below.contains id = true
    · rw [if_pos hcontains, if_pos hcontains]
      rfl
    have hchain : (id :: below).Nodup := by
      rw [List.nodup_cons]
      exact ⟨by simpa using hcontains, hnodup⟩
    have hchainLength := length_chain_le hchain hbelow
    rw [if_neg hcontains, if_neg hcontains, StateT.run_bind, StateT.run_bind]
    refine (baseRecord_outcome hg hid hb).bind_congr fun r hr => ?_
    obtain ⟨⟨c, bindings'⟩, g₁⟩ := r
    obtain ⟨hgrow, hholds, ⟨i, hbase, -⟩, -⟩ := hr
    dsimp only at hgrow hholds hbase ⊢
    rw [← hgrow.model] at hbase hbelow hdepth hdepth' hlength hchainLength
    cases hc : c.base with
    | none => rfl
    | some base =>
      have hlt : (base : Nat) < g₁.model.size := hbase base hc
      have hrest : (membersWithin depth (id :: below) bindings' base).run g₁ =
          (membersWithin depth' (id :: below) bindings' base).run g₁ := by
        refine ih hgrow.wellFormed (Nat.lt_add_right _ hlt) hholds hchain (fun a ha => ?_)
          (by simp only [List.length_cons]; omega) (by simp only [List.length_cons]; omega)
          hchainLength
        rcases List.mem_cons.mp ha with rfl | ha
        · exact .inr hlt
        · exact hbelow a ha
      simp only [StateT.run_bind, hrest]

/-! ### Settled graphs -/

/-- No recursion over the types of a graph is cut off: each gives the same at any greater depth.
Only the name of an instantiation is limited, to 32 levels. -/
structure Graph.Settled (g : Graph) : Prop where
  /-- Reading the identity of a type ends. -/
  identity : ∀ id depth : Nat, id < g.size → g.size + 1 ≤ depth →
    identityWithin g depth [] id = Walk.identity g id
  /-- The search for type parameters ends. -/
  parameters : ∀ id depth : Nat, id < g.size → g.size + 1 ≤ depth →
    mentionsParameterWithin g depth [] id = mentionsParameter g id
  /-- Converting a type ends, whatever the hook and the parameters in scope. -/
  conversion : ∀ (options : Options) (hook : Hook) (scope : List String) (id depth : Nat),
    id < g.size → g.size + 1 ≤ depth →
    convertWithin ⟨g, options, hook, scope⟩ depth [] id = convert ⟨g, options, hook, scope⟩ id
  /-- Replacing parameters in a type ends. -/
  substitution : ∀ (bindings : Bindings) (id depth : Nat), g.Holds bindings → id < g.size →
    g.depthBound ≤ depth →
    (substituteWithin bindings depth [] id).run g =
      (substituteWithin bindings g.depthBound [] id).run g
  /-- Gathering the members of a record ends. -/
  members : ∀ id depth : Nat, id < g.size → g.model.size + 2 ≤ depth →
    (membersWithin depth [] [] id).run g = (membersOf id).run g
  /-- A type that has a header has a name tree of at most 32 levels. -/
  levels : ∀ (id : Nat) (h : Header), id < g.size → header g id = .ok h →
    (g.tree id).levels ≤ nameLevels

/-- Every well-formed graph is settled. -/
theorem Graph.WellFormed.settled (hg : g.WellFormed) : g.Settled where
  identity id depth hid hdepth := by
    rw [identity_eq hg hid]
    exact identityWithin_eq hg hid (by omega) (by simp)
  parameters id depth hid hdepth := by
    rw [mentionsParameter_eq hg hid]
    exact mentionsParameterWithin_eq hg hid (by omega) (by simp)
  conversion options hook scope id depth hid hdepth := by
    have hid' : id < (Context.mk g options hook scope).graph.size := hid
    exact convertWithin_depth hg hid' (by omega) (by omega) (by simp) (by simp)
  substitution bindings id depth hb hid hdepth := by
    have hbound : id < g.depthBound := Nat.lt_trans hid g.size_lt_depthBound
    exact substituteWithin_depth hg hid (by omega) hbound (by simp) (by simp) hb
  members id depth hid hdepth := by
    have hnone : g.Holds [] := by simp [Graph.Holds]
    have hchain : ∀ a : Nat, a ∈ [id] → a = id ∨ a < g.model.size := by simp
    exact membersWithin_depth hg hid hnone .nil hchain (by simpa using hdepth) (by simp)
  levels id h hid hheader := by
    have hnamed : (g.tree id).isNamed = true := by
      obtain ⟨d, hd, -⟩ := hg.exists_get hid
      have htree := hg.tree_eq hd
      rw [header, hd] at hheader
      cases d with
      | enum e => rw [htree]; rfl
      | complex c => rw [htree]; rfl
      | instantiation definition arguments =>
        obtain ⟨c, hc, -⟩ := hg.definition hd
        rw [hg.tree_instantiation hd hc]
        rfl
      | _ => cases hheader
    exact TypeTree.levels_le_of_header? ((header_outcome hg hid hnamed).result hheader)

end Declgen.Walk
