import Declgen.Proofs.Types.Replacement
import Declgen.Walk.Members

/-!
# The members of a record, written out

The members of a record or an instantiation are gathered along its chain of bases, with the
arguments of the bases put in for their parameters. `gather` does the same on trees, and in a
well-formed graph a walk gathers exactly what it says. An inherited member that is declared again
keeps its place.
-/

namespace Declgen.Walk

open Model

/-- A member of a record with its type written out. -/
structure TreeMember where
  /-- The name of the member. -/
  name : String
  /-- The type of its values. -/
  type : TypeTree
  /-- Whether the member may be left out. -/
  optional : Bool
  /-- Whether its value may be null. -/
  nullable : Bool
  /-- Its documentation. -/
  doc : Option String

/-- Puts a member into the place of the one with its name, or at the end if there is none. -/
def TreeMember.place (m : TreeMember) : List TreeMember → List TreeMember
  | [] => [m]
  | other :: members =>
    if other.name = m.name then m :: members else other :: m.place members

/-- A member of a record, read in a graph. -/
def Graph.member (g : Graph) (m : Member) : TreeMember :=
  ⟨m.name, g.tree m.type, m.optional, m.nullable, m.doc⟩

/-- A type of a model written out in full. -/
def modelTree (a : Arena) (id : TypeId) : TypeTree := (Graph.ofModel a).tree id

/-- The record that a type names, with what its parameters stand for. A record that is named
directly keeps the bindings around it. -/
def TypeTree.record? (bindings : List (String × TypeTree)) :
    TypeTree → Option (ComplexType × List (String × TypeTree))
  | .record _ c => some (c, bindings)
  | .instantiation _ c arguments =>
    some (c, (c.typeParams.zip (arguments.map (replace bindings))).reverse)
  | _ => none

/-- The members of a record after its own ones have been added to those it inherits. -/
def ownMembers (a : Arena) (bindings : List (String × TypeTree)) :
    List Member → List TreeMember → List TreeMember
  | [], inherited => inherited
  | m :: own, inherited =>
    let m' : TreeMember :=
      ⟨m.name, (modelTree a m.type).replace bindings, m.optional, m.nullable, m.doc⟩
    ownMembers a bindings own (m'.place inherited)

/-- The members of a record or an instantiation, through at most `depth` bases. -/
def gather (a : Arena) : Nat → List (String × TypeTree) → TypeTree → Option (List TreeMember)
  | 0, _, _ => none
  | depth + 1, bindings, t => do
    let (c, bindings) ← t.record? bindings
    let inherited ←
      match c.base with
      | some base => gather a depth bindings (modelTree a base)
      | none => some []
    some (ownMembers a bindings c.members inherited)

/-- The members of a record or an instantiation. -/
def TypeTree.members? (a : Arena) (t : TypeTree) : Option (List TreeMember) :=
  gather a (a.size + 2) [] t

namespace Graph

/-- The types of all members are in the graph. -/
def HoldsMembers (g : Graph) (members : List Member) : Prop :=
  ∀ type : Nat, type ∈ members.map (·.type) → type < g.size

variable {g g' : Graph} {members : List Member}

/-- A larger graph holds the types of the members, too. -/
theorem HoldsMembers.extends (hm : g.HoldsMembers members) (h : g.Extends g') :
    g'.HoldsMembers members := fun type htype => h.lt_size (hm type htype)

/-- In a larger graph members read the same. -/
theorem WellFormed.member_extends (hg : g.WellFormed) (h : g.Extends g')
    (hm : g.HoldsMembers members) : members.map g'.member = members.map g.member := by
  refine List.map_congr_left fun m hmem => ?_
  simp only [member, hg.tree_extends h (hm m.type (List.mem_map_of_mem hmem))]

/-- A type of the model reads the same in every graph over it. -/
theorem WellFormed.modelTree_eq (hg : g.WellFormed) {id : Nat} (hid : id < g.model.size) :
    modelTree g.model id = g.tree id :=
  (tree_ofModel hg.model rfl hid).symm

/-- Setting a member is putting it in its place when members are read. -/
theorem map_member_setMember (g : Graph) (m : Member) (members : List Member) :
    (setMember m members).map g.member = (g.member m).place (members.map g.member) := by
  induction members with
  | nil => rfl
  | cons other members ih =>
    by_cases heq : other.name = m.name
    · simp only [setMember, List.map_cons, TreeMember.place, member, heq, if_true]
    · simp only [setMember, List.map_cons, TreeMember.place, member, heq, if_false]
      exact congrArg _ ih

/-- A member can be set if its type is in the graph. -/
theorem HoldsMembers.setMember (hm : g.HoldsMembers members) {m : Member}
    (h : (m.type : Nat) < g.size) : g.HoldsMembers (setMember m members) := by
  induction members with
  | nil => simpa [HoldsMembers, Walk.setMember] using h
  | cons other members ih =>
    simp only [HoldsMembers, List.map_cons, List.mem_cons, forall_eq_or_imp] at hm
    unfold Walk.setMember
    split
    · simp only [HoldsMembers, List.map_cons, List.mem_cons, forall_eq_or_imp]
      exact ⟨h, hm.2⟩
    · simp only [HoldsMembers, List.map_cons, List.mem_cons, forall_eq_or_imp]
      exact ⟨hm.1, ih hm.2⟩

end Graph

variable {g : Graph} {id : Nat} {bindings : Bindings}

/-- Binding parameters binds each to its argument, the last one first. -/
theorem bindArguments_outcome (hg : g.WellFormed) {parameters : List String}
    {arguments : List TypeId} {bound : Bindings} (hb : g.Holds bindings) (hbound : g.Holds bound)
    (harguments : ∀ i : Nat, i ∈ arguments → i < g.size) {bad : GenerateError → Prop} :
    Outcome (fun r => g.Grows r.2 ∧ r.2.Holds r.1 ∧ r.2.bound r.1 =
        (parameters.zip ((arguments.map g.tree).map
          (TypeTree.replace (g.bound bindings)))).reverse ++ g.bound bound) bad
      ((bindArguments bindings parameters arguments bound).run g) := by
  induction parameters generalizing g arguments bound with
  | nil => exact ⟨hg.grows_refl, hbound, by simp⟩
  | cons parameter parameters ih =>
    cases arguments with
    | nil => exact ⟨hg.grows_refl, hbound, by simp⟩
    | cons argument arguments =>
      have hrest (i : Nat) (hi : i ∈ arguments) : i < g.size := harguments i (by simp [hi])
      simp only [bindArguments, StateT.run_bind]
      refine (substitute_outcome hg (harguments argument (by simp)) hb).bind fun r hr => ?_
      obtain ⟨hgrow, hlt, htree⟩ := hr
      have hbound' : r.2.Holds ((parameter, r.1) :: bound) := by
        intro name i hi
        rcases List.mem_cons.mp hi with heq | hi
        · cases heq
          exact hlt
        · exact hgrow.lt_size (hbound name i hi)
      refine (ih hgrow.wellFormed (hb.extends hgrow.toExtends) hbound'
        fun i hi => hgrow.lt_size (hrest i hi)).weaken fun r' hr' => ?_
      refine ⟨hgrow.trans hr'.1, hr'.2.1, ?_⟩
      have hmap : arguments.map r.2.tree = arguments.map g.tree :=
        List.map_congr_left fun i hi => hg.tree_extends hgrow.toExtends (hrest i hi)
      have hcons : r.2.bound ((parameter, r.1) :: bound) =
          (parameter, (g.tree argument).replace (g.bound bindings)) :: g.bound bound := by
        rw [← hg.bound_extends hgrow.toExtends hbound, ← htree]
        rfl
      rw [hr'.2.2, hmap, hg.bound_extends hgrow.toExtends hb, hcons]
      simp

/-- The record of a base, and what its parameters stand for, as the tree of the base says. -/
theorem baseRecord_outcome (hg : g.WellFormed) (hid : id < g.size) (hb : g.Holds bindings) :
    Outcome (fun r => g.Grows r.2 ∧ r.2.Holds r.1.2 ∧ (∃ i, g.model.Fits i (.complex r.1.1)) ∧
        (g.tree id).record? (g.bound bindings) = some (r.1.1, r.2.bound r.1.2))
      GenerateError.Possible ((baseRecord bindings id).run g) := by
  obtain ⟨d, hd, hfits⟩ := hg.exists_get hid
  have htree := hg.tree_eq hd
  unfold baseRecord
  simp only [StateT.run_bind, StateT.run_get, pure_bind]
  rw [hd]
  change Outcome _ _ (StateT.run _ g)
  cases d with
  | primitive kind => trivial
  | nullable inner => trivial
  | array element => trivial
  | dictionary key value => trivial
  | enum e => trivial
  | parameter name => trivial
  | complex c =>
    refine ⟨hg.grows_refl, hb, ⟨id, hfits⟩, ?_⟩
    rw [htree]
    rfl
  | instantiation definition arguments =>
    obtain ⟨c, hc, -, hdefinition⟩ := hg.definition hd
    have harguments (i : Nat) (hi : i ∈ arguments) : i < g.size :=
      Nat.lt_trans (hfits.2.1 i hi) hid
    have hnone : g.Holds [] := by simp [Graph.Holds]
    simp only [hdefinition, StateT.run_bind]
    refine (bindArguments_outcome hg hb hnone harguments).bind fun r hr => ?_
    obtain ⟨hgrow, hholds, hbound⟩ := hr
    refine ⟨hgrow, hholds, ⟨definition, hg.model.fits hc⟩, ?_⟩
    rw [hg.tree_instantiation hd hc, hbound]
    simp [TypeTree.record?, Graph.bound]

/-- Adding the own members of a record that names each of them once does not fail. -/
theorem addOwnMembers_outcome (hg : g.WellFormed) {owner : TypeId} {seen : List String}
    {own inherited : List Member} (hb : g.Holds bindings) (hinherited : g.HoldsMembers inherited)
    (hown : ∀ type : Nat, type ∈ own.map (·.type) → type < g.model.size)
    (hnames : (own.map (·.name)).Nodup) (hseen : ∀ m ∈ own, m.name ∉ seen)
    {bad : GenerateError → Prop} :
    Outcome (fun r => g.Grows r.2 ∧ r.2.HoldsMembers r.1 ∧ r.1.map r.2.member =
        ownMembers g.model (g.bound bindings) own (inherited.map g.member)) bad
      ((addOwnMembers owner bindings seen own inherited).run g) := by
  induction own generalizing g seen inherited with
  | nil => exact ⟨hg.grows_refl, hinherited, rfl⟩
  | cons m own ih =>
    simp only [List.map_cons, List.mem_cons, forall_eq_or_imp, List.nodup_cons] at hown hnames hseen
    have hnot : ¬ seen.contains m.name = true := by simpa using hseen.1
    have hm : (m.type : Nat) < g.size := by
      have hsize : g.size = g.model.size + g.made.size := rfl
      have hlt : (m.type : Nat) < g.model.size := hown.1
      rw [hsize]
      exact Nat.lt_add_right _ hlt
    rw [addOwnMembers, if_neg hnot]
    simp only [StateT.run_bind]
    refine (substitute_outcome hg hm hb).bind fun r hr => ?_
    obtain ⟨hgrow, hlt, htree⟩ := hr
    have hinherited' : r.2.HoldsMembers (setMember { m with type := r.1 } inherited) :=
      (hinherited.extends hgrow.toExtends).setMember hlt
    have hseen' : ∀ other ∈ own, other.name ∉ m.name :: seen := by
      intro other hother hmem
      rcases List.mem_cons.mp hmem with heq | hmem
      · exact hnames.1 (heq ▸ List.mem_map_of_mem hother)
      · exact hseen.2 other hother hmem
    refine (ih hgrow.wellFormed (hb.extends hgrow.toExtends) hinherited'
      (by rw [hgrow.model]; exact hown.2) hnames.2 hseen').weaken fun r' hr' => ?_
    refine ⟨hgrow.trans hr'.1, hr'.2.1, ?_⟩
    rw [hr'.2.2, hgrow.model, hg.bound_extends hgrow.toExtends hb, Graph.map_member_setMember,
      hg.member_extends hgrow.toExtends hinherited, ownMembers, hg.modelTree_eq hown.1, ← htree]
    rfl

/-- The members of a type are gathered as its tree says, or the chain of its bases is circular or
meets something that is no record. -/
theorem membersWithin_outcome (hg : g.WellFormed) {depth : Nat} {below : List TypeId}
    (hid : id < g.size) (hb : g.Holds bindings) :
    Outcome (fun r => g.Grows r.2 ∧ r.2.HoldsMembers r.1 ∧
        gather g.model depth (g.bound bindings) (g.tree id) = some (r.1.map r.2.member))
      GenerateError.Possible ((membersWithin depth below bindings id).run g) := by
  induction depth generalizing g id below bindings with
  | zero => trivial
  | succ depth ih =>
    rw [membersWithin]
    split
    · trivial
    simp only [StateT.run_bind]
    refine (baseRecord_outcome hg hid hb).bind fun r hr => ?_
    obtain ⟨⟨c, bindings'⟩, g₁⟩ := r
    obtain ⟨hgrow, hholds, ⟨i, hbase, hmembers, hnames⟩, hrecord⟩ := hr
    rw [← hgrow.model] at hbase hmembers ⊢
    dsimp only at hgrow hholds hbase hmembers hnames hrecord ⊢
    -- What is left to do when the inherited members are known.
    have hown (inherited : List Member) (g₂ : Graph) (hgrow' : g₁.Grows g₂)
        (hholds' : g₂.HoldsMembers inherited)
        (hgather : gather g₁.model (depth + 1) (g.bound bindings) (g.tree id) =
          some (ownMembers g₁.model (g₁.bound bindings') c.members (inherited.map g₂.member))) :
        Outcome (fun r => g.Grows r.2 ∧ r.2.HoldsMembers r.1 ∧
            gather g₁.model (depth + 1) (g.bound bindings) (g.tree id) =
              some (r.1.map r.2.member))
          GenerateError.Possible ((addOwnMembers id bindings' [] c.members inherited).run g₂) := by
      refine (addOwnMembers_outcome hgrow'.wellFormed (hholds.extends hgrow'.toExtends) hholds'
        (by rw [hgrow'.model]; exact hmembers) hnames (by simp)).weaken fun r hr => ?_
      refine ⟨hgrow.trans (hgrow'.trans hr.1), hr.2.1, ?_⟩
      rw [hgather, hr.2.2, hgrow'.model,
        hgrow.wellFormed.bound_extends hgrow'.toExtends hholds]
    cases hc : c.base with
    | none =>
      refine hown [] g₁ hgrow.wellFormed.grows_refl (by simp [Graph.HoldsMembers]) ?_
      simp [gather, hrecord, hc]
    | some base =>
      have hlt := hbase base hc
      simp only [StateT.run_bind]
      refine (ih hgrow.wellFormed (Nat.lt_add_right _ hlt) hholds).bind fun r hr => ?_
      apply hown r.1 r.2 hr.1 hr.2.1
      simp [gather, hrecord, hc, hgrow.wellFormed.modelTree_eq hlt, hr.2.2]

/-- The members of a type of a well-formed graph. -/
theorem membersOf_outcome (hg : g.WellFormed) (hid : id < g.size) :
    Outcome (fun r => g.Grows r.2 ∧ r.2.HoldsMembers r.1 ∧
        (g.tree id).members? g.model = some (r.1.map r.2.member))
      GenerateError.Possible ((membersOf id).run g) := by
  have hnone : g.Holds [] := by simp [Graph.Holds]
  exact membersWithin_outcome hg hid hnone

/-! ### Where the types of members come from -/

section Over

variable {a : Arena} {bindings : List (String × TypeTree)} {t : TypeTree}

/-- Replacing parameters by types of a model gives a type of the model. -/
theorem TypeTree.Over.replace (ht : t.Over a) (hb : ∀ binding ∈ bindings, binding.2.Over a) :
    (t.replace bindings).Over a := by
  induction ht with
  | primitive h => exact .primitive h
  | enum h => exact .enum h
  | record h => exact .record h
  | @parameter id name h =>
    rw [TypeTree.replace]
    cases hlookup : bindings.lookup name with
    | none => exact .parameter h
    | some u =>
      obtain ⟨before, after, rfl, -⟩ := List.lookup_eq_some_iff.mp hlookup
      exact hb (name, u) (by simp)
  | nullable _ ih => exact .nullable ih
  | array _ ih => exact .array ih
  | dictionary _ _ ihkey ihvalue => exact .dictionary ihkey ihvalue
  | instantiation h hinstantiates hlength _ ih =>
    rw [TypeTree.replace, replaceAll_eq_map]
    refine .instantiation h hinstantiates (by simpa using hlength) fun u hu => ?_
    obtain ⟨u, hmem, rfl⟩ := List.mem_map.mp hu
    exact ih u hmem

/-- Whatever is there after a member has been put in its place is this one or was there before. -/
theorem TreeMember.mem_place {m other : TreeMember} {members : List TreeMember}
    (h : other ∈ m.place members) : other = m ∨ other ∈ members := by
  induction members with
  | nil => exact .inl (List.mem_singleton.mp h)
  | cons first members ih =>
    rw [place] at h
    split at h
    · rcases List.mem_cons.mp h with rfl | h
      · exact .inl rfl
      · exact .inr (List.mem_cons_of_mem _ h)
    · rcases List.mem_cons.mp h with rfl | h
      · exact .inr List.mem_cons_self
      · exact (ih h).imp_right (List.mem_cons_of_mem _)

/-- The types of a model are made of what it has. -/
theorem modelTree_over (ha : a.WellFormed) {id : Nat} (hid : id < a.size) :
    (modelTree a id).Over a := by
  have hsize : id < (Graph.ofModel a).size := by simpa [Graph.ofModel, Graph.size] using hid
  exact (Graph.ofModel_wellFormed ha).tree_over hsize

/-- The types of own members are made of what the model has, if those that are inherited are. -/
theorem ownMembers_over (ha : a.WellFormed) (hb : ∀ binding ∈ bindings, binding.2.Over a)
    {own : List Member} (hown : ∀ type : Nat, type ∈ own.map (·.type) → type < a.size)
    {inherited : List TreeMember} (hinherited : ∀ m ∈ inherited, m.type.Over a) :
    ∀ m ∈ ownMembers a bindings own inherited, m.type.Over a := by
  induction own generalizing inherited with
  | nil => exact hinherited
  | cons m own ih =>
    simp only [List.map_cons, List.mem_cons, forall_eq_or_imp] at hown
    refine ih hown.2 fun other hother => ?_
    rcases TreeMember.mem_place hother with rfl | hother
    · exact (modelTree_over ha hown.1).replace hb
    · exact hinherited other hother

/-- The members of a type of the model have types of the model. -/
theorem gather_over (ha : a.WellFormed) {depth : Nat} {members : List TreeMember}
    (ht : t.Over a) (hb : ∀ binding ∈ bindings, binding.2.Over a)
    (h : gather a depth bindings t = some members) : ∀ m ∈ members, m.type.Over a := by
  induction depth generalizing t bindings members with
  | zero => cases h
  | succ depth ih =>
    simp only [gather, Option.bind_eq_bind, Option.bind_eq_some_iff] at h
    obtain ⟨⟨c, bindings'⟩, hrecord, h⟩ := h
    obtain ⟨⟨i, hc⟩, hb'⟩ : (∃ i, a.get i = .ok (.complex c)) ∧
        ∀ binding ∈ bindings', binding.2.Over a := by
      cases ht with
      | record hc =>
        cases hrecord
        exact ⟨⟨_, hc⟩, hb⟩
      | instantiation hc _ _ harguments =>
        cases hrecord
        refine ⟨⟨_, hc⟩, fun binding hbinding => ?_⟩
        rw [List.mem_reverse] at hbinding
        obtain ⟨u, hu, heq⟩ := List.mem_map.mp (List.of_mem_zip hbinding).2
        rw [← heq]
        exact (harguments u hu).replace hb
      | _ => cases hrecord
    obtain ⟨hbase, hown, -⟩ := ha.fits hc
    cases hc' : c.base with
    | none =>
      simp only [hc', Option.bind_some, Option.some.injEq] at h
      subst h
      exact ownMembers_over ha hb' hown (by simp)
    | some base =>
      simp only [hc', Option.bind_eq_some_iff, Option.some.injEq] at h
      obtain ⟨inherited, hinherited, rfl⟩ := h
      exact ownMembers_over ha hb' hown (ih (modelTree_over ha (hbase base hc')) hb' hinherited)

/-- The types of all members are made of what the model has. -/
theorem TypeTree.members?_over (ha : a.WellFormed) {members : List TreeMember} (ht : t.Over a)
    (h : t.members? a = some members) : ∀ m ∈ members, m.type.Over a :=
  gather_over ha ht (by simp) h

end Over

end Declgen.Walk
