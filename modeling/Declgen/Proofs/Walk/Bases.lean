import Declgen.Proofs.Alike.Members
import Declgen.Proofs.Walk.Ground

/-!
# Bases without arguments

The base of a record is an instantiation, which gives arguments for all type parameters, or a
record that is named directly. A walk does not ask whether the latter is generic. Its members then
keep the bindings of the record that extends it, so a type parameter in them means the one of the
same name further down the chain of bases. A walk accepts such a base only where every type
parameter in the members that are kept has a namesake below.
-/

namespace Declgen.Walk

open Model Document TypeScript Declgen.Units

/-! ### Where type parameters occur -/

namespace TypeTree

/-- The type parameter with a given name occurs in a type. -/
inductive Mentions (name : String) : TypeTree → Prop
  /-- The type is the parameter. -/
  | parameter : Mentions name (.parameter name)
  /-- It occurs in a type that may be null. -/
  | nullable {inner : TypeTree} (h : Mentions name inner) : Mentions name (.nullable inner)
  /-- It occurs in the elements of a list. -/
  | array {element : TypeTree} (h : Mentions name element) : Mentions name (.array element)
  /-- It occurs in the keys of a map. -/
  | key {key value : TypeTree} (h : Mentions name key) : Mentions name (.dictionary key value)
  /-- It occurs in the values of a map. -/
  | value {key value : TypeTree} (h : Mentions name value) : Mentions name (.dictionary key value)
  /-- It occurs in an argument. -/
  | argument {definition : TypeId} {c : ComplexType} {arguments : List TypeTree} {t : TypeTree}
    (ht : t ∈ arguments) (h : Mentions name t) :
    Mentions name (.instantiation definition c arguments)

namespace Mentions

variable {name : String} {t : TypeTree}

/-- A type in which a parameter with some name occurs has a parameter. -/
theorem hasParameter_eq_true (h : t.Mentions name) : t.hasParameter = true := by
  induction h with
  | parameter => rfl
  | nullable _ ih => exact ih
  | array _ ih => exact ih
  | key _ ih => exact Bool.or_eq_true_iff.mpr (.inl ih)
  | value _ ih => exact Bool.or_eq_true_iff.mpr (.inr ih)
  | argument ht _ ih =>
    rw [hasParameter, anyHasParameter_eq_any]
    exact List.any_eq_true.mpr ⟨_, ht, ih⟩

/-- A parameter to which nothing is bound stays where it is. -/
theorem replace (h : t.Mentions name) {bindings : List (String × TypeTree)}
    (hlookup : bindings.lookup name = none) : (t.replace bindings).Mentions name := by
  induction h with
  | parameter =>
    rw [TypeTree.replace, hlookup]
    exact .parameter
  | nullable _ ih => exact .nullable ih
  | array _ ih => exact .array ih
  | key _ ih => exact .key ih
  | value _ ih => exact .value ih
  | argument ht _ ih =>
    rw [TypeTree.replace, replaceAll_eq_map]
    exact .argument (List.mem_map_of_mem ht) ih

/-- A type has an expression only where all of its parameters are in scope. -/
theorem mem_scope (h : t.Mentions name) {style : GenericStyle} {units : Registry}
    {scope : List String} {e : Expr} (he : t.expr? style units scope = some e) : name ∈ scope := by
  induction h generalizing e with
  | parameter =>
    by_contra hscope
    simp [expr?, hscope] at he
  | nullable _ ih =>
    obtain ⟨inner, hinner, -⟩ := Option.map_eq_some_iff.mp he
    exact ih hinner
  | array _ ih =>
    obtain ⟨element, helement, -⟩ := Option.map_eq_some_iff.mp he
    exact ih helement
  | key h _ =>
    -- What may be a key has no parts.
    obtain ⟨value, -, he⟩ := Option.bind_eq_some_iff.mp he
    cases h <;> cases he
  | value _ ih =>
    obtain ⟨value, hvalue, -⟩ := Option.bind_eq_some_iff.mp he
    exact ih hvalue
  | @argument _ _ arguments t ht h ih =>
    have hany : anyHasParameter arguments = true := by
      rw [anyHasParameter_eq_any]
      exact List.any_eq_true.mpr ⟨t, ht, h.hasParameter_eq_true⟩
    rw [expr?, if_pos (.inr hany), exprs?_eq_mapM] at he
    obtain ⟨unit, -, he⟩ := Option.bind_eq_some_iff.mp he
    obtain ⟨es, hes, -⟩ := Option.bind_eq_some_iff.mp he
    obtain ⟨e', -, he'⟩ := exists_mem_of_mapM hes ht
    exact ih he'

end Mentions

end TypeTree

/-! ### Which members are kept -/

/-- A member is there after it has been put in its place. -/
theorem TreeMember.mem_place_self (m : TreeMember) (members : List TreeMember) :
    m ∈ m.place members := by
  induction members with
  | nil => exact List.mem_singleton_self m
  | cons other members ih =>
    rw [place]
    split
    · exact List.mem_cons_self
    · exact List.mem_cons_of_mem _ ih

/-- Members with other names stay when a member is put in its place. -/
theorem TreeMember.mem_place_of_ne {m other : TreeMember} {members : List TreeMember}
    (h : other ∈ members) (hname : other.name ≠ m.name) : other ∈ m.place members := by
  induction members with
  | nil => cases h
  | cons first members ih =>
    rw [place]
    rcases List.mem_cons.mp h with rfl | h
    · rw [if_neg hname]
      exact List.mem_cons_self
    · split
      · exact List.mem_cons_of_mem _ h
      · exact List.mem_cons_of_mem _ (ih h)

section OwnMembers

variable {a : Arena} {bindings : List (String × TypeTree)} {own : List Member}
  {inherited : List TreeMember}

/-- An inherited member is kept unless it is declared again. -/
theorem mem_ownMembers_of_inherited {other : TreeMember} (h : other ∈ inherited)
    (hown : ∀ m ∈ own, m.name ≠ other.name) : other ∈ ownMembers a bindings own inherited := by
  induction own generalizing inherited with
  | nil => exact h
  | cons m own ih =>
    rw [List.forall_mem_cons] at hown
    exact ih (TreeMember.mem_place_of_ne h hown.1.symm) hown.2

/-- An own member has its type with the parameters replaced. -/
theorem mem_ownMembers_own {m : Member} (h : m ∈ own) (hnames : (own.map (·.name)).Nodup) :
    ⟨m.name, (modelTree a m.type).replace bindings, m.optional, m.nullable, m.doc⟩ ∈
      ownMembers a bindings own inherited := by
  induction own generalizing inherited with
  | nil => cases h
  | cons first own ih =>
    rw [List.map_cons, List.nodup_cons] at hnames
    rcases List.mem_cons.mp h with rfl | h
    · rw [ownMembers]
      refine mem_ownMembers_of_inherited (TreeMember.mem_place_self _ _) fun other hother heq => ?_
      exact hnames.1 (List.mem_map.mpr ⟨other, hother, heq⟩)
    · exact ih h hnames.2

end OwnMembers

/-! ### Chains of bases -/

/-- A chain of bases leads from the type `id` to the type `base`, past the records `below`, of which
the last one comes first. -/
inductive Chain (g : Graph) (id : TypeId) : List ComplexType → TypeId → Prop
  /-- A chain starts at the type itself. -/
  | start : Chain g id [] id
  /-- It goes on to the base of the record that has been reached. -/
  | step {below : List ComplexType} {mid base : TypeId} {c : ComplexType}
    (h : Chain g id below mid) (hc : g.record? mid = some c) (hbase : c.base = some base) :
    Chain g id (c :: below) base

/-- One record is or is applied by what another one extends. -/
def Graph.Above (g : Graph) (c' c : ComplexType) : Prop :=
  ∃ base, c.base = some base ∧ g.record? base = some c'

section Chains

variable {g : Graph} {id base : TypeId} {below : List ComplexType} {c : ComplexType}

/-- A chain with a step starts at a record, which is among those that it goes past. -/
theorem Chain.exists_start (h : Chain g id below base) (hne : below ≠ []) :
    ∃ c, g.record? id = some c ∧ c ∈ below := by
  induction h with
  | start => exact absurd rfl hne
  | @step below mid _ c h hc _ ih =>
    cases h with
    | start => exact ⟨c, hc, List.mem_cons_self⟩
    | step =>
      obtain ⟨c', hc', hmem⟩ := ih (List.cons_ne_nil _ _)
      exact ⟨c', hc', List.mem_cons_of_mem _ hmem⟩

/-- Every record that a chain goes past is what some type is or applies. -/
theorem Chain.record?_of_mem_below (h : Chain g id below base) (hc : c ∈ below) :
    ∃ mid, g.record? mid = some c := by
  induction h with
  | start => cases hc
  | step _ hmid _ ih =>
    rcases List.mem_cons.mp hc with rfl | hc
    · exact ⟨_, hmid⟩
    · exact ih hc

/-- Every record that a chain goes past is below the one that it reaches. -/
theorem Chain.above (h : Chain g id below base) (hc : g.record? base = some c) :
    ∀ r ∈ below, Relation.TransGen g.Above c r := by
  induction h generalizing c with
  | start => simp
  | step _ hmid hbase ih =>
    have habove : g.Above c _ := ⟨_, hbase, hc⟩
    intro r hr
    rcases List.mem_cons.mp hr with rfl | hr
    · exact .single habove
    · exact .head habove (ih hmid r hr)

/-- The record that a type of a well-formed graph is or applies, told from its tree. -/
theorem Graph.WellFormed.record?_tree (hg : g.WellFormed) (hid : id < g.size)
    {bindings bindings' : List (String × TypeTree)}
    (h : (g.tree id).record? bindings = some (c, bindings')) : g.record? id = some c := by
  obtain ⟨d, hd, -⟩ := hg.exists_get hid
  cases d with
  | complex c' =>
    rw [hg.tree_eq hd] at h
    cases h
    exact Graph.record?_complex hd
  | instantiation definition arguments =>
    obtain ⟨c', hc', -⟩ := hg.definition hd
    rw [hg.tree_instantiation hd hc'] at h
    cases h
    exact Graph.record?_instantiation hd hc'
  | _ =>
    rw [hg.tree_eq hd] at h
    cases h

/-- A type that is or applies a record. -/
theorem Graph.get_of_record? (h : g.record? id = some c) : g.get id = .ok (.complex c) ∨
    ∃ definition arguments, g.get id = .ok (.instantiation definition arguments) ∧
      g.model.get definition = .ok (.complex c) := by
  unfold Graph.record? at h
  split at h
  · rename_i hd
    cases h
    exact .inl hd
  · rename_i hd
    split at h
    · rename_i hc
      cases h
      exact .inr ⟨_, _, hd, hc⟩
    · cases h
  · cases h

/-- The record is one of the model. -/
theorem Graph.WellFormed.exists_of_record? (hg : g.WellFormed) (h : g.record? id = some c) :
    ∃ i, g.model.get i = .ok (.complex c) := by
  rcases Graph.get_of_record? h with hd | ⟨definition, -, -, hc⟩
  · exact ⟨id, hg.get_model_of_not_composite hd rfl⟩
  · exact ⟨definition, hc⟩

end Chains

/-! ### Gathering along a chain -/

section Gathering

variable {a : Arena} {depth : Nat} {bindings bindings' : List (String × TypeTree)} {t : TypeTree}
  {c : ComplexType} {members : List TreeMember}

/-- What has been gathered for a record consists of its own members and of those of its base. -/
theorem gather_eq_some (h : gather a depth bindings t = some members) :
    ∃ depth' c bindings' inherited, depth' < depth ∧ t.record? bindings = some (c, bindings') ∧
      members = ownMembers a bindings' c.members inherited ∧
      ∀ base, c.base = some base →
        gather a depth' bindings' (modelTree a base) = some inherited := by
  cases depth with
  | zero => cases h
  | succ depth =>
    simp only [gather, Option.bind_eq_bind, Option.bind_eq_some_iff] at h
    obtain ⟨⟨c, bindings'⟩, hrecord, h⟩ := h
    cases hbase : c.base with
    | none =>
      simp only [hbase, Option.bind_some, Option.some.injEq] at h
      exact ⟨depth, c, bindings', [], Nat.lt_succ_self _, hrecord, h.symm, by simp [hbase]⟩
    | some base =>
      simp only [hbase, Option.bind_eq_some_iff, Option.some.injEq] at h
      obtain ⟨inherited, hinherited, heq⟩ := h
      refine ⟨depth, c, bindings', inherited, Nat.lt_succ_self _, hrecord, heq.symm,
        fun base' hbase' => ?_⟩
      cases hbase.symm.trans hbase'
      exact hinherited

/-- The parameters that are bound within a record are its own ones or were bound before. -/
theorem TypeTree.lookup_record? (h : t.record? bindings = some (c, bindings')) {name : String}
    (hbindings : bindings.lookup name = none) (hname : name ∉ c.typeParams) :
    bindings'.lookup name = none := by
  cases t with
  | record id c =>
    cases h
    exact hbindings
  | instantiation definition c arguments =>
    cases h
    refine List.lookup_eq_none_iff.mpr fun binding hbinding => ?_
    have hmem := (List.of_mem_zip (List.mem_reverse.mp hbinding)).1
    rw [bne_iff_ne]
    rintro rfl
    exact hname hmem
  | _ => cases h

end Gathering

section Chains

variable {g : Graph} {id base : Nat} {below : List ComplexType} {c : ComplexType} {depth : Nat}
  {bindings : List (String × TypeTree)} {members : List TreeMember}

/-- One link of a chain: the members of the base have been gathered too. Those that the record does
not declare again are kept, and no parameters are bound but its own and those bound before. -/
theorem Graph.WellFormed.gather_base (hg : g.WellFormed) (hid : id < g.size)
    (h : gather g.model depth bindings (g.tree id) = some members) (hc : g.record? id = some c)
    (hbase : c.base = some base) : base < g.size ∧ ∃ depth' bindings' inherited,
      depth' < depth ∧ gather g.model depth' bindings' (g.tree base) = some inherited ∧
      (∀ m ∈ inherited, (∀ own ∈ c.members, own.name ≠ m.name) → m ∈ members) ∧
      ∀ name, bindings.lookup name = none → name ∉ c.typeParams →
        bindings'.lookup name = none := by
  obtain ⟨depth', c', bindings', inherited, hdepth, hrecord, rfl, hinherited⟩ := gather_eq_some h
  cases (hg.record?_tree hid hrecord).symm.trans hc
  obtain ⟨i, hi⟩ := hg.exists_of_record? hc
  have hlt : base < g.model.size := (hg.model.fits hi).1 base hbase
  have hinherited := hinherited base hbase
  rw [hg.modelTree_eq hlt] at hinherited
  exact ⟨Nat.lt_add_right _ hlt, depth', bindings', inherited, hdepth, hinherited,
    fun m hm hown => mem_ownMembers_of_inherited hm hown,
    fun name hname => TypeTree.lookup_record? hrecord hname⟩

/-- A whole chain, link by link. -/
theorem Chain.gather (h : Chain g id below base) (hg : g.WellFormed) (hid : id < g.size)
    (hmembers : (g.tree id).members? g.model = some members) :
    base < g.size ∧ ∃ depth bindings inherited,
      Walk.gather g.model depth bindings (g.tree base) = some inherited ∧
      (∀ m ∈ inherited, (∀ r ∈ below, ∀ own ∈ r.members, own.name ≠ m.name) → m ∈ members) ∧
      ∀ name, (∀ r ∈ below, name ∉ r.typeParams) → bindings.lookup name = none := by
  induction h with
  | start => exact ⟨hid, _, _, members, hmembers, fun m hm _ => hm, fun _ _ => rfl⟩
  | step _ hc hbase ih =>
    obtain ⟨hmid, depth, bindings, inherited, hgather, hkept, hbound⟩ := ih
    obtain ⟨hlt, depth', bindings', inherited', -, hgather', hkept', hbound'⟩ :=
      hg.gather_base hmid hgather hc hbase
    refine ⟨hlt, depth', bindings', inherited', hgather', fun m hm hbelow => ?_,
      fun name hname => ?_⟩
    · rw [List.forall_mem_cons] at hbelow
      exact hkept m (hkept' m hm hbelow.1) hbelow.2
    · rw [List.forall_mem_cons] at hname
      exact hbound' name (hbound name hname.2) hname.1

/-- A record whose members can be gathered has a chain of bases that ends. -/
theorem Graph.WellFormed.acc_above (hg : g.WellFormed) (hid : id < g.size)
    (h : gather g.model depth bindings (g.tree id) = some members)
    (hc : g.record? id = some c) : Acc g.Above c := by
  induction depth using Nat.strongRecOn generalizing id bindings members c with
  | ind depth ih =>
    refine .intro c fun c' habove => ?_
    obtain ⟨base, hbase, hc'⟩ := habove
    obtain ⟨hlt, depth', bindings', inherited, hdepth, hgather, -⟩ := hg.gather_base hid h hc hbase
    exact ih depth' hdepth hlt hgather hc'

/-- A chain along which members can be gathered never comes back to a record. -/
theorem Chain.notMem_below (h : Chain g id below base) (hg : g.WellFormed) (hid : id < g.size)
    (hmembers : (g.tree id).members? g.model = some members) (hc : g.record? base = some c) :
    c ∉ below := by
  have hirrefl {c : ComplexType} (hacc : Acc (Relation.TransGen g.Above) c) :
      ¬ Relation.TransGen g.Above c c := by
    induction hacc with
    | intro c _ ih => exact fun hcircle => ih c hcircle hcircle
  obtain ⟨hlt, depth, bindings, inherited, hgather, -⟩ := h.gather hg hid hmembers
  exact fun hmem => hirrefl (hg.acc_above hlt hgather hc).transGen (h.above hc c hmem)

end Chains

/-! ### Capture -/

/-- Each type parameter in the members that are kept of a record has the name of a type parameter of
some record below it on a chain of bases. -/
def Captured (a : Arena) (below : List ComplexType) (c : ComplexType) : Prop :=
  ∀ m ∈ c.members, (∀ r ∈ below, ∀ own ∈ r.members, own.name ≠ m.name) →
    ∀ name, (modelTree a m.type).Mentions name → ∃ r ∈ below, name ∈ r.typeParams

/-- A base comes with all arguments that it needs: it is a record without type parameters or an
instantiation. -/
def Supplied (g : Graph) (base : TypeId) : Prop :=
  (∃ c, g.get base = .ok (.complex c) ∧ c.isGeneric = false) ∨
    ∃ definition arguments c, g.get base = .ok (.instantiation definition arguments) ∧
      g.model.get definition = .ok (.complex c) ∧ c.typeParams.length = arguments.length

/-- Every generic record that is named directly as a base has a member with a type parameter in it,
and no other record declares a member or a type parameter with these names. -/
def BasesTell (a : Arena) : Prop :=
  ∀ (i base : TypeId) (r c : ComplexType), a.get i = .ok (.complex r) → r.base = some base →
    a.get base = .ok (.complex c) → c.isGeneric = true →
    ∃ m ∈ c.members, ∃ name, (modelTree a m.type).Mentions name ∧
      ∀ (j : TypeId) (other : ComplexType), a.get j = .ok (.complex other) → other ≠ c →
        name ∉ other.typeParams ∧ ∀ own ∈ other.members, own.name ≠ m.name

section Units

variable {options : Options} {g : Graph} {registry : Registry} {id base : Nat}
  {below : List ComplexType} {c : ComplexType} {unit : Completed}

/-- The members of a unit whose type has a base have been gathered. -/
theorem Chain.exists_members (h : Chain g id below base) (hg : g.WellFormed) (hne : below ≠ [])
    (hunit : UnitOf options g.model registry (g.tree id) unit) :
    ∃ members, (g.tree id).members? g.model = some members := by
  obtain ⟨c, hc, -⟩ := h.exists_start hne
  have henum : ∀ i e, g.tree id ≠ .enum i e := by
    intro i e htree
    rcases Graph.get_of_record? hc with hd | ⟨definition, arguments, hd, hc⟩
    · rw [hg.tree_eq hd] at htree
      cases htree
    · rw [hg.tree_instantiation hd hc] at htree
      cases htree
  obtain ⟨members, -, hmembers, -⟩ := TypeTree.exists_fields henum hunit.declaration
  exact ⟨members, hmembers⟩

/-- The parameters of a record named directly are captured. -/
theorem Chain.captured (h : Chain g id below base) (hg : g.WellFormed) (hid : id < g.size)
    (hne : below ≠ []) (hunit : UnitOf options g.model registry (g.tree id) unit)
    (hbase : g.get base = .ok (.complex c)) : Captured g.model below c := by
  obtain ⟨members, hmembers⟩ := h.exists_members hg hne hunit
  obtain ⟨-, depth, bindings, inherited, hgather, hkept, hbound⟩ := h.gather hg hid hmembers
  obtain ⟨_, c', bindings', above, -, hrecord, rfl, -⟩ := gather_eq_some hgather
  rw [hg.tree_eq hbase] at hrecord
  cases hrecord
  have hnames : (c.members.map (·.name)).Nodup := (hg.fits hbase).2.2
  intro m hm hbelow name hmentions
  by_contra hnone
  simp only [not_exists, not_and] at hnone
  -- Nothing is bound to the parameter, so it is still there in the member of the unit.
  have hmem := hkept _ (mem_ownMembers_own hm hnames) hbelow
  obtain ⟨e, he⟩ := hunit.exists_expr? hmembers hmem
  have hscope := (hmentions.replace (hbound name hnone)).mem_scope he
  obtain ⟨start, hstart, hstartBelow⟩ := h.exists_start hne
  rcases Graph.get_of_record? hstart with hd | ⟨definition, arguments, hd, hc⟩
  · rw [hg.tree_eq hd] at hscope
    exact hnone start hstartBelow hscope
  · rw [hg.tree_instantiation hd hc] at hscope
    cases hscope

/-- Where records that are bases tell, every base comes with its arguments. -/
theorem Chain.supplied (h : Chain g id below base) (hg : g.WellFormed) (hid : id < g.size)
    (hne : below ≠ []) (hunit : UnitOf options g.model registry (g.tree id) unit)
    (htell : BasesTell g.model) : Supplied g base := by
  obtain ⟨members, hmembers⟩ := h.exists_members hg hne hunit
  obtain ⟨hlt, depth, bindings, inherited, hgather, -⟩ := h.gather hg hid hmembers
  obtain ⟨_, c, bindings', above, -, hrecord, -⟩ := gather_eq_some hgather
  have hc := hg.record?_tree hlt hrecord
  rcases Graph.get_of_record? hc with hd | ⟨definition, arguments, hd, hdefinition⟩
  · refine .inl ⟨c, hd, ?_⟩
    by_contra hgeneric
    rw [Bool.not_eq_false] at hgeneric
    have hbelow := h.notMem_below hg hid hmembers hc
    have hcaptured := h.captured hg hid hne hunit hd
    have hmodel := hg.get_model_of_not_composite hd rfl
    obtain ⟨i, r, hr, hbase⟩ : ∃ i r, g.model.get i = .ok (.complex r) ∧ r.base = some base := by
      cases h with
      | start => exact absurd rfl hne
      | step _ hmid hbase =>
        obtain ⟨i, hi⟩ := hg.exists_of_record? hmid
        exact ⟨i, _, hi, hbase⟩
    obtain ⟨m, hm, name, hmentions, hother⟩ := htell i base r c hr hbase hmodel hgeneric
    have halone {r : ComplexType} (hr : r ∈ below) :
        name ∉ r.typeParams ∧ ∀ own ∈ r.members, own.name ≠ m.name := by
      obtain ⟨mid, hmid⟩ := h.record?_of_mem_below hr
      obtain ⟨j, hj⟩ := hg.exists_of_record? hmid
      exact hother j r hj fun heq => hbelow (heq ▸ hr)
    obtain ⟨r, hr, hname⟩ := hcaptured m hm (fun r hr => (halone hr).2) name hmentions
    exact (halone hr).1 hname
  · obtain ⟨c', hc', hlength, -⟩ := hg.definition hd
    exact .inr ⟨definition, arguments, c', hd, hc', hlength⟩

end Units

/-- In a walk that succeeds, a base of a unit that is a record named directly has its type
parameters captured. Where the records that are bases tell, every base of a unit comes with its
arguments. -/
theorem walk_bases {d : ModelDocument} {m : LoadedModel} {options : Options} {roots : List TypeId}
    {units : List Completed} (hload : load d = .ok m)
    (hroots : ∀ id : Nat, id ∈ roots → id < d.definitions.length)
    (hwalk : walk ⟨options, fun _ => none⟩ .empty m.model roots = .ok units) :
    ∃ s, explore ⟨options, fun _ => none⟩ .empty m.model roots = .ok s ∧
      ∀ unit ∈ units, ∃ id, identity s.graph id = .ok unit.key ∧
        UnitOf options m.model s.progress.units (s.graph.tree id) unit ∧
        ∀ below base, Chain s.graph id below base → below ≠ [] →
          (∀ c, s.graph.get base = .ok (.complex c) → Captured m.model below c) ∧
          (BasesTell m.model → Supplied s.graph base) := by
  obtain ⟨trees, s, h⟩ := exists_walked hload (fun _ => rfl) hroots hwalk
  have hg := h.sound.graph
  refine ⟨s, h.explored, fun unit hunit => ?_⟩
  obtain ⟨i, hi⟩ := List.mem_iff_getElem?.mp hunit
  obtain ⟨-, t, ht, hunitOf⟩ := h.unit i unit hi
  obtain ⟨id, hid, rfl⟩ := h.sound.source t (List.mem_of_getElem? ht)
  refine ⟨id, by rw [identity_eq hg hid, hunitOf.key], hunitOf, fun below base hchain hne => ?_⟩
  rw [← h.model] at hunitOf ⊢
  exact ⟨fun c hc => hchain.captured hg hid hne hunitOf hc,
    fun htell => hchain.supplied hg hid hne hunitOf htell⟩

/-- A generic record that another one extends without arguments, and a use of the latter. -/
def replies : ModelDocument :=
  ⟨[], [
    .complex ⟨"Envelope", none, ["T"], none, [⟨"data", .parameter "T", false, false, none⟩]⟩,
    .complex ⟨"Reply", none, ["T"], some (.ref "Envelope"), []⟩,
    .complex ⟨"Holder", none, [], none,
      [⟨"reply", .generic "Reply" [.primitive .integer], false, false, none⟩]⟩]⟩

/-- The model of these records. -/
def repliesModel : LoadedModel :=
  ⟨⟨#[some (.complex ⟨"Envelope", none, ["T"], none, [⟨"data", 3, false, false, none⟩]⟩),
      some (.complex ⟨"Reply", none, ["T"], some 0, []⟩),
      some (.complex ⟨"Holder", none, [], none, [⟨"reply", 5, false, false, none⟩]⟩),
      some (.parameter "T"), some (.primitive .integer), some (.instantiation 1 [4])]⟩,
    [], [("Envelope", 0), ("Reply", 1), ("Holder", 2)]⟩

/-- The document of replies loads. -/
theorem load_replies : load replies = .ok repliesModel := rfl

/-- A walk from the holder writes the reply that it has. -/
theorem walk_replies : walk ⟨{}, fun _ => none⟩ .empty repliesModel.model [2] =
    .ok [⟨0, "Holder", ⟨"Holder", none, []⟩,
        ⟨.alias "Holder" [] (.object [⟨"reply", .reference 1 "ReplyOfInteger", false, none⟩]),
          [1]⟩⟩,
      ⟨1, "Reply\x601[integer]", ⟨"ReplyOfInteger", none, []⟩,
        ⟨.alias "ReplyOfInteger" [] (.object [⟨"data", .keyword .number, false, none⟩]),
          []⟩⟩] := by
  decide +kernel

/-- Whatever the bases of the reply are, their type parameters are captured. -/
theorem walk_bases_replies :
    ∃ (s : State) (id : TypeId) (unit : Completed),
      explore ⟨{}, fun _ => none⟩ .empty repliesModel.model [2] = .ok s ∧
      unit.key = "Reply\x601[integer]" ∧ identity s.graph id = .ok unit.key ∧
      ∀ below base c, Chain s.graph id below base → below ≠ [] →
        s.graph.get base = .ok (.complex c) → Captured repliesModel.model below c := by
  have hroots : ∀ id : Nat, id ∈ [2] → id < replies.definitions.length := by decide
  obtain ⟨s, hexplore, hbases⟩ := walk_bases load_replies hroots walk_replies
  obtain ⟨id, hidentity, -, hchains⟩ := hbases _ (List.mem_cons_of_mem _ List.mem_cons_self)
  exact ⟨s, id, _, hexplore, rfl, hidentity,
    fun below base c hchain hne => (hchains below base hchain hne).1 c⟩

/-- The generic record is named directly as a base and no error is reported: its type parameter is
captured and becomes the argument of the record that extends it. -/
theorem replies_captured :
    ∃ (s : State) (unit : Completed) (envelope reply : ComplexType),
      load replies = .ok repliesModel ∧
      explore ⟨{}, fun _ => none⟩ .empty repliesModel.model [2] = .ok s ∧
      (∃ units, walk ⟨{}, fun _ => none⟩ .empty repliesModel.model [2] = .ok units ∧
        unit ∈ units) ∧
      identity s.graph 5 = .ok unit.key ∧ Chain s.graph 5 [reply] 0 ∧
      s.graph.get 0 = .ok (.complex envelope) ∧ envelope.isGeneric = true ∧
      unit.body.declaration =
        .alias "ReplyOfInteger" [] (.object [⟨"data", .keyword .number, false, none⟩]) := by
  have hexplored : (explore ⟨{}, fun _ => none⟩ .empty repliesModel.model [2]).map
      (fun s => (identity s.graph 5, s.graph.record? 5, s.graph.get 0)) =
        .ok (.ok "Reply\x601[integer]", some ⟨"Reply", none, ["T"], some 0, []⟩,
          .ok (.complex ⟨"Envelope", none, ["T"], none, [⟨"data", 3, false, false, none⟩]⟩)) := by
    decide +kernel
  obtain ⟨s, hexplore, heq⟩ := exists_of_map_eq_ok hexplored
  simp only [Prod.mk.injEq] at heq
  obtain ⟨hidentity, hrecord, hget⟩ := heq
  exact ⟨s, _, _, _, load_replies, hexplore,
    ⟨_, walk_replies, List.mem_cons_of_mem _ List.mem_cons_self⟩, hidentity,
    .step .start hrecord rfl, hget, rfl, rfl⟩

end Declgen.Walk
