import Declgen.Proofs.Types.Tree

/-!
# Well-formed graphs

In a well-formed graph every part of a type has a smaller number than the type itself, so a type
never contains itself and can be written out as a tree. The types that a walk adds keep a graph
well-formed and leave the trees of all others as they are.
-/

namespace Declgen.Model

/-- Whether a type is put together from other types. -/
def Descriptor.isComposite : Descriptor → Bool
  | .nullable _ | .array _ | .dictionary .. | .instantiation .. => true
  | _ => false

namespace Arena

/-- Whether some type of the model instantiates a record. -/
def Instantiates (a : Arena) (definition : TypeId) : Prop :=
  ∃ id arguments, a.get id = .ok (.instantiation definition arguments)

/-- What is asked of the type with number `id`: its parts come before it, an instantiation gives a
record that the model instantiates as many arguments as it has parameters, and a record refers to
types of the model only and names each of its members once. -/
def Fits (a : Arena) (id : Nat) : Descriptor → Prop
  | .primitive _ | .enum _ | .parameter _ => True
  | .complex c =>
    (∀ base : Nat, c.base = some base → base < a.size) ∧
      (∀ type : Nat, type ∈ c.members.map (·.type) → type < a.size) ∧
      (c.members.map (·.name)).Nodup
  | .nullable (inner : Nat) => inner < id
  | .array (element : Nat) => element < id
  | .dictionary (key : Nat) (value : Nat) => key < id ∧ value < id
  | .instantiation (definition : Nat) arguments =>
    definition < id ∧ (∀ argument : Nat, argument ∈ arguments → argument < id) ∧
      a.Instantiates definition ∧
      ∃ c, a.get definition = .ok (.complex c) ∧ c.typeParams.length = arguments.length

/-- Every slot is defined and holds a type that fits its place. -/
def WellFormed (a : Arena) : Prop := ∀ id : Nat, id < a.size → ∃ d, a.get id = .ok d ∧ a.Fits id d

/-- No two records or enumerations have the same qualified name. -/
def NamesDistinct (a : Arena) : Prop :=
  ∀ ⦃i j d e name⦄, a.get i = .ok d → a.get j = .ok e → d.qualifiedName? = some name →
    e.qualifiedName? = some name → i = j

/-- A type of a model is what its slot holds. -/
theorem get_eq_ok_iff {a : Arena} {id : Nat} {d : Descriptor} :
    a.get id = .ok d ↔ a.slots[id]? = some (some d) := by
  unfold get
  constructor
  · intro h
    split at h
    · cases h
    · cases h
    · rename_i hslot
      cases h
      exact hslot
  · intro h
    simp only [h]

/-- The types of a model have numbers below its size. -/
theorem get_lt {a : Arena} {id : Nat} {d : Descriptor} (h : a.get id = .ok d) : id < a.size :=
  (Array.getElem?_eq_some_iff.mp (get_eq_ok_iff.mp h)).1

/-- Every type of a well-formed model fits its place. -/
theorem WellFormed.fits {a : Arena} (ha : a.WellFormed) {id : Nat} {d : Descriptor}
    (h : a.get id = .ok d) : a.Fits id d := by
  obtain ⟨e, he, hfits⟩ := ha id (get_lt h)
  rw [h] at he
  cases he
  exact hfits

end Arena

end Declgen.Model

namespace Declgen.Walk

open Model

/-- The tree of a type, from the trees of its parts. The last case does not arise in a
well-formed graph. -/
def treeOf (a : Arena) (id : TypeId) (part : TypeId → TypeTree) : Descriptor → TypeTree
  | .primitive kind => .primitive kind
  | .enum e => .enum id e
  | .complex c => .record id c
  | .parameter name => .parameter name
  | .nullable inner => .nullable (part inner)
  | .array element => .array (part element)
  | .dictionary key value => .dictionary (part key) (part value)
  | .instantiation definition arguments =>
    match a.get definition with
    | .ok (.complex c) => .instantiation definition c (arguments.map part)
    | _ => .parameter (showId id)

namespace Graph

/-- The tree of a type that is at most `depth` levels deep. -/
def treeWithin (g : Graph) : Nat → TypeId → TypeTree
  | 0, id => .parameter (showId id)
  | depth + 1, id =>
    match g.get id with
    | .ok d => treeOf g.model id (treeWithin g depth) d
    | .error _ => .parameter (showId id)

/-- A type written out in full. Its parts have smaller numbers, so `id` bounds its depth. -/
def tree (g : Graph) (id : TypeId) : TypeTree := g.treeWithin (id + 1) id

/-- The model is well-formed, and all other types are put together from types before them. -/
structure WellFormed (g : Graph) : Prop where
  /-- The types of the model fit. -/
  model : g.model.WellFormed
  /-- So do the others, and records and enumerations are not among them. -/
  made : ∀ i d, g.made[i]? = some d → d.isComposite = true ∧ g.model.Fits (g.model.size + i) d

/-- A graph holds all types of another one and possibly more. -/
structure Extends (g g' : Graph) : Prop where
  /-- The model stays the same. -/
  model : g'.model = g.model
  /-- Types are added at the end. -/
  made : g.made.toList <+: g'.made.toList

variable {g g' g'' : Graph} {id : Nat} {d : Descriptor}

/-! ### Reading a graph -/

/-- The types of the model are types of the graph. -/
theorem get_model (h : g.model.get id = .ok d) : g.get id = .ok d := by
  rw [get, if_pos (Arena.get_lt h), h]
  rfl

/-- A type of a graph is one of the model or has been made. -/
theorem get_cases (h : g.get id = .ok d) :
    g.model.get id = .ok d ∨ ∃ i, id = g.model.size + i ∧ g.made[i]? = some d := by
  unfold get at h
  split at h
  · left
    cases hget : g.model.get id with
    | ok e =>
      rw [hget] at h
      cases h
      rfl
    | error e =>
      rw [hget] at h
      cases h
  · right
    rename_i hid
    split at h
    · rename_i e hmade
      cases h
      have hle : g.model.size ≤ id := Nat.le_of_not_lt hid
      exact ⟨id - g.model.size, by omega, hmade⟩
    · cases h

/-- The types of a graph have numbers below its size. -/
theorem get_lt (h : g.get id = .ok d) : id < g.size := by
  unfold size
  rcases get_cases h with hmodel | ⟨i, rfl, hmade⟩
  · have := Arena.get_lt hmodel
    omega
  · have := (Array.getElem?_eq_some_iff.mp hmade).1
    omega

/-- Every type of a well-formed graph fits its place. -/
theorem WellFormed.fits (hg : g.WellFormed) (h : g.get id = .ok d) : g.model.Fits id d := by
  rcases get_cases h with hmodel | ⟨i, rfl, hmade⟩
  · exact hg.model.fits hmodel
  · exact (hg.made i d hmade).2

/-- In a well-formed graph every number below the size has a type, which fits its place. -/
theorem WellFormed.exists_get (hg : g.WellFormed) (hid : id < g.size) :
    ∃ d, g.get id = .ok d ∧ g.model.Fits id d := by
  by_cases hmodel : id < g.model.size
  · obtain ⟨d, hd, hfits⟩ := hg.model id hmodel
    exact ⟨d, get_model hd, hfits⟩
  · have hmade : id - g.model.size < g.made.size := by
      unfold size at hid
      omega
    have hget : g.get id = .ok g.made[id - g.model.size] := by
      rw [get, if_neg hmodel, Array.getElem?_eq_getElem hmade]
    exact ⟨_, hget, hg.fits hget⟩

/-- Only the model holds types that are not put together from others. -/
theorem WellFormed.get_model_of_not_composite (hg : g.WellFormed) (h : g.get id = .ok d)
    (hd : d.isComposite = false) : g.model.get id = .ok d := by
  rcases get_cases h with hmodel | ⟨i, rfl, hmade⟩
  · exact hmodel
  · rw [(hg.made i d hmade).1] at hd
    cases hd

/-- The record that an instantiation in a well-formed graph refers to. -/
theorem WellFormed.definition (hg : g.WellFormed) {definition : TypeId} {arguments : List TypeId}
    (h : g.get id = .ok (.instantiation definition arguments)) :
    ∃ c, g.model.get definition = .ok (.complex c) ∧ c.typeParams.length = arguments.length ∧
      g.definition definition arguments.length = .ok c := by
  obtain ⟨-, -, -, c, hc, hlength⟩ := hg.fits h
  refine ⟨c, hc, hlength, ?_⟩
  simp only [Graph.definition, Arena.genericDefinition, hc, if_pos hlength]
  rfl

/-! ### Growing a graph -/

/-- A graph extends itself. -/
theorem Extends.refl (g : Graph) : g.Extends g := ⟨rfl, List.prefix_refl _⟩

/-- An extension of an extension is one. -/
theorem Extends.trans (h : g.Extends g') (h' : g'.Extends g'') : g.Extends g'' :=
  ⟨h'.model.trans h.model, h.made.trans h'.made⟩

/-- A larger graph is no smaller. -/
theorem Extends.size_le (h : g.Extends g') : g.size ≤ g'.size := by
  have hlength := h.made.length_le
  simp only [Array.length_toList] at hlength
  unfold size
  rw [h.model]
  omega

/-- A type stays as it is in a larger graph. -/
theorem Extends.get (h : g.Extends g') (hd : g.get id = .ok d) : g'.get id = .ok d := by
  rcases get_cases hd with hmodel | ⟨i, rfl, hmade⟩
  · exact get_model (by rw [h.model]; exact hmodel)
  · have hnot : ¬ g.model.size + i < g.model.size := by omega
    rw [Graph.get, h.model, if_neg hnot, Nat.add_sub_cancel_left]
    obtain ⟨more, hmore⟩ := h.made
    have hi := (Array.getElem?_eq_some_iff.mp hmade).1
    rw [← Array.getElem?_toList] at hmade ⊢
    rw [← hmore, List.getElem?_append_left (by simpa using hi), hmade]

/-- The graph of a model, before anything is added. -/
def ofModel (a : Arena) : Graph := ⟨a, #[]⟩

/-- Every graph extends that of its model. -/
theorem ofModel_extends (g : Graph) : (ofModel g.model).Extends g :=
  ⟨rfl, List.nil_prefix⟩

/-- The graph of a well-formed model is well-formed. -/
theorem ofModel_wellFormed {a : Arena} (ha : a.WellFormed) : (ofModel a).WellFormed :=
  ⟨ha, fun i d h => by simp [ofModel] at h⟩

/-! ### Trees -/

/-- A deep enough look at a type gives its whole tree. -/
theorem WellFormed.treeWithin_eq (hg : g.WellFormed) {depth : Nat} (hid : id < g.size)
    (hdepth : id < depth) : g.treeWithin depth id = g.tree id := by
  induction id using Nat.strongRecOn generalizing depth with
  | ind id ih =>
    obtain ⟨depth, rfl⟩ : ∃ k, depth = k + 1 := ⟨depth - 1, by omega⟩
    obtain ⟨d, hd, hfits⟩ := hg.exists_get hid
    have hpart (i : Nat) (hi : i < id) : g.treeWithin depth i = g.treeWithin id i := by
      rw [ih i hi (by omega) (by omega), ih i hi (by omega) hi]
    simp only [tree, treeWithin, hd]
    cases d with
    | nullable inner => simp only [treeOf, hpart inner hfits]
    | array element => simp only [treeOf, hpart element hfits]
    | dictionary key value => simp only [treeOf, hpart key hfits.1, hpart value hfits.2]
    | instantiation definition arguments =>
      have hmap := List.map_congr_left fun i hi => hpart i (hfits.2.1 i hi)
      simp only [treeOf, hmap]
    | _ => rfl

/-- The tree of a type is put together from the trees of its parts. -/
theorem WellFormed.tree_eq (hg : g.WellFormed) (hd : g.get id = .ok d) :
    g.tree id = treeOf g.model id g.tree d := by
  have hid := get_lt hd
  have hfits := hg.fits hd
  have hpart (i : Nat) (hi : i < id) : g.treeWithin id i = g.tree i :=
    hg.treeWithin_eq (by omega) hi
  simp only [tree, treeWithin, hd]
  cases d with
  | nullable inner => simp only [treeOf, hpart inner hfits]
  | array element => simp only [treeOf, hpart element hfits]
  | dictionary key value => simp only [treeOf, hpart key hfits.1, hpart value hfits.2]
  | instantiation definition arguments =>
    have hmap := List.map_congr_left fun i hi => hpart i (hfits.2.1 i hi)
    simp only [treeOf, hmap]
  | _ => rfl

/-- The tree of an instantiation is that of its arguments, applied to the record. -/
theorem WellFormed.tree_instantiation (hg : g.WellFormed) {definition : TypeId}
    {arguments : List TypeId} (hd : g.get id = .ok (.instantiation definition arguments))
    {c : ComplexType} (hc : g.model.get definition = .ok (.complex c)) :
    g.tree id = .instantiation definition c (arguments.map g.tree) := by
  rw [hg.tree_eq hd]
  simp only [treeOf, hc]

/-- Adding types does not change the tree of a type. -/
theorem WellFormed.tree_extends (hg : g.WellFormed) (h : g.Extends g') (hid : id < g.size) :
    g'.tree id = g.tree id := by
  suffices hwithin : ∀ depth (i : Nat), i < g.size →
      g'.treeWithin depth i = g.treeWithin depth i from
    hwithin (id + 1) id hid
  intro depth
  induction depth with
  | zero => exact fun i _ => rfl
  | succ depth ih =>
    intro i hi
    obtain ⟨d, hd, hfits⟩ := hg.exists_get hi
    simp only [treeWithin, hd, h.get hd, h.model]
    cases d with
    | nullable inner => simp only [treeOf, ih inner (Nat.lt_trans hfits hi)]
    | array element => simp only [treeOf, ih element (Nat.lt_trans hfits hi)]
    | dictionary key value =>
      simp only [treeOf, ih key (Nat.lt_trans hfits.1 hi), ih value (Nat.lt_trans hfits.2 hi)]
    | instantiation definition arguments =>
      have hmap := List.map_congr_left fun i' hi' => ih i' (Nat.lt_trans (hfits.2.1 i' hi') hi)
      simp only [treeOf, hmap]
    | _ => rfl

/-- Neither the number of a composite type nor what is added after its parts counts for its
tree. -/
theorem WellFormed.treeOf_extends (hg : g.WellFormed) (h : g.Extends g')
    (hd : d.isComposite = true) (hfits : g.model.Fits g.size d) {i j : TypeId} :
    treeOf g'.model i g'.tree d = treeOf g.model j g.tree d := by
  cases d with
  | nullable inner => simp only [treeOf, hg.tree_extends h hfits]
  | array element => simp only [treeOf, hg.tree_extends h hfits]
  | dictionary key value =>
    simp only [treeOf, hg.tree_extends h hfits.1, hg.tree_extends h hfits.2]
  | instantiation definition arguments =>
    obtain ⟨-, harguments, -, c, hc, -⟩ := hfits
    have hmap := List.map_congr_left fun i hi => hg.tree_extends h (harguments i hi)
    simp only [treeOf, h.model, hc, hmap]
  | _ => cases hd

/-- A type of the model has the same tree in the model and in any graph over it. -/
theorem tree_ofModel {a : Arena} (ha : a.WellFormed) (hg : g.model = a) (hid : id < a.size) :
    g.tree id = (ofModel a).tree id := by
  subst hg
  refine (ofModel_wellFormed ha).tree_extends (ofModel_extends g) ?_
  simpa [ofModel, size] using hid

/-- The record behind an instantiation is one of the model and takes as many arguments. -/
theorem get_of_definition {definition : TypeId} {count : Nat} {c : ComplexType}
    (h : g.definition definition count = .ok c) :
    g.model.get definition = .ok (.complex c) ∧ c.typeParams.length = count := by
  unfold Graph.definition Arena.genericDefinition at h
  split at h
  · cases h
  · rename_i hget
    split at h
    · rename_i hlength
      cases h
      exact ⟨hget, hlength⟩
    · cases h
  · cases h

end Graph

/-- All that a tree is made of comes from a model, and every instantiation in it has as many
arguments as its record has parameters. -/
inductive TypeTree.Over (a : Arena) : TypeTree → Prop
  /-- A primitive type of the model. -/
  | primitive {id : TypeId} {kind : Primitive} (h : a.get id = .ok (.primitive kind)) :
    Over a (.primitive kind)
  /-- An enumeration of the model. -/
  | enum {id : TypeId} {e : EnumType} (h : a.get id = .ok (.enum e)) : Over a (.enum id e)
  /-- A record of the model. -/
  | record {id : TypeId} {c : ComplexType} (h : a.get id = .ok (.complex c)) : Over a (.record id c)
  /-- A type parameter of the model. -/
  | parameter {id : TypeId} {name : String} (h : a.get id = .ok (.parameter name)) :
    Over a (.parameter name)
  /-- Another type or null. -/
  | nullable {inner : TypeTree} (h : Over a inner) : Over a (.nullable inner)
  /-- A list. -/
  | array {element : TypeTree} (h : Over a element) : Over a (.array element)
  /-- A map. -/
  | dictionary {key value : TypeTree} (hkey : Over a key) (hvalue : Over a value) :
    Over a (.dictionary key value)
  /-- A record that the model instantiates, applied to arguments. -/
  | instantiation {definition : TypeId} {c : ComplexType} {arguments : List TypeTree}
    (h : a.get definition = .ok (.complex c)) (hinstantiates : a.Instantiates definition)
    (hlength : c.typeParams.length = arguments.length) (harguments : ∀ t ∈ arguments, Over a t) :
    Over a (.instantiation definition c arguments)

/-- The types of a well-formed graph are made from its model. -/
theorem Graph.WellFormed.tree_over {g : Graph} (hg : g.WellFormed) {id : Nat} (hid : id < g.size) :
    (g.tree id).Over g.model := by
  induction id using Nat.strongRecOn with
  | ind id ih =>
    obtain ⟨d, hd, hfits⟩ := hg.exists_get hid
    have hpart (i : Nat) (hi : i < id) : (g.tree i).Over g.model := ih i hi (Nat.lt_trans hi hid)
    rw [hg.tree_eq hd]
    cases d with
    | primitive kind => exact .primitive (hg.get_model_of_not_composite hd rfl)
    | enum e => exact .enum (hg.get_model_of_not_composite hd rfl)
    | complex c => exact .record (hg.get_model_of_not_composite hd rfl)
    | parameter name => exact .parameter (hg.get_model_of_not_composite hd rfl)
    | nullable inner => exact .nullable (hpart inner hfits)
    | array element => exact .array (hpart element hfits)
    | dictionary key value => exact .dictionary (hpart key hfits.1) (hpart value hfits.2)
    | instantiation definition arguments =>
      obtain ⟨-, harguments, hinstantiates, c, hc, hlength⟩ := hfits
      simp only [treeOf, hc]
      refine .instantiation hc hinstantiates (by simpa using hlength) fun t ht => ?_
      obtain ⟨i, hi, rfl⟩ := List.mem_map.mp ht
      exact hpart i (harguments i hi)

end Declgen.Walk
