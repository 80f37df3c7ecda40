import Declgen.Proofs.Outcome
import Declgen.Proofs.Types.Unfolding
import Declgen.Walk.Substitution

/-!
# What a walk reads off a type

Identities, names, headers and the search for type parameters follow the numbers of a graph. In a
well-formed graph none of them meets a type within itself, and each is a function of the tree.
The only way to fail is a name with too many levels.
-/

namespace Declgen

/-- The causes that a loaded document may have. The others mean that a type contains itself, that a
member is repeated, or that a type without a name was taken for one with a name. -/
def Unsupported.Possible : Unsupported → Prop
  | .containsItself | .repeatedMember _ | .notDeclarable _ | .notNamed _ => False
  | _ => True

/-- The errors that a loaded document may cause: two types with one name, or a type that has no form
for a possible cause. -/
def GenerateError.Possible : GenerateError → Prop
  | .unsupported _ cause => cause.Possible
  | .ambiguousName .. => True
  | _ => False

end Declgen

namespace Declgen.Walk

open Model Declgen.Units

variable {g : Graph} {id : Nat}

/-- No type stands below itself: everything above it has a greater number. -/
private theorem not_contains_of_lt {above : List TypeId} (h : ∀ a : Nat, a ∈ above → id < a) :
    above.contains id = false := by
  simp only [List.contains_eq_mem, decide_eq_false_iff_not]
  exact fun hmem => Nat.lt_irrefl id (h id hmem)

/-- A part of a type comes before the type and all that stands above it. -/
theorem lt_of_mem_above {above : List TypeId} {part : Nat} (hpart : part < id)
    (h : ∀ a : Nat, a ∈ above → id < a) : ∀ a : Nat, a ∈ id :: above → part < a := by
  intro a ha
  rcases List.mem_cons.mp ha with rfl | ha
  · exact hpart
  · exact Nat.lt_trans hpart (h a ha)

/-- A type is not among types above it, as these have larger numbers. -/
theorem contains_above_eq_false {above : List TypeId} (h : ∀ a : Nat, a ∈ above → id < a) :
    ¬ above.contains id = true := by
  rw [not_contains_of_lt h]
  exact Bool.false_ne_true

/-! ### Identities -/

/-- A look that is deep enough spells the tree of a type. -/
theorem identityWithin_eq (hg : g.WellFormed) {depth : Nat} {above : List TypeId}
    (hid : id < g.size) (hdepth : id < depth) (habove : ∀ a : Nat, a ∈ above → id < a) :
    identityWithin g depth above id = .ok (g.tree id).spelling := by
  induction depth generalizing id above with
  | zero => omega
  | succ depth ih =>
    obtain ⟨d, hd, hfits⟩ := hg.exists_get hid
    have hpart (i : Nat) (hi : i < id) :
        identityWithin g depth (id :: above) i = .ok (g.tree i).spelling :=
      ih (by omega) (by omega) (lt_of_mem_above hi habove)
    rw [identityWithin, if_neg (contains_above_eq_false habove), hd, hg.tree_eq hd]
    cases d with
    | primitive kind => rfl
    | enum e => rfl
    | complex c => rfl
    | parameter name => rfl
    | nullable inner =>
      simp only [hpart inner hfits, bind, Except.bind]
      rfl
    | array element =>
      simp only [hpart element hfits, bind, Except.bind]
      rfl
    | dictionary key value =>
      simp only [hpart key hfits.1, hpart value hfits.2, bind, Except.bind]
      rfl
    | instantiation definition arguments =>
      obtain ⟨hdefinition, harguments, -, c, hc, -⟩ := hfits
      have htree : g.tree definition = .record definition c := hg.tree_eq (Graph.get_model hc)
      have hlist := mapM_eq_ok fun i hi => hpart i (harguments i hi)
      simp only [hpart definition hdefinition, hlist, htree, treeOf, hc, bind, Except.bind,
        TypeTree.spelling, TypeTree.spellings_eq_map, List.map_map]
      rfl

/-- The identity of a type is the spelling of its tree. -/
theorem identity_eq (hg : g.WellFormed) (hid : id < g.size) :
    identity g id = .ok (g.tree id).spelling :=
  identityWithin_eq hg hid (by omega) (by simp)

/-! ### Type parameters -/

/-- A look that is deep enough finds the parameters in the tree of a type. -/
theorem mentionsParameterWithin_eq (hg : g.WellFormed) {depth : Nat} {above : List TypeId}
    (hid : id < g.size) (hdepth : id < depth) (habove : ∀ a : Nat, a ∈ above → id < a) :
    mentionsParameterWithin g depth above id = .ok (g.tree id).hasParameter := by
  induction depth generalizing id above with
  | zero => omega
  | succ depth ih =>
    obtain ⟨d, hd, hfits⟩ := hg.exists_get hid
    have hpart (i : Nat) (hi : i < id) :
        mentionsParameterWithin g depth (id :: above) i = .ok (g.tree i).hasParameter :=
      ih (by omega) (by omega) (lt_of_mem_above hi habove)
    rw [mentionsParameterWithin, if_neg (contains_above_eq_false habove), hd, hg.tree_eq hd]
    cases d with
    | primitive kind => rfl
    | enum e => rfl
    | complex c => rfl
    | parameter name => rfl
    | nullable inner => exact hpart inner hfits
    | array element => exact hpart element hfits
    | dictionary key value =>
      simp only [hpart key hfits.1, hpart value hfits.2, bind, Except.bind, treeOf,
        TypeTree.hasParameter]
      cases (g.tree key).hasParameter <;> rfl
    | instantiation definition arguments =>
      obtain ⟨-, harguments, -, c, hc, -⟩ := hfits
      have hlist := mapM_eq_ok fun i hi => hpart i (harguments i hi)
      simp only [hlist, treeOf, hc, bind, Except.bind, TypeTree.hasParameter,
        TypeTree.anyHasParameter_eq_any, List.any_map]
      rfl

/-- Whether a type mentions a parameter is told by its tree. -/
theorem mentionsParameter_eq (hg : g.WellFormed) (hid : id < g.size) :
    mentionsParameter g id = .ok (g.tree id).hasParameter :=
  mentionsParameterWithin_eq hg hid (by omega) (by simp)

/-! ### Names and headers -/

/-- The name made for a type is that of its tree, unless it has too many levels. -/
theorem synthesizedWithin_outcome (hg : g.WellFormed) {levels : Nat} {above : List TypeId}
    (hid : id < g.size) (habove : ∀ a : Nat, a ∈ above → id < a) :
    Outcome (fun name => (g.tree id).name? levels = some name) GenerateError.Possible
      (synthesizedWithin g levels above id) := by
  induction levels generalizing id above with
  | zero =>
    rw [synthesizedWithin, if_neg (contains_above_eq_false habove)]
    trivial
  | succ levels ih =>
    obtain ⟨d, hd, hfits⟩ := hg.exists_get hid
    have hpart (i : Nat) (hi : i < id) :
        Outcome (fun name => (g.tree i).name? levels = some name) GenerateError.Possible
          (synthesizedWithin g levels (id :: above) i) :=
      ih (by omega) (lt_of_mem_above hi habove)
    rw [synthesizedWithin, if_neg (contains_above_eq_false habove), hd, hg.tree_eq hd]
    cases d with
    | primitive kind => exact rfl
    | enum e => exact rfl
    | complex c => exact rfl
    | parameter name => exact rfl
    | nullable inner =>
      refine (hpart inner hfits).bind fun name hname => ?_
      simp [treeOf, TypeTree.name?, hname]
    | array element =>
      refine (hpart element hfits).bind fun name hname => ?_
      simp [treeOf, TypeTree.name?, hname]
    | dictionary key value =>
      refine (hpart key hfits.1).bind fun first hfirst => ?_
      refine (hpart value hfits.2).bind fun second hsecond => ?_
      simp [treeOf, TypeTree.name?, hfirst, hsecond]
    | instantiation definition arguments =>
      obtain ⟨hdefinition, harguments, -, c, hc, -⟩ := hfits
      have htree : g.tree definition = .record definition c := hg.tree_eq (Graph.get_model hc)
      refine (hpart definition hdefinition).bind fun first hfirst => ?_
      refine (Outcome.mapM_option fun i hi => hpart i (harguments i hi)).bind fun rest hrest => ?_
      rw [htree] at hfirst
      have hrest' : (arguments.map g.tree).mapM (TypeTree.name? levels) = some rest := by
        rw [List.mapM_map]
        exact hrest
      simp [treeOf, hc, TypeTree.name?, hfirst, hrest']

/-- The header of a named type is that of its tree, unless its name has too many levels. -/
theorem header_outcome (hg : g.WellFormed) (hid : id < g.size)
    (hnamed : (g.tree id).isNamed = true) :
    Outcome (fun h => (g.tree id).header? = some h) GenerateError.Possible (header g id) := by
  obtain ⟨d, hd, -⟩ := hg.exists_get hid
  have htree := hg.tree_eq hd
  rw [htree] at hnamed
  unfold header
  rw [hd]
  cases d with
  | primitive kind => cases hnamed
  | nullable inner => cases hnamed
  | array element => cases hnamed
  | dictionary key value => cases hnamed
  | parameter name => cases hnamed
  | enum e =>
    rw [htree]
    exact rfl
  | complex c =>
    rw [htree]
    exact rfl
  | instantiation definition arguments =>
    obtain ⟨c, hc, -, hdefinition⟩ := hg.definition hd
    have habove : ∀ a : Nat, a ∈ ([] : List TypeId) → id < a := by simp
    have hname : Outcome _ _ (synthesizedName g id) := synthesizedWithin_outcome hg hid habove
    rw [hg.tree_instantiation hd hc] at hname ⊢
    simp only [hdefinition, bind, Except.bind]
    exact hname.bind fun name hname => by simp [TypeTree.header?, hname]

end Declgen.Walk
