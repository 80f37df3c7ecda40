import Declgen.Proofs.Types.Replacement
import Declgen.Walk.Conversion

/-!
# What a conversion does next

In a well-formed graph a type stands after all its parts, so a conversion that has as many levels
left as the number of its type never runs out of them and never meets a type within itself. What it
does next is told by the tree of the type. There is one lemma for each kind of tree, so that no
other proof looks into the conversion.
-/

namespace Declgen.Walk

open Model TypeScript Declgen.Units

/-! ### Types and their trees -/

/-- What a graph has at the place `i` of a type with a given tree. -/
def Graph.Shows (g : Graph) (i : Nat) : TypeTree → Prop
  | .primitive kind => g.get i = .ok (.primitive kind)
  | .enum _ e => g.get i = .ok (.enum e)
  | .record _ c => g.get i = .ok (.complex c)
  | .parameter name => g.get i = .ok (.parameter name)
  | .nullable t => ∃ inner : Nat, g.get i = .ok (.nullable inner) ∧ inner < i ∧ g.tree inner = t
  | .array t => ∃ element : Nat, g.get i = .ok (.array element) ∧ element < i ∧ g.tree element = t
  | .dictionary k v => ∃ key value : Nat, g.get i = .ok (.dictionary key value) ∧
    (key < i ∧ g.tree key = k) ∧ value < i ∧ g.tree value = v
  | .instantiation definition c ts => ∃ arguments : List TypeId,
    g.get i = .ok (.instantiation definition arguments) ∧
      g.model.get definition = .ok (.complex c) ∧
      g.definition definition arguments.length = .ok c ∧
      (∀ argument : Nat, argument ∈ arguments → argument < i) ∧ arguments.map g.tree = ts

/-- At each place of a type a well-formed graph has what the tree says. -/
theorem Graph.WellFormed.shows {g : Graph} (hg : g.WellFormed) {i : Nat} (hi : i < g.size) :
    g.Shows i (g.tree i) := by
  obtain ⟨d, hd, hfits⟩ := hg.exists_get hi
  rw [hg.tree_eq hd]
  cases d with
  | nullable inner => exact ⟨inner, hd, hfits, rfl⟩
  | array element => exact ⟨element, hd, hfits, rfl⟩
  | dictionary key value => exact ⟨key, value, hd, ⟨hfits.1, rfl⟩, hfits.2, rfl⟩
  | instantiation definition arguments =>
    obtain ⟨c, hc, -, hdefinition⟩ := hg.definition hd
    rw [← hg.tree_eq hd, hg.tree_instantiation hd hc]
    exact ⟨arguments, hd, hc, hdefinition, hfits.2.1, rfl⟩
  | _ => exact hd

/-! ### Looking at a type -/

variable {g : Graph} {i : Nat} {options : Options} {hook : Hook} {scope : List String}

/-- A conversion has come to the type `i`, which has the tree `t`, within the types `within` and
with as many levels left as it may need. -/
structure Look (g : Graph) (depth : Nat) (within : List TypeId) (i : Nat) (t : TypeTree) :
    Prop where
  /-- The type is in the graph. -/
  lt : i < g.size
  /-- It has this tree. -/
  tree : g.tree i = t
  /-- There are enough levels. -/
  deep : i < depth
  /-- It stands within later types. -/
  within : ∀ a : Nat, a ∈ within → i < a

section Look

variable {depth : Nat} {within : List TypeId} {t u : TypeTree}

/-- The graph shows what is looked at. -/
theorem Look.shows (h : Look g depth within i t) (hg : g.WellFormed) : g.Shows i t :=
  h.tree ▸ hg.shows h.lt

/-- There is a level left. -/
theorem Look.exists_depth (h : Look g depth within i t) : ∃ k, depth = k + 1 := by
  have hdeep := h.deep
  exact ⟨depth - 1, by omega⟩

/-- The type is not one of those that it stands within. -/
theorem Look.notMem (h : Look g depth within i t) : ¬ within.contains i = true :=
  contains_above_eq_false h.within

/-- The conversion can go on to an earlier type. -/
theorem Look.part (h : Look g (depth + 1) within i t) {part : Nat} (hpart : part < i) :
    Look g depth (i :: within) part (g.tree part) := by
  have hdeep := h.deep
  exact ⟨Nat.lt_trans hpart h.lt, rfl, by omega, lt_of_mem_above hpart h.within⟩

/-! ### What a conversion does next -/

section Steps

variable (hg : g.WellFormed) (hhook : ∀ d, hook d = none)
include hg hhook

/-- A primitive type becomes a keyword. -/
theorem Look.convert_primitive {kind : Primitive} (h : Look g depth within i (.primitive kind)) :
    convertWithin ⟨g, options, hook, scope⟩ depth within i =
      pure (.keyword (primitiveKeyword kind)) := by
  obtain ⟨depth, rfl⟩ := h.exists_depth
  rw [convertWithin, show g.get i = _ from h.shows hg, lift_ok_bind]
  simp only [hhook]
  rw [if_neg h.notMem]

/-- An enumeration is referred to. -/
theorem Look.convert_enum {id : TypeId} {e : EnumType} (h : Look g depth within i (.enum id e)) :
    convertWithin ⟨g, options, hook, scope⟩ depth within i = referenceTo g i := by
  obtain ⟨depth, rfl⟩ := h.exists_depth
  rw [convertWithin, show g.get i = _ from h.shows hg, lift_ok_bind]
  simp only [hhook]
  rw [if_neg h.notMem]

/-- A record is referred to, unless it is generic and has not got its arguments. -/
theorem Look.convert_record {id : TypeId} {c : ComplexType}
    (h : Look g depth within i (.record id c)) :
    convertWithin ⟨g, options, hook, scope⟩ depth within i = (do
      if c.isGeneric then
        throw (.unsupported c.qualifiedName (.missingArguments c.typeParams.length))
      referenceTo g i) := by
  obtain ⟨depth, rfl⟩ := h.exists_depth
  rw [convertWithin, show g.get i = _ from h.shows hg, lift_ok_bind]
  simp only [hhook]
  rw [if_neg h.notMem]

/-- A type parameter has to be in scope. -/
theorem Look.convert_parameter {name : String} (h : Look g depth within i (.parameter name)) :
    convertWithin ⟨g, options, hook, scope⟩ depth within i = (do
      if !scope.contains name then throw (.unsupported name .unboundParameter)
      pure (.parameter name)) := by
  obtain ⟨depth, rfl⟩ := h.exists_depth
  rw [convertWithin, show g.get i = _ from h.shows hg, lift_ok_bind]
  simp only [hhook]
  rw [if_neg h.notMem]

/-- A type that may be null becomes what it is otherwise, or null. -/
theorem Look.convert_nullable (h : Look g depth within i (.nullable t)) :
    ∃ (depth' : Nat) (inner : TypeId), Look g depth' (i :: within) inner t ∧
      convertWithin ⟨g, options, hook, scope⟩ depth within i = (do
        let e ← convertWithin ⟨g, options, hook, scope⟩ depth' (i :: within) inner
        return e.nullable) := by
  obtain ⟨depth, rfl⟩ := h.exists_depth
  obtain ⟨inner, hd, hinner, rfl⟩ := h.shows hg
  refine ⟨depth, inner, h.part hinner, ?_⟩
  rw [convertWithin, hd, lift_ok_bind]
  simp only [hhook]
  rw [if_neg h.notMem]

/-- An array is converted with its elements. -/
theorem Look.convert_array (h : Look g depth within i (.array t)) :
    ∃ (depth' : Nat) (element : TypeId), Look g depth' (i :: within) element t ∧
      convertWithin ⟨g, options, hook, scope⟩ depth within i = (do
        let e ← convertWithin ⟨g, options, hook, scope⟩ depth' (i :: within) element
        return .array e) := by
  obtain ⟨depth, rfl⟩ := h.exists_depth
  obtain ⟨element, hd, helement, rfl⟩ := h.shows hg
  refine ⟨depth, element, h.part helement, ?_⟩
  rw [convertWithin, hd, lift_ok_bind]
  simp only [hhook]
  rw [if_neg h.notMem]

/-- A dictionary is converted with its value and then its key. -/
theorem Look.convert_dictionary (h : Look g depth within i (.dictionary t u)) :
    ∃ (depth' : Nat) (key value : TypeId) (keyType : Descriptor), g.get key = .ok keyType ∧
      Look g depth' (i :: within) key t ∧ Look g depth' (i :: within) value u ∧
      convertWithin ⟨g, options, hook, scope⟩ depth within i = (do
        let value ← convertWithin ⟨g, options, hook, scope⟩ depth' (i :: within) value
        dictionaryOf g i keyType
          (convertWithin ⟨g, options, hook, scope⟩ depth' (i :: within) key) value) := by
  obtain ⟨depth, rfl⟩ := h.exists_depth
  obtain ⟨key, value, hd, ⟨hkey, rfl⟩, hvalue, rfl⟩ := h.shows hg
  obtain ⟨keyType, hkeyType, -⟩ := hg.exists_get (Nat.lt_trans hkey h.lt)
  refine ⟨depth, key, value, keyType, hkeyType, h.part hkey, h.part hvalue, ?_⟩
  rw [convertWithin, hd, lift_ok_bind]
  simp only [hhook]
  rw [if_neg h.notMem, hkeyType, lift_ok_bind]

/-- An instantiation is kept where generic records are preserved and where parameters are left in
it. Otherwise it has a unit of its own. -/
theorem Look.convert_instantiation {definition : TypeId} {c : ComplexType} {ts : List TypeTree}
    (h : Look g depth within i (.instantiation definition c ts)) :
    ∃ (depth' : Nat) (arguments : List TypeId), g.model.get definition = .ok (.complex c) ∧
      (∀ argument ∈ arguments, Look g depth' (i :: within) argument (g.tree argument)) ∧
      arguments.map g.tree = ts ∧
      convertWithin ⟨g, options, hook, scope⟩ depth within i = (do
        if options.generics = .preserve ∨
            (TypeTree.instantiation definition c ts).hasParameter = true then
          let unit ← unitFor g definition
          return .genericReference unit.1 unit.2 (← arguments.mapM
            (convertWithin ⟨g, options, hook, scope⟩ depth' (i :: within)))
        else referenceTo g i) := by
  obtain ⟨depth, rfl⟩ := h.exists_depth
  obtain ⟨arguments, hd, hc, hdefinition, harguments, rfl⟩ := h.shows hg
  have hparameter := mentionsParameter_eq hg h.lt
  rw [h.tree] at hparameter
  refine ⟨depth, arguments, hc, fun a ha => h.part (harguments a ha), rfl, ?_⟩
  rw [convertWithin, hd, lift_ok_bind]
  simp only [hhook]
  rw [if_neg h.notMem, hdefinition, lift_ok_bind]
  by_cases hstyle : options.generics = .preserve
  · rw [if_pos hstyle, if_pos (.inl hstyle)]
    rfl
  · rw [if_neg hstyle, hparameter, lift_ok_bind]
    simp only [hstyle, false_or]

end Steps

end Look

end Declgen.Walk
