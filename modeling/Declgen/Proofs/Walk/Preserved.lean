import Declgen.Proofs.Document.Names
import Declgen.Proofs.Walk.Ground
import Declgen.Proofs.Walk.Meaning
import Declgen.Proofs.Walk.Succeeding

/-!
# Preserved generic records

A walk that writes one declaration for every list of arguments and a walk that preserves generic
records say the same. Every type that the first one reaches has a meaning in the second one: a
record or an enumeration is its own unit there, and an instantiation is its record applied to its
arguments. So the units of the first walk can be read in the second one, and then the fields agree.
-/

namespace Declgen.Walk

open Model Document TypeScript Declgen.Units

/-- The setup of a generation without a hook. -/
def Setup.inStyle (options : Options) (style : GenericStyle) : Setup :=
  ⟨{ options with generics := style }, fun _ => none⟩

/-- Two walks of a readable model that differ only in what becomes of generic records. The roots
are records and enumerations. -/
structure TwoWalks (options : Options) (a : Arena) (roots : List TypeId)
    (trees trees' : List TypeTree) (s s' : State) (units units' : List Completed) : Prop where
  /-- The model is well-formed. -/
  wellFormed : a.WellFormed
  /-- Its identities can be read back. -/
  readable : Readable a
  /-- The parameters of a record differ. -/
  nodup : ∀ ⦃id c⦄, a.get id = .ok (.complex c) → c.typeParams.Nodup
  /-- Roots have qualified names. -/
  named : ∀ id : Nat, id ∈ roots → ∃ d name, a.get id = .ok d ∧ d.qualifiedName? = some name
  /-- The first walk writes one declaration for every list of arguments. -/
  first : Walked (.inStyle options .monomorphize) a roots trees s units
  /-- The second walk preserves generic records. -/
  second : Walked (.inStyle options .preserve) a roots trees' s' units'

namespace TwoWalks

variable {options : Options} {a : Arena} {roots : List TypeId} {trees trees' : List TypeTree}
  {s s' : State} {units units' : List Completed} {t : TypeTree} {unit unit' : Completed}

/-- The roots are types of the model. -/
theorem roots_lt (h : TwoWalks options a roots trees trees' s s' units units') :
    ∀ id : Nat, id ∈ roots → id < a.size := by
  intro id hid
  obtain ⟨d, -, hd, -⟩ := h.named id hid
  exact Arena.get_lt hd

/-- What an instantiation means in the second generation: its record, applied to the expressions of
its arguments. -/
theorem generic (h : TwoWalks options a roots trees trees' s s' units units')
    {definition : TypeId} {c : ComplexType} {arguments : List TypeTree}
    (ht : TypeTree.Ground a (.instantiation definition c arguments)) {e : Expr}
    (he : (TypeTree.instantiation definition c arguments).meaning? .preserve s'.progress.units =
      some e) :
    ∃ es u, arguments.mapM (TypeTree.expr? .preserve s'.progress.units []) = some es ∧
      u ∈ units' ∧ e = .genericReference u.id u.header.name es ∧
      UnitOf (Setup.inStyle options .preserve).options a s'.progress.units
        (.record definition c) u := by
  simp only [TypeTree.meaning?, TypeTree.expr?, true_or, if_true, TypeTree.exprs?_eq_mapM,
    Option.bind_eq_bind, Option.bind_eq_some_iff, Option.some.injEq] at he
  obtain ⟨unit, hunit, es, hes, rfl⟩ := he
  have hrecord : TypeTree.Ground a (.record definition c) := by
    cases ht.inModel with
    | instantiation hc => exact ⟨.record hc, rfl⟩
  obtain ⟨-, u, hu, hid, hname, hunitOf⟩ :=
    h.second.unitOf h.wellFormed h.readable h.roots_lt hrecord hunit
  exact ⟨es, u, hes, List.mem_of_getElem? hu, by rw [hid, hname], hunitOf⟩

/-- The parameters of an instantiated record stand for the arguments and for the expressions of
these. -/
theorem exists_lookup (h : TwoWalks options a roots trees trees' s s' units units')
    {definition : TypeId} {c : ComplexType} {arguments : List TypeTree}
    (ht : TypeTree.Ground a (.instantiation definition c arguments)) {es : List Expr}
    (hes : arguments.mapM (TypeTree.expr? .preserve s'.progress.units []) = some es) :
    ∀ name ∈ c.typeParams, ∃ u e, (c.typeParams.zip arguments).reverse.lookup name = some u ∧
      (c.typeParams.zip es).lookup name = some e ∧
      u.expr? .preserve s'.progress.units [] = some e := by
  cases ht.inModel with
  | instantiation hc _ hlength =>
    exact fun name hname => TypeTree.exists_lookup_zip (h.nodup hc) hlength hes hname

/-- The units of the second generation belong to enumerations and records. -/
theorem exists_definition (h : TwoWalks options a roots trees trees' s s' units units')
    (hunit' : unit' ∈ units') : ∃ id d name, s'.graph.get id = .ok d ∧
      d.qualifiedName? = some name ∧ identity s'.graph id = .ok unit'.key := by
  obtain ⟨id, d, hd, hnamed, -, hmem, hidentity⟩ := h.second.exists_source hunit'
  have hdefinition := (h.second.sound.reached _ hmem).definition
  cases d with
  | enum e => exact ⟨id, _, _, hd, rfl, hidentity⟩
  | complex c => exact ⟨id, _, _, hd, rfl, hidentity⟩
  | instantiation definition arguments =>
    obtain ⟨c, hc, -⟩ := h.second.sound.graph.definition hd
    rw [h.second.sound.graph.tree_instantiation hd hc] at hdefinition
    rcases hdefinition with ⟨_, _, heq⟩ | ⟨_, _, heq⟩ <;> cases heq
  | _ => cases hnamed

end TwoWalks

end Declgen.Walk
